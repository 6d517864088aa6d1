import Mathlib.Data.List.Basic
import MonthlyModel.Proofs.Sheet.Layout

/-! Sequences of calls of a builder.

Each placement hands out one row. A reference stays where its last placement has put it, and no two references
have the same row, whatever is placed again and whenever the start row changes. On each sheet rows are handed
out one after another, from the start row on if that stays the same. Counted in 32 bits the rows are the same,
as long as they fit. -/

namespace MonthlyModel.Sheet

/-- A call of a builder. -/
inductive LayoutCall where
  | place (r : Reference) (sheet : String)
  | startRow (row : UInt32)
  | firstColumn (column : UInt32)
deriving DecidableEq, Repr

namespace LayoutCall

def apply (b : LayoutBuilder) : LayoutCall → LayoutBuilder
  | .place r sheet => b.place r sheet
  | .startRow row => b.withStartRow row.toNat
  | .firstColumn column => b.withFirstColumn column.toNat

/-- The reference that a call places, and the sheet. -/
def placement? : LayoutCall → Option (Reference × String)
  | .place r sheet => some (r, sheet)
  | _ => none

/-- The row that a call hands out, with the reference that it is for, if it places one. -/
def handsOut (b : LayoutBuilder) (call : LayoutCall) : List (Reference × CellRow) :=
  (call.placement?.map fun (r, sheet) => (r, ⟨sheet, b.freeRow sheet⟩)).toList

end LayoutCall

namespace LayoutBuilder

variable {b : LayoutBuilder} {r : Reference} {sheet : String} {call : LayoutCall} {calls settings : List LayoutCall}

/-- A builder after calls. -/
def after (b : LayoutBuilder) (calls : List LayoutCall) : LayoutBuilder :=
  calls.foldl LayoutCall.apply b

/-- The rows that calls hand out, in their order. -/
def handedOut (b : LayoutBuilder) : List LayoutCall → List (Reference × CellRow)
  | [] => []
  | call :: calls => call.handsOut b ++ handedOut (call.apply b) calls

/-- The rows of one sheet that calls hand out. -/
def handedOutOn (b : LayoutBuilder) (calls : List LayoutCall) (sheet : String) : List Nat :=
  ((b.handedOut calls).filter (·.2.sheet = sheet)).map (·.2.row)

/-- The rows that calls hand out where rows are counted in 32 bits, given the start row and the next rows of the
    sheets. -/
def handedOutWords (start : UInt32) (next : String → Option UInt32) : List LayoutCall → List (Reference × String × UInt32)
  | [] => []
  | .place r sheet :: calls =>
    let row := (next sheet).getD start
    (r, sheet, row) :: handedOutWords start (fun s => if sheet = s then some (row + 1) else next s) calls
  | .startRow row :: calls => handedOutWords (max row 1) next calls
  | .firstColumn _ :: calls => handedOutWords start next calls

/-- All rows that calls hand out fit into 32 bits. -/
def RowsFit (calls : List LayoutCall) : Prop :=
  ∀ placed ∈ empty.handedOut calls, placed.2.row < UInt32.size

/-- What a layout is like that calls build. -/
structure LaidOut (calls : List LayoutCall) (l : Layout) : Prop where
  /-- The rows that are handed out are those that 32 bits count. -/
  words : (handedOutWords 2 (fun _ => none) calls).map (fun (r, sheet, row) => (r, ⟨sheet, row.toNat⟩)) = empty.handedOut calls
  /-- Every placement hands out one row, of its sheet. -/
  placements : (empty.handedOut calls).map (fun (r, row) => (r, row.sheet)) = calls.filterMap (·.placement?)
  /-- A reference has the row that its last placement hands out. -/
  last : ∀ r, l.get? r = (empty.handedOut calls).reverse.lookup r
  apart : ∀ {r r' row}, l.get? r = some row → l.get? r' = some row → r = r'
  /-- If placements start only after the start row is settled, each sheet is filled from that row on. -/
  rows : ∀ {settings rest}, calls = settings ++ rest → (∀ call ∈ settings, call.placement? = none) →
    (∀ row, .startRow row ∈ rest → max row.toNat 1 = (empty.after settings).startRow) →
      ∀ sheet, ∃ count, empty.handedOutOn calls sheet = List.range' (empty.after settings).startRow count

/-! ### Single calls -/

theorem get?_apply (b : LayoutBuilder) (call : LayoutCall) (r : Reference) :
    (call.apply b).layout.get? r = ((call.handsOut b).lookup r).or (b.layout.get? r) := by
  cases call with
  | place r' sheet =>
    refine (get?_place b r' sheet r).trans ?_
    by_cases h : r' = r
    · simp [LayoutCall.handsOut, LayoutCall.placement?, h]
    · have hb : (r == r') = false := beq_eq_false_iff_ne.mpr (Ne.symm h)
      simp [LayoutCall.handsOut, LayoutCall.placement?, h, List.lookup_cons, hb]
  | startRow row => rfl
  | firstColumn column => rfl

theorem reverse_handsOut (b : LayoutBuilder) (call : LayoutCall) : (call.handsOut b).reverse = call.handsOut b := by
  cases call <;> rfl

theorem Apart.apply (h : b.Apart) (call : LayoutCall) : (call.apply b).Apart := by
  cases call with
  | place r sheet => exact h.place r sheet
  | startRow row => exact ⟨h.before, h.apart⟩
  | firstColumn column => exact ⟨h.before, h.apart⟩

/-- A call that keeps the start row takes the next row of a sheet if it places a reference there, and no row of it
    otherwise. -/
theorem handsOut_cases (h : ∀ row, call = .startRow row → max row.toNat 1 = b.startRow) (sheet : String) :
    (((call.handsOut b).filter (·.2.sheet = sheet)).map (·.2.row) = [b.freeRow sheet] ∧
        (call.apply b).freeRow sheet = b.freeRow sheet + 1) ∨
      (((call.handsOut b).filter (·.2.sheet = sheet)).map (·.2.row) = [] ∧
        (call.apply b).freeRow sheet = b.freeRow sheet) := by
  cases call with
  | place r sheet' =>
    by_cases hsheet : sheet' = sheet
    · subst hsheet
      exact .inl ⟨by simp [LayoutCall.handsOut, LayoutCall.placement?], (freeRow_place ..).trans (if_pos rfl)⟩
    · exact .inr ⟨by simp [LayoutCall.handsOut, LayoutCall.placement?, hsheet], (freeRow_place ..).trans (if_neg hsheet)⟩
  | startRow row =>
    refine .inr ⟨rfl, ?_⟩
    change (b.withStartRow row.toNat).freeRow sheet = _
    rw [withStartRow, h row rfl]
  | firstColumn column => exact .inr ⟨rfl, rfl⟩

theorem startRow_apply (h : ∀ row, call = .startRow row → max row.toNat 1 = b.startRow) :
    (call.apply b).startRow = b.startRow := by
  cases call with
  | place r sheet => rfl
  | startRow row => exact h row rfl
  | firstColumn column => rfl

/-! ### All calls -/

theorem Apart.after (h : b.Apart) (calls : List LayoutCall) : (b.after calls).Apart := by
  induction calls generalizing b with
  | nil => exact h
  | cons call calls ih => exact ih (h.apply call)

theorem get?_after (b : LayoutBuilder) (calls : List LayoutCall) (r : Reference) :
    (b.after calls).layout.get? r = ((b.handedOut calls).reverse.lookup r).or (b.layout.get? r) := by
  induction calls generalizing b with
  | nil => rfl
  | cons call calls ih =>
    refine (ih (call.apply b)).trans ?_
    rw [get?_apply, handedOut, List.reverse_append, List.lookup_append, reverse_handsOut, Option.or_assoc]

theorem map_handedOut (b : LayoutBuilder) (calls : List LayoutCall) :
    (b.handedOut calls).map (fun (r, row) => (r, row.sheet)) = calls.filterMap (·.placement?) := by
  induction calls generalizing b with
  | nil => rfl
  | cons call calls ih =>
    rw [handedOut, List.map_append, ih, List.filterMap_cons]
    cases call <;> rfl

/-- Rows are handed out one after another as long as the start row stays the same. -/
theorem exists_handedOutOn_eq (h : ∀ row, .startRow row ∈ calls → max row.toNat 1 = b.startRow) (sheet : String) :
    ∃ count, b.handedOutOn calls sheet = List.range' (b.freeRow sheet) count := by
  induction calls generalizing b with
  | nil => exact ⟨0, rfl⟩
  | cons call calls ih =>
    have hcall : ∀ row, call = .startRow row → max row.toNat 1 = b.startRow := fun row hrow => h row (hrow ▸ List.mem_cons_self)
    obtain ⟨count, hcount⟩ := ih (b := call.apply b) fun row hrow =>
      (h row (List.mem_cons_of_mem _ hrow)).trans (startRow_apply hcall).symm
    have hcons : b.handedOutOn (call :: calls) sheet =
        ((call.handsOut b).filter (·.2.sheet = sheet)).map (·.2.row) ++ (call.apply b).handedOutOn calls sheet := by
      rw [handedOutOn, handedOut, List.filter_append, List.map_append, handedOutOn]
    rw [hcons, hcount]
    rcases handsOut_cases hcall sheet with ⟨hrow, hnext⟩ | ⟨hrow, hnext⟩
    · exact ⟨count + 1, by rw [hrow, hnext, List.range'_succ, List.singleton_append]⟩
    · exact ⟨count, by rw [hrow, hnext, List.nil_append]⟩

/-- Calls that place nothing hand out nothing, and leave all rows free. -/
theorem after_settings (b : LayoutBuilder) (h : ∀ call ∈ settings, call.placement? = none) (rest : List LayoutCall) :
    b.handedOut (settings ++ rest) = (b.after settings).handedOut rest ∧ (b.after settings).nextRow = b.nextRow := by
  induction settings generalizing b with
  | nil => exact ⟨rfl, rfl⟩
  | cons call settings ih =>
    obtain ⟨hcall, hsettings⟩ := List.forall_mem_cons.mp h
    obtain ⟨hhanded, hnext⟩ := ih (call.apply b) hsettings
    rw [List.cons_append, handedOut, hhanded, LayoutCall.handsOut, hcall]
    refine ⟨rfl, hnext.trans ?_⟩
    cases call with
    | place r sheet => cases hcall
    | startRow row => rfl
    | firstColumn column => rfl

/-! ### Rows of 32 bits -/

/-- Words count the rows of a builder: they are what 32 bits hold of them. -/
structure Counts (start : UInt32) (next : String → Option UInt32) (b : LayoutBuilder) : Prop where
  start : start.toNat = b.startRow
  next : ∀ sheet, (next sheet).map UInt32.toNat = b.nextRow[sheet]?.map (· % UInt32.size)

variable {start : UInt32} {next : String → Option UInt32}

theorem Counts.freeRow (h : Counts start next b) (sheet : String) :
    ((next sheet).getD start).toNat = b.freeRow sheet % UInt32.size := by
  have hnext := h.next sheet
  rw [freeRow_eq]
  cases hword : next sheet with
  | none =>
    rw [hword, Option.map_none, eq_comm, Option.map_eq_none_iff] at hnext
    rw [hnext, Option.getD_none, Option.getD_none, ← h.start, Nat.mod_eq_of_lt start.toNat_lt]
  | some word =>
    rw [hword, Option.map_some, eq_comm] at hnext
    obtain ⟨row, hrow, hmod⟩ := Option.map_eq_some_iff.mp hnext
    rw [hrow, Option.getD_some, Option.getD_some, hmod]

theorem Counts.place (h : Counts start next b) (r : Reference) (sheet : String) : Counts start
    (fun s => if sheet = s then some ((next sheet).getD start + 1) else next s) (b.place r sheet) where
  start := h.start
  next s := by
    rw [nextRow_place]
    split
    · have hrow : ((next sheet).getD start + 1).toNat = (b.freeRow sheet + 1) % UInt32.size := by
        rw [UInt32.toNat_add, h.freeRow]
        exact Nat.mod_add_mod _ _ _
      rw [Option.map_some, Option.map_some, hrow]
    · exact h.next s

theorem toNat_max_one (row : UInt32) : (max row 1).toNat = max row.toNat 1 := by
  have hle : row ≤ 1 ↔ row.toNat ≤ 1 := UInt32.le_iff_toNat_le
  rw [show max row 1 = if row ≤ 1 then 1 else row from rfl, Nat.max_def]
  split
  · next h => rw [if_pos (hle.mp h)]; rfl
  · next h => rw [if_neg (mt hle.mpr h)]

/-- As long as rows fit, counting them in 32 bits hands out the same ones. -/
theorem handedOutWords_eq (h : Counts start next b) (hfit : ∀ placed ∈ b.handedOut calls, placed.2.row < UInt32.size) :
    (handedOutWords start next calls).map (fun (r, sheet, row) => (r, ⟨sheet, row.toNat⟩)) = b.handedOut calls := by
  induction calls generalizing b start next with
  | nil => rfl
  | cons call calls ih =>
    obtain ⟨hcall, hcalls⟩ := List.forall_mem_append.mp hfit
    cases call with
    | place r sheet =>
      have hrow : b.freeRow sheet < UInt32.size := hcall (r, ⟨sheet, b.freeRow sheet⟩) List.mem_cons_self
      rw [handedOutWords, List.map_cons, ih (h.place r sheet) hcalls]
      dsimp only
      rw [h.freeRow, Nat.mod_eq_of_lt hrow]
      rfl
    | startRow row => exact ih ⟨toNat_max_one row, h.next⟩ hcalls
    | firstColumn column => exact ih ⟨h.start, h.next⟩ hcalls

/-- References on two sheets, close to the last row that fits. One is placed again and leaves its row, which
    stays free. -/
def crowded : List LayoutCall :=
  [.startRow 4294967292, .place (.calculation 1) "Main", .place (.calculation 2) "Main",
    .place (.calculation 1) "Other", .place (.calculation 3) "Main"]

theorem handedOut_crowded : empty.handedOut crowded =
    [(.calculation 1, ⟨"Main", 4294967292⟩), (.calculation 2, ⟨"Main", 4294967293⟩),
      (.calculation 1, ⟨"Other", 4294967292⟩), (.calculation 3, ⟨"Main", 4294967294⟩)] := by
  decide +kernel

/-- After the last row that fits comes row 0. -/
example : handedOutWords 4294967295 (fun _ => none) [.place (.calculation 1) "Main", .place (.calculation 2) "Main"] =
    [(.calculation 1, "Main", 4294967295), (.calculation 2, "Main", 0)] := by
  decide +kernel

end LayoutBuilder

end MonthlyModel.Sheet
