import Mathlib.Data.List.Basic
import MonthlyModel.Csv.Inputs
import MonthlyModel.Proofs.Outcome
import MonthlyModel.Proofs.SeriesMap

/-! The rows of input texts.

A row names a reference and gives it values. A text that the reader accepts is nothing but its rows:
every reference is bound to what the last row that names it gives, and the time constants that no row
names are bound to their own series. -/

namespace MonthlyModel.Csv

/-- The number in a field; an empty field is zero. -/
def number? (cs : List Char) : Option Float :=
  if cs.isEmpty then some 0 else Decimal.read? cs

/-- The reference that a record names, with the numbers in the other fields. -/
def row? (o : ReadOptions) (record : List (List UInt8)) : Option (Reference × Series Float) := do
  let fields ← record.mapM (decode o)
  let r ← Reference.ofChars? (fields.headD [])
  let values ← fields.tail.mapM number?
  return (r, values)

/-- The rows of a text from the first to the last. -/
def rows? (o : ReadOptions) (bs : List UInt8) : Option (List (Reference × Series Float)) :=
  let all := records o.marks (withoutByteOrderMark bs)
  (if o.header then all.tail else all).mapM (row? o)

/-- The values in the last row that names a reference. -/
def lastValues (rows : List (Reference × Series Float)) (r : Reference) : Option (Series Float) :=
  rows.reverse.lookup r

variable {o : ReadOptions} {t : Timeline} {m m' : SeriesMap Float} {r : Reference} {row column : Nat}
  {record : List (List UInt8)} {fields : List (List Char)} {done : List (List (List UInt8))}

/-! ### The last row -/

theorem lastValues_append (rows rows' : List (Reference × Series Float)) :
    lastValues (rows ++ rows') r = (lastValues rows' r).or (lastValues rows r) := by
  rw [lastValues, List.reverse_append, List.lookup_append, lastValues, lastValues]

theorem lastValues_singleton (r' : Reference) (values : Series Float) :
    lastValues [(r', values)] r = if r' = r then some values else none := by
  rw [lastValues, List.reverse_singleton, List.lookup_cons]
  by_cases h : r' = r
  · simp [h]
  · have hb : (r == r') = false := beq_eq_false_iff_ne.mpr (Ne.symm h)
    rw [hb, if_neg h]
    rfl

theorem lastValues_of_nodup {rows : List (Reference × Series Float)} (h : (rows.map Prod.fst).Nodup) :
    lastValues rows r = rows.lookup r := by
  induction rows with
  | nil => rfl
  | cons b rows ih =>
    obtain ⟨hb, hrows⟩ := List.nodup_cons.mp h
    rw [← List.singleton_append, lastValues_append, lastValues_singleton, ih hrows, List.singleton_append, List.lookup_cons]
    by_cases hr : b.1 = r
    · have hnone : rows.lookup r = none := by
        rw [List.lookup_eq_none_iff]
        intro b' hb'
        rw [bne_iff_ne, ← hr]
        exact fun he => hb (he ▸ List.mem_map_of_mem hb')
      simp [hr, hnone]
    · have hne : (r == b.1) = false := beq_eq_false_iff_ne.mpr (Ne.symm hr)
      rw [if_neg hr, Option.or_none, hne]

theorem exists_lastValues_iff {rows : List (Reference × Series Float)} :
    (∃ values, lastValues rows r = some values) ↔ r ∈ rows.map Prod.fst := by
  rw [← Option.isSome_iff_exists, lastValues, List.lookup_isSome_iff]
  simp only [List.mem_reverse, beq_iff_eq, List.mem_map, eq_comm (a := r)]

/-- A row for each time constant of a timeline. -/
def constantRows (t : Timeline) : List (Reference × Series Float) :=
  TimeConstant.all.map (SeriesMap.constantBinding t)

theorem lastValues_constantRows (t : Timeline) : lastValues (constantRows t) r = (SeriesMap.ofTimeline t).get? r := by
  have hnd : ((constantRows t).map Prod.fst).Nodup := by
    rw [constantRows, List.map_map]
    change (TimeConstant.all.map fun c => Reference.timeConstant c.name).Nodup
    decide
  rw [lastValues_of_nodup hnd, SeriesMap.get?_ofTimeline, constantRows]

theorem lastValues_constantRows_eq_some_iff {t : Timeline} {values : Series Float} :
    lastValues (constantRows t) r = some values ↔ ∃ c, SeriesMap.constantBinding t c = (r, values) := by
  constructor
  · intro h
    obtain ⟨before, after, hsplit, -⟩ := List.lookup_eq_some_iff.mp h
    have hmem : (r, values) ∈ constantRows t := List.mem_reverse.mp (hsplit ▸ List.mem_append_cons_self)
    obtain ⟨c, -, hc⟩ := List.mem_map.mp hmem
    exact ⟨c, hc⟩
  · rintro ⟨c, hc⟩
    obtain ⟨rfl, rfl⟩ := Prod.mk.inj hc
    cases c <;> rfl

/-! ### What the reader accepts -/

theorem row?_eq_some {record : List (List UInt8)} {fields : List (List Char)} {values : Series Float}
    (hd : record.mapM (decode o) = some fields) (hr : Reference.ofChars? (fields.headD []) = some r)
    (hv : fields.tail.mapM number? = some values) : row? o record = some (r, values) := by
  rw [row?, hd, Option.bind_eq_bind, Option.bind_some, hr, Option.bind_eq_bind, Option.bind_some, hv]
  rfl

theorem fieldValue_eq_ok_iff {cs : List Char} {x : Float} : fieldValue row column cs = .ok x ↔ number? cs = some x := by
  unfold fieldValue number?
  split
  · simp
  · cases Decimal.read? cs <;> simp

theorem fieldValues_eq_ok_iff {fields : List (List Char)} {xs : Series Float} :
    fieldValues row column fields = .ok xs ↔ fields.mapM number? = some xs := by
  induction fields generalizing column xs with
  | nil => exact ⟨fun h => by cases h; rfl, fun h => by cases h; rfl⟩
  | cons cs fields ih =>
    rw [fieldValues, List.mapM_cons, bind_eq_ok_iff, Option.bind_eq_bind, Option.bind_eq_some_iff]
    simp only [bind_eq_ok_iff, Option.bind_eq_bind, Option.bind_eq_some_iff, fieldValue_eq_ok_iff, ih, pure_eq_ok_iff,
      Option.pure_def, Option.some.injEq]

theorem reference_of_fieldReference {cs : List Char} (h : fieldReference m row cs = .ok r) :
    Reference.ofChars? cs = some r := by
  unfold fieldReference Reference.parse at h
  rw [String.toList_ofList] at h
  cases hr : Reference.ofChars? cs with
  | none =>
    rw [hr] at h
    cases h
  | some r' =>
    rw [hr] at h
    dsimp only at h
    split at h
    · cases h
    · rw [Except.ok.inj h]

theorem addRecord_eq_ok {fields : List (List Char)} (h : addRecord m row fields = .ok m') :
    ∃ r values, Reference.ofChars? (fields.headD []) = some r ∧ fields.tail.mapM number? = some values ∧
      m.insert r values = .ok m' := by
  obtain ⟨r, hr, h⟩ := bind_eq_ok_iff.mp h
  obtain ⟨values, hv, h⟩ := bind_eq_ok_iff.mp h
  refine ⟨r, values, reference_of_fieldReference hr, fieldValues_eq_ok_iff.mp hv, ?_⟩
  cases hi : m.insert r values with
  | error e =>
    rw [hi] at h
    cases h
  | ok m =>
    rw [hi] at h
    exact congrArg Except.ok (Except.ok.inj h)

theorem exists_addRecord {fields : List (List Char)} {values : Series Float}
    (hr : Reference.ofChars? (fields.headD []) = some r) (hv : fields.tail.mapM number? = some values)
    (hfree : m.contains r = false) (hl : values.length = m.periods) : ∃ m', addRecord m row fields = .ok m' := by
  have href : fieldReference m row (fields.headD []) = .ok r := by
    rw [fieldReference, Reference.parse, String.toList_ofList, hr]
    simp [hfree]
  have hvalues : fieldValues row 2 fields.tail = .ok values := fieldValues_eq_ok_iff.mpr hv
  have hinsert : m.insert r values = .ok (m.bind r values hl) := SeriesMap.insert_eq_ok_iff.mpr ⟨hl, rfl⟩
  refine ⟨m.bind r values hl, ?_⟩
  simp only [addRecord, href, hvalues, bind, Except.bind, hinsert]
  rfl

/-! ### What is bound -/

/-- What is bound over a timeline after records that were accepted. -/
structure Bound (o : ReadOptions) (t : Timeline) (done : List (List (List UInt8))) (m : SeriesMap Float) : Prop where
  periods : m.periods = t.length
  rows : ∃ rows, done.mapM (row? o) = some rows ∧ ∀ r, m.get? r = lastValues (constantRows t ++ rows) r

theorem Bound.ofTimeline (o : ReadOptions) (t : Timeline) : Bound o t [] (.ofTimeline t) where
  periods := SeriesMap.periods_ofTimeline
  rows := ⟨[], rfl, fun r => by rw [List.append_nil, lastValues_constantRows]⟩

theorem Bound.add (h : Bound o t done m) (hd : record.mapM (decode o) = some fields)
    (hm : addRecord m row fields = .ok m') : Bound o t (done ++ [record]) m' := by
  obtain ⟨r, values, hr, hv, hi⟩ := addRecord_eq_ok hm
  obtain ⟨hl, rfl⟩ := SeriesMap.insert_eq_ok_iff.mp hi
  obtain ⟨rows, hrows, hget⟩ := h.rows
  refine ⟨h.periods, rows ++ [(r, values)], ?_, fun r' => ?_⟩
  · rw [List.mapM_append, hrows, List.mapM_cons, row?_eq_some hd hr hv]
    rfl
  · rw [SeriesMap.get?_bind, ← List.append_assoc, lastValues_append, lastValues_singleton, hget]
    split
    · rfl
    · rw [Option.none_or]

theorem Bound.addAll (h : Bound o t done m) {all : List (List (List UInt8))} (hm : addRecords o m row all = .ok m') :
    Bound o t (done ++ all) m' := by
  induction all generalizing done m row with
  | nil =>
    cases hm
    rwa [List.append_nil]
  | cons record all ih =>
    rw [addRecords] at hm
    cases hd : record.mapM (decode o) with
    | none =>
      rw [hd] at hm
      cases hm
    | some fields =>
      rw [hd] at hm
      obtain ⟨m₁, hm₁, hm⟩ := bind_eq_ok_iff.mp hm
      rw [List.append_cons]
      exact ih (h.add hd hm₁) hm

def firstRow (o : ReadOptions) : Nat :=
  if o.header then 2 else 1

def dataRecords (o : ReadOptions) (bs : List UInt8) : List (List (List UInt8)) :=
  if o.header then (records o.marks (withoutByteOrderMark bs)).tail else records o.marks (withoutByteOrderMark bs)

theorem readInputs_eq (o : ReadOptions) (t : Timeline) (bs : List UInt8) :
    readInputs o t bs = addRecords o (.ofTimeline t) (firstRow o) (dataRecords o bs) := by
  unfold readInputs firstRow dataRecords
  cases o.header <;> rfl

/-- The reader binds what the rows of a text give, as if rows of the time constants came before them. -/
theorem readInputs_eq_ok {bs : List UInt8} (h : readInputs o t bs = .ok m) :
    ∃ rows, rows? o bs = some rows ∧ m.periods = t.length ∧
      ∀ r, m.get? r = lastValues (constantRows t ++ rows) r := by
  rw [readInputs_eq] at h
  obtain ⟨hperiods, rows, hrows, hget⟩ := (Bound.ofTimeline o t).addAll h
  exact ⟨rows, hrows, hperiods, hget⟩

/-! ### Texts of one record -/

theorem records_eq_singleton {marks : Marks} {bs more : List UInt8} {b : UInt8} {fields : List (List UInt8)}
    (h : bs.dropWhile isLineEnd = b :: more) (hf : takeFields marks (b :: more) = (fields, [])) :
    records marks bs = [fields] := by
  rw [records]
  split
  · next h' => cases h'.symm.trans h
  · next h' =>
    cases h'.symm.trans h
    split
    · next h'' =>
      cases h''.symm.trans hf
      rfl
    · next h'' => cases h''.symm.trans hf

theorem readInputs_singleton {t : Timeline} {bs : List UInt8} {record : List (List UInt8)} {fields : List (List Char)}
    {values : Series Float} (ho : o.header = false) (hrecords : records o.marks (withoutByteOrderMark bs) = [record])
    (hd : record.mapM (decode o) = some fields) (hr : Reference.ofChars? (fields.headD []) = some r)
    (hv : fields.tail.mapM number? = some values) (hfree : (SeriesMap.ofTimeline t : SeriesMap Float).contains r = false)
    (hl : values.length = t.length) : (∃ inputs, readInputs o t bs = .ok inputs) ∧ rows? o bs = some [(r, values)] := by
  constructor
  · obtain ⟨inputs, h⟩ : ∃ inputs, addRecord (.ofTimeline t) 1 fields = .ok inputs :=
      exists_addRecord hr hv hfree (hl.trans SeriesMap.periods_ofTimeline.symm)
    refine ⟨inputs, ?_⟩
    rw [readInputs, hrecords, ho, if_neg Bool.false_ne_true, addRecords, hd]
    simp only [h, bind, Except.bind, addRecords]
  · rw [rows?, hrecords, ho, if_neg Bool.false_ne_true, List.mapM_cons, row?_eq_some hd hr hv]
    rfl

end MonthlyModel.Csv
