import MonthlyModel.Sheet.Layout

/-! Layouts in the making.

A builder hands out the rows of a sheet one after another. All rows that it has handed out lie before the
next free one, so no two references share a row, although a reference that is placed again leaves the row
that it had. -/

namespace MonthlyModel.Sheet

variable {r r' : Reference} {row : CellRow} {sheet sheet' : String}

theorem Layout.get?_empty (r : Reference) : Layout.empty.get? r = none := by
  simp [empty, get?]

theorem Layout.get?_insert (l : Layout) (r : Reference) (row : CellRow) (r' : Reference) :
    (l.insert r row).get? r' = if r = r' then some row else l.get? r' := by
  simp [insert, get?, Std.TreeMap.getElem?_insert]

namespace LayoutBuilder

variable {b : LayoutBuilder} {rs : List Reference} {i : Nat}

theorem get?_place (b : LayoutBuilder) (r : Reference) (sheet : String) (r' : Reference) :
    (b.place r sheet).layout.get? r' = if r = r' then some ⟨sheet, b.freeRow sheet⟩ else b.layout.get? r' :=
  Layout.get?_insert ..

theorem nextRow_place (b : LayoutBuilder) (r : Reference) (sheet sheet' : String) :
    (b.place r sheet).nextRow[sheet']? = if sheet = sheet' then some (b.freeRow sheet + 1) else b.nextRow[sheet']? := by
  simp [place, Std.TreeMap.getElem?_insert]

theorem freeRow_eq (b : LayoutBuilder) (sheet : String) : b.freeRow sheet = b.nextRow[sheet]?.getD b.startRow := by
  rw [freeRow, Std.TreeMap.getD_eq_getD_getElem?]

theorem freeRow_place (b : LayoutBuilder) (r : Reference) (sheet sheet' : String) :
    (b.place r sheet).freeRow sheet' = if sheet = sheet' then b.freeRow sheet + 1 else b.freeRow sheet' := by
  rw [freeRow_eq, nextRow_place]
  split
  · rfl
  · exact (freeRow_eq b sheet').symm

/-! ### Rows of their own -/

/-- No two references share a row, and the next row of a sheet is behind all that are taken. -/
structure Apart (b : LayoutBuilder) : Prop where
  before : ∀ {r row}, b.layout.get? r = some row → ∃ next, b.nextRow[row.sheet]? = some next ∧ row.row < next
  apart : ∀ {r r' row}, b.layout.get? r = some row → b.layout.get? r' = some row → r = r'

theorem Apart.empty : Apart .empty where
  before h := nomatch (Layout.get?_empty _).symm.trans h
  apart h := nomatch (Layout.get?_empty _).symm.trans h

theorem Apart.row_lt (h : b.Apart) (hr : b.layout.get? r = some row) : row.row < b.freeRow row.sheet := by
  obtain ⟨next, hnext, hlt⟩ := h.before hr
  rwa [freeRow_eq, hnext, Option.getD_some]

theorem Apart.place (h : b.Apart) (r : Reference) (sheet : String) : (b.place r sheet).Apart where
  before {r' row} hr' := by
    rw [get?_place] at hr'
    rw [nextRow_place]
    split at hr'
    · cases hr'
      exact ⟨_, if_pos rfl, Nat.lt_succ_self _⟩
    · obtain ⟨next, hnext, hlt⟩ := h.before hr'
      split
      · next hsheet =>
        refine ⟨_, rfl, Nat.lt_succ_of_lt ?_⟩
        rw [hsheet]
        exact h.row_lt hr'
      · exact ⟨next, hnext, hlt⟩
  apart {r₁ r₂ row} h₁ h₂ := by
    -- The row that is handed out is not among those before it.
    have hfree : ∀ {r'}, b.layout.get? r' ≠ some ⟨sheet, b.freeRow sheet⟩ := fun hr' => Nat.lt_irrefl _ (h.row_lt hr')
    rw [get?_place] at h₁ h₂
    split at h₁ <;> split at h₂
    · next hr₁ hr₂ => exact hr₁.symm.trans hr₂
    · cases h₁
      exact absurd h₂ hfree
    · cases h₂
      exact absurd h₁ hfree
    · exact h.apart h₁ h₂

/-! ### Several references on one sheet -/

/-- References in consecutive rows of a sheet. -/
def placeAll (b : LayoutBuilder) (rs : List Reference) (sheet : String) : LayoutBuilder :=
  rs.foldl (fun b r => b.place r sheet) b

theorem Apart.placeAll (h : b.Apart) (rs : List Reference) (sheet : String) : (b.placeAll rs sheet).Apart := by
  induction rs generalizing b with
  | nil => exact h
  | cons r rs ih => exact ih (h.place r sheet)

theorem freeRow_placeAll (b : LayoutBuilder) (rs : List Reference) (sheet sheet' : String) :
    (b.placeAll rs sheet).freeRow sheet' = if sheet = sheet' then b.freeRow sheet + rs.length else b.freeRow sheet' := by
  induction rs generalizing b with
  | nil =>
    split
    · next h => rw [h]; rfl
    · rfl
  | cons r rs ih =>
    rw [placeAll, List.foldl_cons]
    refine (ih _).trans ?_
    rw [freeRow_place, freeRow_place, if_pos rfl, List.length_cons]
    split
    · omega
    · rfl

theorem get?_placeAll_of_notMem (b : LayoutBuilder) (sheet : String) (h : r ∉ rs) :
    (b.placeAll rs sheet).layout.get? r = b.layout.get? r := by
  induction rs generalizing b with
  | nil => rfl
  | cons r' rs ih =>
    rw [List.mem_cons, not_or] at h
    exact (ih _ h.2).trans ((get?_place ..).trans (if_neg (Ne.symm h.1)))

/-- The row of a reference says how many were placed before it. -/
theorem get?_placeAll (b : LayoutBuilder) (sheet : String) (hrs : rs.Nodup) (h : rs[i]? = some r) :
    (b.placeAll rs sheet).layout.get? r = some ⟨sheet, b.freeRow sheet + i⟩ := by
  induction rs generalizing b i with
  | nil => cases h
  | cons r' rs ih =>
    obtain ⟨hr', hrs⟩ := List.nodup_cons.mp hrs
    cases i with
    | zero =>
      cases h
      exact (get?_placeAll_of_notMem _ sheet hr').trans ((get?_place ..).trans (if_pos rfl))
    | succ i =>
      refine (ih _ hrs h).trans ?_
      rw [freeRow_place, if_pos rfl, Nat.add_assoc, Nat.add_comm 1]

end LayoutBuilder

end MonthlyModel.Sheet
