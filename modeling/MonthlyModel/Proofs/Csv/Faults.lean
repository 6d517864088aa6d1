import MonthlyModel.Proofs.Csv.Rows
import MonthlyModel.Proofs.Reference

/-! The first fault of an input text.

The reader goes through the records of a text and stops at the first one that it refuses. What it refuses a
record for depends on the records before it only in one way: they take references, of which each can be named
once. If no record is refused, the rows are bound and nothing else but the time constants that they leave out. -/

namespace MonthlyModel.Csv

variable {o : ReadOptions} {t : Timeline} {m m' : SeriesMap Float} {r : Reference} {row column first : Nat} {cs : List Char}
  {fields : List (List Char)} {taken : Reference → Prop} {fault : InputFault} {record : List (List UInt8)}
  {done all : List (List (List UInt8))} {bs : List UInt8} {rows : List (Reference × Series Float)}

/-! ### Records that are refused -/

def key? (o : ReadOptions) (record : List (List UInt8)) : Option Reference :=
  (record.mapM (decode o)).bind fun fields => Reference.ofChars? (fields.headD [])

/-- Records take the references that they name, except for time constants. -/
def Taken (o : ReadOptions) (earlier : List (List (List UInt8))) (r : Reference) : Prop :=
  r.family ≠ .timeConstant ∧ ∃ record ∈ earlier, key? o record = some r

/-- What the fields of a record are refused for while some references are taken: the first field before the
    others, these from left to right, and last the number of values. -/
inductive FieldsRefused (t : Timeline) (taken : Reference → Prop) (row : Nat) (fields : List (List Char)) :
    InputFault → Prop where
  | noReference (h : Reference.ofChars? (fields.headD []) = none) :
    FieldsRefused t taken row fields (.field row 1 (.reference (.malformed (String.ofList (fields.headD [])))))
  | duplicate {r : Reference} (hr : Reference.ofChars? (fields.headD []) = some r) (h : taken r) :
    FieldsRefused t taken row fields (.field row 1 (.duplicate r))
  | notNumber {r : Reference} {front back : List (List Char)} {cs : List Char}
    (hr : Reference.ofChars? (fields.headD []) = some r) (hfree : ¬ taken r) (hfields : fields.tail = front ++ cs :: back)
    (hfront : ∀ field ∈ front, (number? field).isSome = true) (h : number? cs = none) :
    FieldsRefused t taken row fields (.field row (front.length + 2) (.notNumber (String.ofList cs)))
  | length {r : Reference} {values : Series Float} (hr : Reference.ofChars? (fields.headD []) = some r) (hfree : ¬ taken r)
    (hvalues : fields.tail.mapM number? = some values) (h : values.length ≠ t.length) :
    FieldsRefused t taken row fields (.length ⟨r.text, t.length, values.length⟩)

/-- What a record is refused for after earlier ones. -/
inductive Refused (o : ReadOptions) (t : Timeline) (earlier : List (List (List UInt8))) (row : Nat)
    (record : List (List UInt8)) : InputFault → Prop where
  | undecodable (h : record.mapM (decode o) = none) : Refused o t earlier row record .undecodable
  | fields {fields : List (List Char)} {fault : InputFault} (hd : record.mapM (decode o) = some fields)
    (h : FieldsRefused t (Taken o earlier) row fields fault) : Refused o t earlier row record fault

/-- What the record at a position is refused for; rows count from the number of the first one. -/
def RefusedAt (o : ReadOptions) (t : Timeline) (first : Nat) (all : List (List (List UInt8))) (i : Nat)
    (fault : InputFault) : Prop :=
  ∃ record, all[i]? = some record ∧ Refused o t (all.take i) (first + i) record fault

/-- A map of the rows over a timeline, with the time constants that the rows leave out. -/
structure Binds (t : Timeline) (rows : List (Reference × Series Float)) (m : SeriesMap Float) : Prop where
  lengths : ∀ {r values}, m.get? r = some values → values.length = t.length
  named : ∀ {r values}, lastValues rows r = some values → m.get? r = some values
  constants : ∀ {r values c}, lastValues rows r = none → SeriesMap.constantBinding t c = (r, values) →
    m.get? r = some values
  others : ∀ {r}, lastValues rows r = none → (∀ c : TimeConstant, r ≠ .timeConstant c.name) → m.get? r = none

/-- What becomes of records: a map of their rows if none is refused, and else what the first is refused for that
    is. -/
def Reads (o : ReadOptions) (t : Timeline) (first : Nat) (all : List (List (List UInt8))) :
    Except InputFault (SeriesMap Float) → Prop
  | .ok m => (∀ i fault, ¬ RefusedAt o t first all i fault) ∧ ∃ rows, all.mapM (row? o) = some rows ∧ Binds t rows m
  | .error fault => ∃ i, RefusedAt o t first all i fault ∧ ∀ j < i, ∀ fault', ¬ RefusedAt o t first all j fault'

/-! ### Rows and the references they name -/

theorem map_key?_eq (h : done.mapM (row? o) = some rows) : done.map (key? o) = rows.map fun b => some b.1 := by
  induction done generalizing rows with
  | nil =>
    cases h
    rfl
  | cons record done ih =>
    rw [List.mapM_cons] at h
    obtain ⟨b, hb, h⟩ := Option.bind_eq_some_iff.mp h
    obtain ⟨rows', hrows, h⟩ := Option.bind_eq_some_iff.mp h
    cases h
    obtain ⟨fields, hd, hb⟩ := Option.bind_eq_some_iff.mp hb
    obtain ⟨r, hr, hb⟩ := Option.bind_eq_some_iff.mp hb
    obtain ⟨values, -, hb⟩ := Option.bind_eq_some_iff.mp hb
    cases hb
    rw [List.map_cons, List.map_cons, ih hrows, key?, hd, Option.bind_some, hr]

theorem exists_key?_iff (h : done.mapM (row? o) = some rows) :
    (∃ record ∈ done, key? o record = some r) ↔ ∃ values, lastValues rows r = some values := by
  rw [exists_lastValues_iff, ← List.mem_map, map_key?_eq h]
  simp

theorem name_eq_none_iff (h : Reference.ofChars? cs = some r) : r.name = none ↔ r.family ≠ .timeConstant := by
  cases Reference.ofChars?_eq_some_iff.mp h with
  | constant => exact ⟨fun h => (nomatch h), fun h => absurd rfl h⟩
  | numbered hfits => exact iff_of_true rfl hfits.family_ne

/-! ### Faults of fields -/

theorem fieldReference_eq_ok_iff (h : Reference.ofChars? cs = some r → ((m.contains r && r.name.isNone) = true ↔ taken r)) :
    fieldReference m row cs = .ok r ↔ Reference.ofChars? cs = some r ∧ ¬ taken r := by
  unfold fieldReference Reference.parse
  rw [String.toList_ofList]
  cases hr : Reference.ofChars? cs with
  | none => simp
  | some r' =>
    dsimp only
    split
    · next htaken =>
      refine iff_of_false (fun h => nomatch h) fun ⟨hr', hfree⟩ => ?_
      obtain rfl := Option.some.inj hr'
      exact hfree ((h hr).mp htaken)
    · next hfree =>
      rw [Except.ok.injEq, Option.some.injEq]
      refine ⟨?_, And.left⟩
      rintro rfl
      exact ⟨rfl, fun htaken => hfree ((h hr).mpr htaken)⟩

theorem fieldReference_eq_error_iff
    (h : ∀ {r}, Reference.ofChars? cs = some r → ((m.contains r && r.name.isNone) = true ↔ taken r)) :
    fieldReference m row cs = .error fault ↔
      Reference.ofChars? cs = none ∧ fault = .field row 1 (.reference (.malformed (String.ofList cs))) ∨
        ∃ r, Reference.ofChars? cs = some r ∧ taken r ∧ fault = .field row 1 (.duplicate r) := by
  unfold fieldReference Reference.parse
  rw [String.toList_ofList]
  cases hr : Reference.ofChars? cs with
  | none => simp [eq_comm]
  | some r' =>
    have hr' := h hr
    dsimp only
    split
    · next htaken => simp [hr'.mp htaken, eq_comm]
    · next hfree =>
      have : ¬ taken r' := fun htaken => hfree (hr'.mpr htaken)
      simp [this]

theorem fieldValue_eq_error_iff :
    fieldValue row column cs = .error fault ↔ number? cs = none ∧ fault = .field row column (.notNumber (String.ofList cs)) := by
  unfold fieldValue number?
  split
  · simp
  · cases Decimal.read? cs <;> simp [eq_comm]

theorem fieldValues_eq_error_iff :
    fieldValues row column fields = .error fault ↔ ∃ front cs back, fields = front ++ cs :: back ∧
      (∀ field ∈ front, (number? field).isSome = true) ∧ number? cs = none ∧
        fault = .field row (front.length + column) (.notNumber (String.ofList cs)) := by
  induction fields generalizing column with
  | nil => simp [fieldValues]
  | cons cs fields ih =>
    have hrest (x : Float) : ((fieldValues row (column + 1) fields) >>= fun xs => pure (x :: xs)) = .error fault ↔
        fieldValues row (column + 1) fields = .error fault := by
      rw [bind_eq_error_iff]
      refine or_iff_left ?_
      rintro ⟨xs, -, h⟩
      cases h
    simp only [fieldValues, bind_eq_error_iff, hrest, fieldValue_eq_error_iff, fieldValue_eq_ok_iff]
    constructor
    · rintro (⟨hcs, rfl⟩ | ⟨x, hx, hfields⟩)
      · exact ⟨[], cs, fields, rfl, by simp, hcs, by rw [List.length_nil, Nat.zero_add]⟩
      · obtain ⟨front, cs', back, rfl, hfront, hcs', rfl⟩ := ih.mp hfields
        refine ⟨cs :: front, cs', back, rfl, List.forall_mem_cons.mpr ⟨Option.isSome_of_mem hx, hfront⟩, hcs', ?_⟩
        rw [List.length_cons, Nat.add_right_comm, Nat.add_assoc]
    · rintro ⟨front, cs', back, hsplit, hfront, hcs', rfl⟩
      cases front with
      | nil =>
        cases hsplit
        exact .inl ⟨hcs', by rw [List.length_nil, Nat.zero_add]⟩
      | cons field front =>
        cases hsplit
        obtain ⟨hx, hfront⟩ := List.forall_mem_cons.mp hfront
        obtain ⟨x, hx⟩ := Option.isSome_iff_exists.mp hx
        refine .inr ⟨x, hx, ih.mpr ⟨front, cs', back, rfl, hfront, hcs', ?_⟩⟩
        rw [List.length_cons, Nat.add_right_comm, Nat.add_assoc]

/-! ### One record -/

/-- The reader's test for duplicates: the map binds time constants from the start, but these are not tested. -/
theorem Bound.taken_iff (h : Bound o t done m) (hr : Reference.ofChars? cs = some r) :
    (m.contains r && r.name.isNone) = true ↔ Taken o done r := by
  obtain ⟨rows, hrows, hget⟩ := h.rows
  rw [Bool.and_eq_true, Option.isNone_iff_eq_none, name_eq_none_iff hr, and_comm, Taken, exists_key?_iff hrows]
  refine and_congr_right fun hfamily => ?_
  have hconstant : lastValues (constantRows t) r = none := by
    refine Option.eq_none_iff_forall_ne_some.mpr fun values hvalues => ?_
    obtain ⟨c, hc⟩ := lastValues_constantRows_eq_some_iff.mp hvalues
    exact hfamily (congrArg Reference.family (Prod.mk.inj hc).1).symm
  rw [SeriesMap.contains, hget, lastValues_append, hconstant, Option.or_none, Option.isSome_iff_exists]

theorem addRecord_eq (m : SeriesMap Float) (row : Nat) (fields : List (List Char)) :
    addRecord m row fields = fieldReference m row (fields.headD []) >>= fun r =>
      fieldValues row 2 fields.tail >>= fun values => (m.insert r values).mapError .length := by
  refine bind_congr fun r => bind_congr fun values => ?_
  cases m.insert r values <;> rfl

theorem Bound.addRecord_eq_error_iff (h : Bound o t done m) :
    addRecord m row fields = .error fault ↔ FieldsRefused t (Taken o done) row fields fault := by
  simp only [addRecord_eq, bind_eq_error_iff, mapError_eq_error_iff, SeriesMap.insert_eq_error_iff, h.periods,
    fieldReference_eq_error_iff h.taken_iff, fieldReference_eq_ok_iff h.taken_iff, fieldValues_eq_error_iff,
    fieldValues_eq_ok_iff]
  constructor
  · rintro ((⟨hr, rfl⟩ | ⟨r, hr, htaken, rfl⟩) | ⟨r, ⟨hr, hfree⟩, ⟨front, cs, back, hfields, hfront, hcs, rfl⟩ |
      ⟨values, hvalues, -, ⟨hl, rfl⟩, rfl⟩⟩)
    · exact .noReference hr
    · exact .duplicate hr htaken
    · exact .notNumber hr hfree hfields hfront hcs
    · exact .length hr hfree hvalues hl
  · rintro (hr | ⟨hr, htaken⟩ | ⟨hr, hfree, hfields, hfront, hcs⟩ | ⟨hr, hfree, hvalues, hl⟩)
    · exact .inl (.inl ⟨hr, rfl⟩)
    · exact .inl (.inr ⟨_, hr, htaken, rfl⟩)
    · exact .inr ⟨_, ⟨hr, hfree⟩, .inl ⟨_, _, _, hfields, hfront, hcs, rfl⟩⟩
    · exact .inr ⟨_, ⟨hr, hfree⟩, .inr ⟨_, hvalues, _, ⟨hl, rfl⟩, rfl⟩⟩

theorem Bound.binds (h : Bound o t done m) : ∃ rows, done.mapM (row? o) = some rows ∧ Binds t rows m := by
  obtain ⟨rows, hrows, hget⟩ := h.rows
  refine ⟨rows, hrows, fun h' => (SeriesMap.length_of_get? h').trans h.periods, fun h' => ?_, fun h' hc => ?_,
    fun h' hr => ?_⟩
  · rw [hget, lastValues_append, h', Option.some_or]
  · rw [hget, lastValues_append, h', Option.none_or]
    exact lastValues_constantRows_eq_some_iff.mpr ⟨_, hc⟩
  · rw [hget, lastValues_append, h', Option.none_or]
    refine Option.eq_none_iff_forall_ne_some.mpr fun values hvalues => ?_
    obtain ⟨c, hc⟩ := lastValues_constantRows_eq_some_iff.mp hvalues
    exact hr c (Prod.mk.inj hc).1.symm

/-! ### All records -/

theorem refusedAt_length_iff : RefusedAt o t first (done ++ record :: all) done.length fault ↔
    Refused o t done (first + done.length) record fault := by
  simp [RefusedAt]

theorem refused_iff (h : Bound o t done m) (hd : record.mapM (decode o) = some fields) :
    Refused o t done row record fault ↔ addRecord m row fields = .error fault := by
  rw [h.addRecord_eq_error_iff]
  constructor
  · rintro (hd' | ⟨hd', hrefused⟩)
    · cases hd'.symm.trans hd
    · obtain rfl := Option.some.inj (hd'.symm.trans hd)
      exact hrefused
  · exact .fields hd

theorem Bound.reads (h : Bound o t done m) (hdone : ∀ i < done.length, ∀ fault, ¬ RefusedAt o t first (done ++ all) i fault) :
    Reads o t first (done ++ all) (addRecords o m (first + done.length) all) := by
  -- The records that are left decide; positions and row numbers count from the first that is done.
  induction all generalizing done m with
  | nil =>
    rw [List.append_nil] at hdone ⊢
    refine ⟨fun i fault hrefused => ?_, h.binds⟩
    obtain ⟨record, hrecord, -⟩ := id hrefused
    exact hdone i (List.getElem?_eq_some_iff.mp hrecord).1 fault hrefused
  | cons record all ih =>
    rw [addRecords]
    cases hd : record.mapM (decode o) with
    | none => exact ⟨done.length, refusedAt_length_iff.mpr (.undecodable hd), hdone⟩
    | some fields =>
      dsimp only
      cases hm : addRecord m (first + done.length) fields with
      | error fault => exact ⟨done.length, refusedAt_length_iff.mpr ((refused_iff h hd).mpr hm), hdone⟩
      | ok m' =>
        have haccepted : ∀ fault, ¬ RefusedAt o t first (done ++ record :: all) done.length fault := fun fault hrefused => by
          have herror := (refused_iff h hd).mp (refusedAt_length_iff.mp hrefused)
          cases herror.symm.trans hm
        rw [List.append_cons] at hdone haccepted ⊢
        have hnext : ∀ i < (done ++ [record]).length, ∀ fault, ¬ RefusedAt o t first (done ++ [record] ++ all) i fault := by
          intro i hi
          rw [List.length_append, List.length_singleton] at hi
          rcases Nat.lt_succ_iff_lt_or_eq.mp hi with hi | rfl
          · exact hdone i hi
          · exact haccepted
        have hreads := ih (h.add hd hm) hnext
        rwa [List.length_append, List.length_singleton] at hreads

theorem reads_addRecords (o : ReadOptions) (t : Timeline) (first : Nat) (all : List (List (List UInt8))) :
    Reads o t first all (addRecords o (.ofTimeline t) first all) :=
  (Bound.ofTimeline o t).reads fun i hi => absurd hi i.not_lt_zero

/-- Reading a text binds its rows, or tells of the first record with a fault and of the first fault in it. -/
theorem reads_readInputs (o : ReadOptions) (t : Timeline) (bs : List UInt8) :
    Reads o t (firstRow o) (dataRecords o bs) (readInputs o t bs) :=
  readInputs_eq o t bs ▸ reads_addRecords o t (firstRow o) (dataRecords o bs)

/-- The second record names a reference that the first has taken, before its field that is no number. -/
example : (readInputs .standard (.consecutive ⟨24300⟩ 1) "V1,1\nV01,x\n".toUTF8.toList).map (fun _ => ()) =
    .error (.field 2 1 (.duplicate ⟨.input, [1], none, none⟩)) := by
  decide +kernel

/-! ### Rows that name the same reference -/

/-- Rows of an accepted text that name the same reference name a time constant. -/
theorem pairwise_rows (hall : ∀ i fault, ¬ RefusedAt o t first all i fault) (hrows : all.mapM (row? o) = some rows) :
    rows.Pairwise fun b b' => b.1 = b'.1 → b.1.family = .timeConstant := by
  refine List.pairwise_iff_getElem.mpr fun i j hi hj hij heq => by_contra fun hfamily => ?_
  have hkeys := map_key?_eq hrows
  have hkey (k : Nat) (hk : k < rows.length) : ∃ record, all[k]? = some record ∧ key? o record = some rows[k].1 := by
    have hk' := congrArg (·[k]?) hkeys
    simpa [List.getElem?_map, hk] using hk'
  obtain ⟨record, hrecord, hr⟩ := hkey i hi
  obtain ⟨record', hrecord', hr'⟩ := hkey j hj
  obtain ⟨fields, hd, hread⟩ := Option.bind_eq_some_iff.mp hr'
  have htaken : Taken o (all.take j) rows[j].1 := by
    refine ⟨heq ▸ hfamily, record, ?_, heq ▸ hr⟩
    exact List.mem_of_getElem? (i := i) (by rw [List.getElem?_take_of_lt hij, hrecord])
  exact hall j _ ⟨record', hrecord', .fields hd (.duplicate hread htaken)⟩

theorem lastValues_of_pairwise (h : rows.Pairwise fun b b' => b.1 = b'.1 → b.1.family = .timeConstant)
    {b : Reference × Series Float} (hb : b ∈ rows) (hfamily : b.1.family ≠ .timeConstant) :
    lastValues rows b.1 = some b.2 := by
  obtain ⟨front, back, rfl⟩ := List.append_of_mem hb
  have hback : lastValues back b.1 = none := by
    refine Option.eq_none_iff_forall_ne_some.mpr fun values hvalues => ?_
    obtain ⟨b', hb', heq⟩ := List.mem_map.mp (exists_lastValues_iff.mp ⟨values, hvalues⟩)
    exact hfamily ((List.pairwise_cons.mp (List.pairwise_append.mp h).2.1).1 b' hb' heq.symm)
  rw [List.append_cons, lastValues_append, hback, Option.none_or, lastValues_append, lastValues_singleton, if_pos rfl,
    Option.some_or]

/-- References of an accepted text are pairwise different, except that rows may name a time constant again. So no
    row is overwritten but one of a time constant that a later row names. -/
theorem named_once (h : readInputs o t bs = .ok m) :
    ∃ rows, rows? o bs = some rows ∧
      (rows.Pairwise fun b b' => b.1 = b'.1 → b.1.family = .timeConstant) ∧
      ((rows.map Prod.fst).Nodup ↔ ((rows.map Prod.fst).filter (·.family = .timeConstant)).Nodup) ∧
      ∀ b ∈ rows, b.1.family ≠ .timeConstant → m.get? b.1 = some b.2 := by
  have hreads := reads_addRecords o t (firstRow o) (dataRecords o bs)
  rw [← readInputs_eq, h] at hreads
  obtain ⟨hall, rows, hrows, hbinds⟩ := hreads
  have hpairwise := pairwise_rows hall hrows
  refine ⟨rows, hrows, hpairwise, ⟨fun hnd => hnd.filter _, fun hnd => ?_⟩,
    fun b hb hfamily => hbinds.named (lastValues_of_pairwise hpairwise hb hfamily)⟩
  rw [List.Nodup, List.pairwise_filter] at hnd
  rw [List.Nodup, List.pairwise_map] at *
  refine hpairwise.imp₂ (fun b b' hfamily hne heq => ?_) hnd
  have hconstant := hfamily heq
  exact hne (decide_eq_true hconstant) (decide_eq_true (heq ▸ hconstant)) heq

/-- A file with two rows for the days in a month, of which the reader keeps the second. -/
def twice : List UInt8 :=
  "T.DiM,1\nT.DiM,2\n".toUTF8.toList

theorem named_once_twice : ∃ m, readInputs .standard (.consecutive ⟨24300⟩ 1) twice = .ok m ∧
    ∃ rows, rows? .standard twice = some rows ∧
      (rows.Pairwise fun b b' => b.1 = b'.1 → b.1.family = .timeConstant) ∧
      ((rows.map Prod.fst).Nodup ↔ ((rows.map Prod.fst).filter (·.family = .timeConstant)).Nodup) ∧
      ∀ b ∈ rows, b.1.family ≠ .timeConstant → m.get? b.1 = some b.2 := by
  have hread : (readInputs .standard (.consecutive ⟨24300⟩ 1) twice).toOption.isSome = true := by decide +kernel
  cases h : readInputs .standard (.consecutive ⟨24300⟩ 1) twice with
  | error fault => cases h ▸ hread
  | ok m => exact ⟨m, rfl, named_once h⟩

theorem not_named_once : ∃ m rows, readInputs .standard (.consecutive ⟨24300⟩ 1) twice = .ok m ∧
    rows? .standard twice = some rows ∧ ¬ (rows.map Prod.fst).Nodup ∧ ∃ b ∈ rows, m.get? b.1 ≠ some b.2 := by
  have hread : (readInputs .standard (.consecutive ⟨24300⟩ 1) twice).toOption.bind (·.get? (.timeConstant "DiM")) =
      some [2] := by decide +kernel
  have hrows : rows? .standard twice = some [(.timeConstant "DiM", [1]), (.timeConstant "DiM", [2])] := by decide +kernel
  cases h : readInputs .standard (.consecutive ⟨24300⟩ 1) twice with
  | error fault => cases h ▸ hread
  | ok m =>
    have hget : m.get? (.timeConstant "DiM") = some [2] := by
      rw [h] at hread
      exact hread
    refine ⟨m, _, rfl, hrows, by decide, _, List.mem_cons_self, ?_⟩
    rw [hget]
    decide +kernel

end MonthlyModel.Csv
