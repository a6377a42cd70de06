import Cberl.Nifpp.Conversion

/-!
# Which terms the conversions accept

The documented reading of a request term: an integer of the field's range, a
binary or a flat list of Latin-1 codes, one of the two boolean atoms.  The
conversions of `nifpp.h` accept exactly the terms with such a reading, except
that `get(bool)` compares with `strcmp` and so takes the five-character atom
`'true\0'` for `true`.  `mendBool` replaces that atom; the exactness theorems
say that a conversion reads a term as the mended term denotes.
-/

namespace Cberl

open Cberl.Support

/-- The documented relation between a field's value and the term that
carries it. -/
def FieldType.Denotes : (field : FieldType) → field.Val → Term → Prop
  | integer _, v, t => t = .int v.val
  | string, bytes, t => t = .binary bytes ∨ t = .list (bytes.map codeTerm)
  | bool, b, t => t = boolAtom b

def RowDenotes : (fields : List FieldType) → RawTuple fields →
    List Term → Prop
  | [], _, ts => ts = []
  | field :: fields, (v, row), ts =>
      ∃ t rest, ts = t :: rest ∧ field.Denotes v t ∧ RowDenotes fields row rest

/-- `t` is a tuple of the right arity that carries the fields of `row`. -/
def TupleDenotes (fields : List FieldType) (row : RawTuple fields)
    (t : Term) : Prop :=
  ∃ elements, t = .tuple elements ∧ RowDenotes fields row elements

/-- `t` is a proper list of tuples that carries `rows` element by element. -/
def BatchDenotes (fields : List FieldType) (rows : List (RawTuple fields))
    (t : Term) : Prop :=
  ∃ tuples, t = .list tuples ∧ List.Forall₂ (TupleDenotes fields) rows tuples

/-! ## The one atom `strcmp` cannot tell from `true` -/

def mendBool : Term → Term
  | .atom "true\x00" => .atom "true"
  | t => t

def mendTuple : Term → Term
  | .tuple elements => .tuple (elements.map mendBool)
  | t => t

def mendBatch (t : Term) : Term :=
  match t.asList with
  | some tuples => .list (tuples.map mendTuple)
  | none => t

theorem mendBool_eq_int {t : Term} {z : ℤ} :
    mendBool t = .int z ↔ t = .int z := by
  unfold mendBool
  split <;> simp

theorem mendBool_eq_binary {t : Term} {bytes : Bytes} :
    mendBool t = .binary bytes ↔ t = .binary bytes := by
  unfold mendBool
  split <;> simp

theorem mendBool_eq_list {t : Term} {elements : List Term} :
    mendBool t = .list elements ↔ t = .list elements := by
  unfold mendBool
  split <;> cases elements <;> simp [Term.list]

theorem mendBool_eq_boolAtom {t : Term} {b : Bool} :
    mendBool t = boolAtom b ↔
      t = boolAtom b ∨ (t = .atom "true\x00" ∧ b = true) := by
  unfold mendBool boolAtom
  split
  next => cases b <;> simp
  next hother =>
    rw [or_iff_left]
    rintro ⟨rfl, -⟩
    exact hother rfl

/-! ## Documented readings survive mending -/

theorem FieldType.Denotes.mend {field : FieldType} {v : field.Val} {t : Term}
    (h : field.Denotes v t) : field.Denotes v (mendBool t) := by
  cases field with
  | integer w => exact mendBool_eq_int.mpr h
  | string => exact h.imp mendBool_eq_binary.mpr mendBool_eq_list.mpr
  | bool => exact mendBool_eq_boolAtom.mpr (Or.inl h)

theorem RowDenotes.mend {fields : List FieldType} {row : RawTuple fields}
    {ts : List Term} (h : RowDenotes fields row ts) :
    RowDenotes fields row (ts.map mendBool) := by
  induction fields generalizing ts with
  | nil =>
      rw [RowDenotes] at h
      rw [h]
      rfl
  | cons field fields ih =>
      obtain ⟨t, rest, rfl, hfield, hrest⟩ := h
      exact ⟨_, _, rfl, hfield.mend, ih hrest⟩

theorem TupleDenotes.mend {fields : List FieldType} {row : RawTuple fields}
    {t : Term} (h : TupleDenotes fields row t) :
    TupleDenotes fields row (mendTuple t) := by
  obtain ⟨elements, rfl, helements⟩ := h
  exact ⟨_, rfl, helements.mend⟩

theorem BatchDenotes.mend {fields : List FieldType}
    {rows : List (RawTuple fields)} {t : Term}
    (h : BatchDenotes fields rows t) :
    BatchDenotes fields rows (mendBatch t) := by
  obtain ⟨tuples, rfl, htuples⟩ := h
  refine ⟨tuples.map mendTuple, by simp [mendBatch], ?_⟩
  rw [List.forall₂_map_right_iff]
  exact htuples.imp fun _ _ htuple => htuple.mend

/-! ## Exactness -/

theorem FieldType.get_eq_some_iff
    (field : FieldType) {t : Term} {v : field.Val} :
    field.get t = some v ↔ field.Denotes v (mendBool t) := by
  cases field with
  | integer w =>
      rw [FieldType.get, FieldType.Denotes, getInteger_eq_some_iff,
        mendBool_eq_int]
  | string =>
      rw [FieldType.get, FieldType.Denotes, getString_eq_some_iff,
        mendBool_eq_binary, mendBool_eq_list]
  | bool =>
      rw [FieldType.get, FieldType.Denotes, getBool_eq_some_iff,
        mendBool_eq_boolAtom]

theorem RowDenotes.length_eq {fields : List FieldType}
    {row : RawTuple fields} {ts : List Term}
    (h : RowDenotes fields row ts) : ts.length = fields.length := by
  induction fields generalizing ts with
  | nil =>
      rw [RowDenotes] at h
      rw [h]
      rfl
  | cons field fields ih =>
      obtain ⟨t, rest, rfl, -, hrest⟩ := h
      rw [List.length_cons, ih hrest, List.length_cons]

theorem arrayToTupler_eq_some_iff
    (fields : List FieldType) {ts : List Term} {row : RawTuple fields}
    (hlength : ts.length = fields.length) :
    arrayToTupler fields ts = some row ↔
      RowDenotes fields row (ts.map mendBool) := by
  induction fields generalizing ts with
  | nil =>
      obtain rfl := List.length_eq_zero_iff.mp hlength
      simp [arrayToTupler, RowDenotes]
  | cons field fields ih =>
      obtain ⟨t, rest, rfl⟩ := List.exists_cons_of_length_eq_add_one hlength
      obtain ⟨v, row⟩ := row
      have hrest := @ih rest row (by simpa using hlength)
      rw [List.map_cons, RowDenotes, arrayToTupler]
      constructor
      · intro h
        cases hv : field.get t with
        | none => simp [hv] at h
        | some v' =>
            cases hr : arrayToTupler fields rest with
            | none => simp [hv, hr] at h
            | some row' =>
                simp only [hv, hr, Option.some.injEq, Prod.mk.injEq] at h
                obtain ⟨rfl, rfl⟩ := h
                exact ⟨_, _, rfl, field.get_eq_some_iff.mp hv, hrest.mp hr⟩
      · rintro ⟨t', rest', heq, hv, hr⟩
        obtain ⟨rfl, rfl⟩ := List.cons.inj heq
        rw [field.get_eq_some_iff.mpr hv, hrest.mpr hr]

theorem getTuple_eq_some_iff
    (fields : List FieldType) {t : Term} {row : RawTuple fields} :
    getTuple fields t = some row ↔ TupleDenotes fields row (mendTuple t) := by
  cases t with
  | tuple elements =>
      simp only [getTuple, mendTuple, TupleDenotes, Term.tuple.injEq,
        exists_eq_left']
      by_cases hlength : elements.length = fields.length
      · rw [if_pos hlength, arrayToTupler_eq_some_iff fields hlength]
      · rw [if_neg hlength]
        have hno : ¬ RowDenotes fields row (elements.map mendBool) := by
          intro h
          exact hlength (by simpa using h.length_eq)
        simp [hno]
  | _ => simp [getTuple, mendTuple, TupleDenotes]

theorem getVector_eq_some_iff
    (fields : List FieldType) {t : Term} {rows : List (RawTuple fields)} :
    getVector fields t = some rows ↔
      BatchDenotes fields rows (mendBatch t) := by
  unfold getVector mendBatch BatchDenotes
  cases hlist : t.asList with
  | some tuples =>
      simp only [Term.list_inj, exists_eq_left']
      rw [List.forall₂_map_right_iff]
      exact mapM_option_eq_some_iff fun _ _ => getTuple_eq_some_iff fields
  | none =>
      have hno : ∀ tuples, t ≠ .list tuples := by
        rintro tuples rfl
        simp at hlist
      simp [hno]

theorem getVector_map_eq_some_iff
    {fields : List FieldType} {β : Type} {f : List (RawTuple fields) → β}
    {t : Term} {b : β} :
    (getVector fields t).map f = some b ↔
      ∃ rows, BatchDenotes fields rows (mendBatch t) ∧ b = f rows := by
  rw [Option.map_eq_some_iff]
  exact exists_congr fun rows =>
    and_congr (getVector_eq_some_iff fields) eq_comm

theorem getTuple_map_eq_some_iff
    {fields : List FieldType} {β : Type} {f : RawTuple fields → β}
    {t : Term} {b : β} :
    (getTuple fields t).map f = some b ↔
      ∃ row, TupleDenotes fields row (mendTuple t) ∧ b = f row := by
  rw [Option.map_eq_some_iff]
  exact exists_congr fun row =>
    and_congr (getTuple_eq_some_iff fields) eq_comm

end Cberl
