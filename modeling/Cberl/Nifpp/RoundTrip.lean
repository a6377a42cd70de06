import Cberl.Connection.Strings

/-!
# Conversions there and back

`nifpp.h` has a pair of functions `get` and `make` for the C++ types of requests
and responses, those for tuples and vectors built from those for their elements.
The two are not inverse to each other: `get` takes a string from a list of codes
as well, and `make` cuts an atom at its first null.  On the terms that `make`
returns for values without such atoms they are.
-/

namespace Cberl.Nifpp

open Cberl Cberl.Support

/-! ## Types and values -/

mutual

/-- Integers, strings, atoms, booleans and terms, and the tuples and vectors of
such types. -/
inductive CppType where
  | integer (w : IntType)
  | string
  | strAtom
  | bool
  | term
  | tuple (fields : CppTypes)
  | vector (element : CppType)

inductive CppTypes where
  | nil
  | cons (field : CppType) (fields : CppTypes)

end

mutual

@[reducible] def CppType.Val : CppType → Type
  | .integer w => w.Val
  | .string => Bytes
  | .strAtom => Bytes
  | .bool => Bool
  | .term => Term
  | .tuple fields => fields.Val
  | .vector element => List element.Val

@[reducible] def CppTypes.Val : CppTypes → Type
  | .nil => Unit
  | .cons field fields => field.Val × fields.Val

end

def CppTypes.length : CppTypes → ℕ
  | .nil => 0
  | .cons _ fields => fields.length + 1

/-! ## Atoms -/

/-- The name whose Latin-1 codes are the bytes. -/
def latin1Name (bytes : Bytes) : String :=
  String.ofList (bytes.map fun byte => Char.ofNat byte.toNat)

def latin1Bytes (name : String) : Bytes :=
  name.toList.map fun c => UInt8.ofNat c.toNat

/-- `enif_make_atom` raises `badarg` when the name is too long for an atom. -/
def enifMakeAtom (name : Bytes) : Option Term :=
  if name.length ≤ 255 then some (.atom (latin1Name name)) else none

/-! ## The overloads -/

mutual

def CppType.get : (T : CppType) → Term → Option T.Val
  | .integer w, t => getInteger w t
  | .string, t => getString t
  | .strAtom, t => (getStrAtom t).map latin1Bytes
  | .bool, t => getBool t
  | .term, t => some t
  | .tuple fields, .tuple elements =>
      if elements.length = fields.length then fields.get elements else none
  | .tuple _, _ => none
  | .vector element, t =>
      match t.asList with
      | some elements => elements.mapM element.get
      | none => none

/-- `array_to_tupler` -/
def CppTypes.get : (Ts : CppTypes) → List Term → Option Ts.Val
  | .nil, _ => some ()
  | .cons _ _, [] => none
  | .cons field fields, t :: ts =>
      match field.get t with
      | none => none
      | some v => (fields.get ts).map fun vs => (v, vs)

end

mutual

/-- There is none when `enif_make_atom` fails. -/
def CppType.make : (T : CppType) → T.Val → Option Term
  | .integer _, v => some (.int v.val)
  | .string, bytes => some (.binary bytes)
  | .strAtom, name => enifMakeAtom (cStr name)
  | .bool, b => some (boolAtom b)
  | .term, t => some t
  | .tuple fields, v => (fields.make v).map .tuple
  | .vector element, vs => (vs.mapM element.make).map .list

/-- `tuple_to_arrayer` -/
def CppTypes.make : (Ts : CppTypes) → Ts.Val → Option (List Term)
  | .nil, _ => some []
  | .cons field fields, (v, vs) =>
      match field.make v with
      | none => none
      | some t => (fields.make vs).map (t :: ·)

end

/-! ## Plain values and canonical terms -/

mutual

/-- No atom in the value contains a null or is too long. -/
def CppType.Plain : (T : CppType) → T.Val → Prop
  | .strAtom, name => 0 ∉ name ∧ name.length ≤ 255
  | .tuple fields, v => fields.Plain v
  | .vector element, vs => ∀ v ∈ vs, element.Plain v
  | _, _ => True

def CppTypes.Plain : (Ts : CppTypes) → Ts.Val → Prop
  | .nil, _ => True
  | .cons field fields, (v, vs) => field.Plain v ∧ fields.Plain vs

end

mutual

/-- The way in which the library writes the values of the type. -/
def CppType.Canonical : CppType → Term → Prop
  | .integer w, t => ∃ v : w.Val, t = .int v.val
  | .string, t => ∃ bytes, t = .binary bytes
  | .strAtom, t =>
      ∃ name, (0 ∉ name ∧ name.length ≤ 255) ∧ t = .atom (latin1Name name)
  | .bool, t => ∃ b, t = boolAtom b
  | .term, _ => True
  | .tuple fields, t =>
      ∃ elements, t = .tuple elements ∧ fields.Canonical elements
  | .vector element, t =>
      ∃ elements, t = .list elements ∧ ∀ t ∈ elements, element.Canonical t

def CppTypes.Canonical : CppTypes → List Term → Prop
  | .nil, ts => ts = []
  | .cons field fields, ts =>
      ∃ t rest, ts = t :: rest ∧ field.Canonical t ∧ fields.Canonical rest

end

/-! ## Atoms there and back -/

theorem toNat_ofNat_byte (byte : UInt8) :
    (Char.ofNat byte.toNat).toNat = byte.toNat := by
  have hbound := byte.toNat_lt
  have hvalid : byte.toNat.isValidChar := by
    left
    omega
  rw [Char.ofNat, dif_pos hvalid]
  rfl

theorem latin1Bytes_latin1Name (bytes : Bytes) :
    latin1Bytes (latin1Name bytes) = bytes := by
  rw [latin1Bytes, latin1Name, String.toList_ofList, List.map_map]
  conv_rhs => rw [← List.map_id bytes]
  apply List.map_congr_left
  intro byte _
  simp [toNat_ofNat_byte]

theorem latin1_latin1Name (bytes : Bytes) :
    (latin1Name bytes).toList.all (·.toNat ≤ 255) = true := by
  simp only [latin1Name, String.toList_ofList, List.all_map, List.all_eq_true,
    Function.comp_apply, decide_eq_true_eq, toNat_ofNat_byte]
  intro byte _
  have hbound := byte.toNat_lt
  omega

theorem get_strAtom_atom (name : Bytes) :
    CppType.strAtom.get (.atom (latin1Name name)) = some name := by
  have hget : getStrAtom (.atom (latin1Name name)) = some (latin1Name name) :=
    getStrAtom_eq_some_iff.mpr ⟨rfl, latin1_latin1Name name⟩
  rw [CppType.get, hget, Option.map_some, latin1Bytes_latin1Name]

theorem make_strAtom_eq_some_iff {name : Bytes} {t : Term} :
    CppType.strAtom.make name = some t ↔
      (cStr name).length ≤ 255 ∧ t = .atom (latin1Name (cStr name)) := by
  rw [CppType.make, enifMakeAtom, Option.ite_none_right_eq_some, Option.some_inj,
    eq_comm (a := t)]

/-! ## Values there and back -/

theorem CppTypes.length_make (Ts : CppTypes) {vs : Ts.Val} {ts : List Term}
    (h : Ts.make vs = some ts) : ts.length = Ts.length := by
  cases Ts with
  | nil =>
      obtain rfl := Option.some.inj h
      rfl
  | cons field fields =>
      obtain ⟨v, vs⟩ := vs
      rw [CppTypes.make] at h
      split at h
      next => cases h
      next t ht =>
        obtain ⟨rest, hrest, rfl⟩ := Option.map_eq_some_iff.mp h
        rw [List.length_cons, fields.length_make hrest, CppTypes.length]

theorem get_make_strAtom_iff {name : Bytes} :
    (CppType.strAtom.make name).bind CppType.strAtom.get = some name ↔
      CppType.strAtom.Plain name := by
  simp only [Option.bind_eq_some_iff, make_strAtom_eq_some_iff, CppType.Plain]
  constructor
  · rintro ⟨t, ⟨hlength, rfl⟩, hget⟩
    rw [get_strAtom_atom, Option.some.injEq] at hget
    rw [hget] at hlength
    exact ⟨cStr_eq_self_iff.mp hget, hlength⟩
  · rintro ⟨hzero, hlength⟩
    have hname := cStr_eq_self_iff.mpr hzero
    exact ⟨_, ⟨hname.symm ▸ hlength, rfl⟩, by rw [hname, get_strAtom_atom]⟩

mutual

/-- `get` finds what `make` has written exactly when the value is plain. -/
theorem CppType.get_make_iff (T : CppType) (v : T.Val) :
    (T.make v).bind T.get = some v ↔ T.Plain v := by
  cases T with
  | integer w =>
      simp [CppType.make, CppType.get, CppType.Plain, getInteger_eq_some_iff]
  | string => exact iff_of_true (getString_eq_some_iff.mpr (Or.inl rfl)) trivial
  | strAtom => exact get_make_strAtom_iff
  | bool => exact iff_of_true (getBool_eq_some_iff.mpr (Or.inl rfl)) trivial
  | term => simp [CppType.make, CppType.get, CppType.Plain]
  | tuple fields =>
      rw [CppType.Plain, ← fields.get_make_iff v, CppType.make]
      cases hmake : fields.make v with
      | none => simp
      | some ts => simp [CppType.get, fields.length_make hmake]
  | vector element =>
      have heach : ∀ v, (element.make v).bind element.get = some v ↔
          element.Plain v := element.get_make_iff
      simp only [CppType.Plain, ← heach, ← mapM_bind_mapM_eq_some_iff,
        CppType.make]
      cases v.mapM element.make <;> simp [CppType.get]

theorem CppTypes.get_make_iff (Ts : CppTypes) (vs : Ts.Val) :
    (Ts.make vs).bind Ts.get = some vs ↔ Ts.Plain vs := by
  cases Ts with
  | nil => simp [CppTypes.make, CppTypes.get, CppTypes.Plain]
  | cons field fields =>
      obtain ⟨v, vs⟩ := vs
      rw [CppTypes.Plain, ← field.get_make_iff v, ← fields.get_make_iff vs,
        CppTypes.make]
      cases field.make v with
      | none => simp
      | some t =>
          cases fields.make vs with
          | none => simp
          | some ts =>
              simp only [Option.map_some, Option.bind_some, CppTypes.get]
              cases field.get t <;> simp [Prod.ext_iff, and_comm]

end

/-! ## Terms there and back -/

theorem CppTypes.Canonical.length_eq {Ts : CppTypes} {ts : List Term}
    (h : Ts.Canonical ts) : ts.length = Ts.length := by
  cases Ts with
  | nil =>
      rw [CppTypes.Canonical] at h
      rw [h]
      rfl
  | cons field fields =>
      rw [CppTypes.Canonical] at h
      obtain ⟨t, rest, rfl, -, hrest⟩ := h
      rw [List.length_cons, hrest.length_eq, CppTypes.length]

theorem make_get_strAtom_iff {t : Term} :
    (CppType.strAtom.get t).bind CppType.strAtom.make = some t ↔
      CppType.strAtom.Canonical t := by
  rw [CppType.Canonical, Option.bind_eq_some_iff]
  constructor
  · rintro ⟨name, hget, hmake⟩
    obtain ⟨hlength, ht⟩ := make_strAtom_eq_some_iff.mp hmake
    rw [ht, get_strAtom_atom, Option.some.injEq] at hget
    rw [hget] at hlength ht
    exact ⟨name, ⟨cStr_eq_self_iff.mp hget, hlength⟩, ht⟩
  · rintro ⟨name, ⟨hzero, hlength⟩, rfl⟩
    have hname := cStr_eq_self_iff.mpr hzero
    refine ⟨name, get_strAtom_atom name, ?_⟩
    rw [make_strAtom_eq_some_iff, hname]
    exact ⟨hlength, rfl⟩

mutual

/-- `make` writes back what `get` has read exactly when the term is
canonical. -/
theorem CppType.make_get_iff (T : CppType) (t : Term) :
    (T.get t).bind T.make = some t ↔ T.Canonical t := by
  cases T with
  | integer w =>
      simp only [CppType.get, CppType.Canonical, Option.bind_eq_some_iff,
        getInteger_eq_some_iff, CppType.make]
      constructor
      · rintro ⟨v, ht, -⟩
        exact ⟨v, ht⟩
      · rintro ⟨v, rfl⟩
        exact ⟨v, rfl, rfl⟩
  | string =>
      simp only [CppType.get, CppType.Canonical, Option.bind_eq_some_iff,
        getString_eq_some_iff, CppType.make]
      constructor
      · rintro ⟨bytes, -, ht⟩
        exact ⟨bytes, (Option.some.inj ht).symm⟩
      · rintro ⟨bytes, rfl⟩
        exact ⟨bytes, .inl rfl, rfl⟩
  | strAtom => exact make_get_strAtom_iff
  | bool =>
      simp only [CppType.get, CppType.Canonical, Option.bind_eq_some_iff,
        getBool_eq_some_iff, CppType.make]
      constructor
      · rintro ⟨b, -, ht⟩
        exact ⟨b, (Option.some.inj ht).symm⟩
      · rintro ⟨b, rfl⟩
        exact ⟨b, .inl rfl, rfl⟩
  | term => simp [CppType.get, CppType.make, CppType.Canonical]
  | tuple fields =>
      rw [CppType.Canonical]
      cases t with
      | tuple elements =>
          simp only [CppType.get, Term.tuple.injEq, exists_eq_left']
          by_cases hlength : elements.length = fields.length
          · rw [if_pos hlength, ← fields.make_get_iff hlength]
            cases fields.get elements <;> simp [CppType.make]
          · rw [if_neg hlength]
            have hno : ¬ fields.Canonical elements := fun h =>
              hlength h.length_eq
            simp [hno]
      | _ => simp [CppType.get]
  | vector element =>
      have heach : ∀ t, (element.get t).bind element.make = some t ↔
          element.Canonical t := element.make_get_iff
      simp only [CppType.get, CppType.Canonical]
      cases hlist : t.asList with
      | none =>
          have hno : ∀ elements, t ≠ .list elements := by
            rintro elements rfl
            simp at hlist
          simp [hno]
      | some elements =>
          rw [Term.asList_eq_some_iff] at hlist
          subst hlist
          simp only [Term.list_inj, exists_eq_left', ← heach,
            ← mapM_bind_mapM_eq_some_iff]
          cases elements.mapM element.get <;> simp [CppType.make]

theorem CppTypes.make_get_iff (Ts : CppTypes) {ts : List Term}
    (hlength : ts.length = Ts.length) :
    (Ts.get ts).bind Ts.make = some ts ↔ Ts.Canonical ts := by
  cases Ts with
  | nil =>
      obtain rfl := List.length_eq_zero_iff.mp hlength
      simp [CppTypes.make, CppTypes.get, CppTypes.Canonical]
  | cons field fields =>
      obtain ⟨t, rest, rfl⟩ := List.exists_cons_of_length_eq_add_one hlength
      have hrest : (fields.get rest).bind fields.make = some rest ↔
          fields.Canonical rest :=
        fields.make_get_iff (Nat.succ.inj hlength)
      have hcons : CppTypes.Canonical (.cons field fields) (t :: rest) ↔
          field.Canonical t ∧ fields.Canonical rest := by
        simp [CppTypes.Canonical]
      rw [hcons, ← field.make_get_iff t, ← hrest, CppTypes.get]
      cases field.get t with
      | none => simp
      | some v =>
          cases fields.get rest with
          | none => simp
          | some vs =>
              simp only [Option.map_some, Option.bind_some, CppTypes.make]
              cases field.make v <;> simp [and_comm]

end

/-- The canonical term of a plain value, and the plain value of a canonical
term. -/
theorem CppType.plain_make_iff (T : CppType) (v : T.Val) (t : Term) :
    T.Plain v ∧ T.make v = some t ↔ T.Canonical t ∧ T.get t = some v := by
  constructor
  · rintro ⟨hplain, hmake⟩
    have hback := (T.get_make_iff v).mpr hplain
    rw [hmake, Option.bind_some] at hback
    refine ⟨(T.make_get_iff t).mp ?_, hback⟩
    rw [hback, Option.bind_some, hmake]
  · rintro ⟨hcanonical, hget⟩
    have hback := (T.make_get_iff t).mpr hcanonical
    rw [hget, Option.bind_some] at hback
    refine ⟨(T.get_make_iff v).mp ?_, hback⟩
    rw [hback, Option.bind_some, hget]

/-! ## What the NIFs convert -/

@[reducible] def fieldType : FieldType → CppType
  | .integer w => .integer w
  | .string => .string
  | .bool => .bool

@[reducible] def rowTypes : List FieldType → CppTypes
  | [] => .nil
  | field :: fields => .cons (fieldType field) (rowTypes fields)

def fieldOf : (field : FieldType) → (fieldType field).Val → field.Val
  | .integer _, v => v
  | .string, bytes => bytes
  | .bool, b => b

def rowOf : (fields : List FieldType) → (rowTypes fields).Val → RawTuple fields
  | [], _ => ()
  | field :: fields, (v, row) => (fieldOf field v, rowOf fields row)

theorem length_rowTypes (fields : List FieldType) :
    (rowTypes fields).length = fields.length := by
  induction fields with
  | nil => rfl
  | cons field fields ih => rw [rowTypes, CppTypes.length, ih, List.length_cons]

theorem fieldType_get (field : FieldType) (t : Term) :
    field.get t = ((fieldType field).get t).map (fieldOf field) := by
  cases field with
  | integer w => exact (congrFun Option.map_id _).symm
  | string => exact (congrFun Option.map_id _).symm
  | bool => exact (congrFun Option.map_id _).symm

theorem rowTypes_get (fields : List FieldType) (ts : List Term) :
    arrayToTupler fields ts = ((rowTypes fields).get ts).map (rowOf fields) := by
  induction fields generalizing ts with
  | nil => rfl
  | cons field fields ih =>
      cases ts with
      | nil => rfl
      | cons t ts =>
          have hget : (rowTypes (field :: fields)).get (t :: ts) =
              (CppTypes.cons (fieldType field) (rowTypes fields)).get (t :: ts) := rfl
          rw [hget, CppTypes.get, arrayToTupler, ih, fieldType_get]
          cases (fieldType field).get t with
          | none => rfl
          | some v => cases (rowTypes fields).get ts <;> rfl

theorem getTuple_eq_get (fields : List FieldType) (t : Term) :
    getTuple fields t =
      ((CppType.tuple (rowTypes fields)).get t).map (rowOf fields) := by
  cases t with
  | tuple elements =>
      rw [getTuple, CppType.get, length_rowTypes, rowTypes_get]
      split <;> rfl
  | _ => simp [getTuple, CppType.get]

/-- The requests of a batch are read by the overload for their vector type. -/
theorem getVector_eq_get (fields : List FieldType) (t : Term) :
    getVector fields t =
      ((CppType.vector (.tuple (rowTypes fields))).get t).map
        (List.map (rowOf fields)) := by
  rw [getVector, CppType.get]
  cases t.asList with
  | none => rfl
  | some elements =>
      simp only [funext (getTuple_eq_get fields)]
      induction elements with
      | nil => rfl
      | cons t ts ih =>
          rw [List.mapM_cons, List.mapM_cons, ih]
          cases (CppType.tuple (rowTypes fields)).get t with
          | none => rfl
          | some v => cases ts.mapM (CppType.tuple (rowTypes fields)).get <;> rfl

theorem fieldOf_injective (field : FieldType) :
    Function.Injective (fieldOf field) := by
  cases field <;> exact fun _ _ h => h

theorem rowOf_injective (fields : List FieldType) :
    Function.Injective (rowOf fields) := by
  induction fields with
  | nil => exact fun _ _ _ => rfl
  | cons field fields ih =>
      rintro ⟨v, row⟩ ⟨v', row'⟩ h
      obtain ⟨hv, hrow⟩ := Prod.mk.inj h
      exact Prod.ext (fieldOf_injective field hv) (ih hrow)

/-- No request holds an atom that `make` would change. -/
theorem rowTypes_plain (fields : List FieldType) (row : (rowTypes fields).Val) :
    (rowTypes fields).Plain row := by
  induction fields with
  | nil => trivial
  | cons field fields ih => exact ⟨by cases field <;> trivial, ih row.2⟩

/-- Among the terms that a NIF takes for the same requests exactly one is
canonical. -/
theorem existsUnique_canonical_batch {fields : List FieldType} {t : Term}
    {rows : List (RawTuple fields)} (h : getVector fields t = some rows) :
    ∃! t', (CppType.vector (.tuple (rowTypes fields))).Canonical t' ∧
      getVector fields t' = some rows := by
  let T := CppType.vector (.tuple (rowTypes fields))
  have hinjective := List.map_injective_iff.mpr (rowOf_injective fields)
  rw [getVector_eq_get, Option.map_eq_some_iff] at h
  obtain ⟨v, -, hrows⟩ := h
  have hplain : T.Plain v := fun row _ => rowTypes_plain fields row
  obtain ⟨t', hmake, -⟩ :=
    Option.bind_eq_some_iff.mp ((T.get_make_iff v).mpr hplain)
  have hget : ∀ t'', getVector fields t'' = some rows ↔ T.get t'' = some v := by
    intro t''
    rw [getVector_eq_get, ← hrows, ← Option.map_some]
    exact (Option.map_injective hinjective).eq_iff
  refine ⟨t', ?_, ?_⟩
  · obtain ⟨hcanonical, hread⟩ := (T.plain_make_iff v t').mp ⟨hplain, hmake⟩
    exact ⟨hcanonical, (hget t').mpr hread⟩
  · rintro t'' ⟨hcanonical, hread⟩
    have hwrite := (T.plain_make_iff v t'').mpr ⟨hcanonical, (hget t'').mp hread⟩
    exact Option.some.inj (hwrite.2.symm.trans hmake)

/-- Plain values and canonical terms correspond to each other, and nothing else
survives the way there and back.  So a batch of requests has one canonical term
among all those that the NIFs take for it. -/
theorem plain_canonical_correspond :
    (∀ T : CppType,
      (∀ v, (T.make v).bind T.get = some v ↔ T.Plain v) ∧
      (∀ t, (T.get t).bind T.make = some t ↔ T.Canonical t) ∧
      (∀ v t,
        T.Plain v ∧ T.make v = some t ↔ T.Canonical t ∧ T.get t = some v)) ∧
    ∀ (fields : List FieldType) (t : Term) (rows : List (RawTuple fields)),
      getVector fields t = some rows →
      ∃! t', (CppType.vector (.tuple (rowTypes fields))).Canonical t' ∧
        getVector fields t' = some rows :=
  ⟨fun T => ⟨T.get_make_iff, T.make_get_iff, T.plain_make_iff⟩,
    fun _ _ _ => existsUnique_canonical_batch⟩

end Cberl.Nifpp
