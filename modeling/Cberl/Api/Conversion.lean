import Cberl.Api.Functions

/-!
# What the NIF makes of an API request

The tuple built from an API request has the layout its NIF expects, so whether
it converts depends on its integers alone, and for a store on the value its
encoder produced.
-/

namespace Cberl

@[simp] theorem getBool_boolAtom (b : Bool) : getBool (boolAtom b) = some b :=
  getBool_eq_some_iff.mpr (Or.inl rfl)

@[simp] theorem getString_binary (bytes : Bytes) :
    getString (.binary bytes) = some bytes :=
  getString_eq_some_iff.mpr (Or.inl rfl)

theorem getInteger_of_contains {w : IntType} {z : ℤ} (h : w.Contains z) :
    getInteger w (.int z) = some ⟨z, h⟩ :=
  dif_pos h

theorem getInteger_of_not_contains {w : IntType} {z : ℤ}
    (h : ¬ w.Contains z) : getInteger w (.int z) = none :=
  dif_neg h

theorem getTuple_tuple {fields : List FieldType} {elements : List Term}
    (hlength : elements.length = fields.length) :
    getTuple fields (.tuple elements) = arrayToTupler fields elements := by
  rw [getTuple, if_pos hlength]

end Cberl

namespace Cberl.Api

open Cberl Cberl.Support

theorem getVector_eq_some_iff_forall₂
    {α : Type} {fields : List FieldType} {toTerm : α → Term} {as : List α}
    {rows : List (RawTuple fields)} :
    getVector fields (.list (as.map toTerm)) = some rows ↔
      List.Forall₂ (fun a row => getTuple fields (toTerm a) = some row)
        as rows := by
  rw [getVector, Term.asList_list]
  dsimp only
  rw [mapM_option_eq_some_iff fun _ _ => Iff.rfl, List.forall₂_map_right_iff]
  exact ⟨List.Forall₂.flip, List.Forall₂.flip⟩

theorem getVector_isSome_iff
    {α : Type} {fields : List FieldType} {toTerm : α → Term} {as : List α} :
    (getVector fields (.list (as.map toTerm))).isSome ↔
      ∀ a ∈ as, (getTuple fields (toTerm a)).isSome := by
  simp only [Option.isSome_iff_exists, getVector_eq_some_iff_forall₂]
  exact exists_forall₂_iff

theorem getVector_singleton {fields : List FieldType} {term : Term}
    {rows : List (RawTuple fields)}
    (h : getVector fields (.list [term]) = some rows) :
    ∃ row, rows = [row] ∧ getTuple fields term = some row := by
  have heach := (@getVector_eq_some_iff_forall₂ _ _ id [term] rows).mp h
  obtain ⟨row, rest, hrow, hrest, rfl⟩ :=
    List.forall₂_cons_left_iff.mp heach
  obtain rfl := List.forall₂_nil_left_iff.mp hrest
  exact ⟨row, rfl, hrow⟩

/-- The layout that removals and durability requests share. -/
theorem getTuple_keyCas (key : Bytes) (cas : ℕ) :
    getTuple [.string, .integer .uint64] (.tuple [.binary key, .int cas]) =
      if h : IntType.uint64.Contains cas then some (key, ⟨cas, h⟩, ())
      else none := by
  rw [getTuple_tuple rfl]
  simp only [arrayToTupler, FieldType.get, getInteger, getString_binary]
  split_ifs <;> rfl

theorem getTuple_removeRequest (request : RemoveRequest) :
    getTuple Cberl.RemoveRequest.Raw request.toTerm =
      if h : IntType.uint64.Contains request.cas then
        some (request.key, ⟨request.cas, h⟩, ())
      else none :=
  getTuple_keyCas request.key request.cas

theorem getTuple_durabilityRequest (request : DurabilityRequest) :
    getTuple Cberl.DurabilityRequest.Raw request.toTerm =
      if h : IntType.uint64.Contains request.cas then
        some (request.key, ⟨request.cas, h⟩, ())
      else none :=
  getTuple_keyCas request.key request.cas

theorem getTuple_durabilityOptions (options : DurabilityOptions) :
    getTuple DurabilityRequestOptions.Raw options.toTerm =
      if h : IntType.int32.Contains options.persistTo.val ∧
          IntType.int32.Contains options.replicateTo.val then
        some (⟨options.persistTo.val, h.1⟩, ⟨options.replicateTo.val, h.2⟩, ())
      else none := by
  rw [DurabilityOptions.toTerm, getTuple_tuple rfl]
  simp only [arrayToTupler, FieldType.get, getInteger]
  split_ifs <;> first | rfl | tauto

/-- The arguments of `http/7` always convert. -/
theorem getTuple_http (type : HttpType) (method : HttpMethod)
    (path contentType body : Bytes) :
    (getTuple HttpRequest.Raw (.tuple
      [.int (getHttpTypeId type), .int (getHttpMethodId method), .binary path,
        .binary contentType, .binary body])).isSome := by
  rw [getTuple_tuple rfl]
  cases type <;> cases method <;> rfl

/-- The integer a store operation travels as. -/
def storeOperationId (operation : StoreOperation) : IntType.int32.Val :=
  ⟨getStoreOperationId operation, by cases operation <;> decide⟩

/-- The flags an encoder stores. -/
def encoderFlags : Encoder → IntType.uint32.Val
  | .none => ⟨0, by decide⟩
  | .json => ⟨1, by decide⟩
  | .raw => ⟨2, by decide⟩

theorem flags_of_encode {codec : Codec} {encoder : Encoder} {value : Term}
    {flags : ℤ} {data : Term}
    (h : codec.encode encoder value = .ok (flags, data)) :
    flags = (encoderFlags encoder).val := by
  cases encoder with
  | none =>
      obtain ⟨rfl, -⟩ := Prod.mk.inj (Except.ok.inj h)
      rfl
  | json =>
      obtain ⟨data', -, heq⟩ := except_map_eq_ok_iff.mp h
      obtain ⟨rfl, -⟩ := Prod.mk.inj heq
      rfl
  | raw =>
      obtain ⟨rfl, -⟩ := Prod.mk.inj (Except.ok.inj h)
      rfl

variable [LcbTypes]

theorem getTuple_getRequest (request : GetRequest) :
    getTuple Cberl.GetRequest.Raw request.toTerm =
      if h : LcbTypes.time.Contains request.expiry then
        some (request.key, ⟨request.expiry, h⟩, request.lock, ())
      else none := by
  rw [GetRequest.toTerm, getTuple_tuple rfl]
  simp only [arrayToTupler, FieldType.get, getInteger, getString_binary,
    getBool_boolAtom]
  split_ifs <;> rfl

/-- An undefined default travels as `{false, 0}`. -/
def ArithmeticRequest.create (request : ArithmeticRequest) : Bool :=
  request.default.isSome

def ArithmeticRequest.initial (request : ArithmeticRequest) : ℕ :=
  request.default.getD 0

theorem getTuple_arithmeticRequest (request : ArithmeticRequest) :
    getTuple Cberl.ArithmeticRequest.Raw request.toTerm =
      if h : IntType.int64.Contains request.delta ∧
          IntType.uint64.Contains request.initial ∧
          LcbTypes.time.Contains request.expiry then
        some (request.key, ⟨request.delta, h.1⟩, request.create,
          ⟨request.initial, h.2.1⟩, ⟨request.expiry, h.2.2⟩, ())
      else none := by
  obtain ⟨key, delta, default, expiry⟩ := request
  have hterm : ArithmeticRequest.toTerm ⟨key, delta, default, expiry⟩ =
      .tuple [.binary key, .int delta, boolAtom default.isSome,
        .int (default.getD 0 : ℕ), .int expiry] := by
    cases default <;> rfl
  rw [hterm, getTuple_tuple rfl]
  by_cases hdelta : IntType.int64.Contains delta
  · by_cases hinitial : IntType.uint64.Contains (default.getD 0 : ℕ)
    · by_cases hexpiry : LcbTypes.time.Contains expiry
      · rw [dif_pos ⟨hdelta, hinitial, hexpiry⟩]
        simp only [arrayToTupler, FieldType.get, getString_binary,
          getBool_boolAtom, getInteger_of_contains hdelta,
          getInteger_of_contains hinitial, getInteger_of_contains hexpiry]
        rfl
      · rw [dif_neg fun h => hexpiry h.2.2]
        simp only [arrayToTupler, FieldType.get, getString_binary,
          getBool_boolAtom, getInteger_of_contains hdelta,
          getInteger_of_contains hinitial, getInteger_of_not_contains hexpiry]
    · rw [dif_neg fun h => hinitial h.2.1]
      simp only [arrayToTupler, FieldType.get, getString_binary,
        getBool_boolAtom, getInteger_of_contains hdelta,
        getInteger_of_not_contains hinitial]
  · rw [dif_neg fun h => hdelta h.1]
    simp only [arrayToTupler, FieldType.get, getString_binary,
      getInteger_of_not_contains hdelta]

/-- The tuple of a store whose value was encoded to `data`. -/
theorem getTuple_storeRequest {codec : Codec} {request : StoreRequest}
    {flags : ℤ} {data term : Term}
    (hencode : codec.encode request.encoder request.value = .ok (flags, data))
    (hterm : request.toTerm codec = .ok term) :
    getTuple Cberl.StoreRequest.Raw term =
      (getString data).bind fun bytes =>
        if h : IntType.uint64.Contains request.cas ∧
            LcbTypes.time.Contains request.expiry then
          some (storeOperationId request.operation, request.key, bytes,
            encoderFlags request.encoder, ⟨request.cas, h.1⟩,
            ⟨request.expiry, h.2⟩, ())
        else none := by
  obtain rfl := flags_of_encode hencode
  rw [StoreRequest.toTerm, hencode] at hterm
  obtain rfl := Except.ok.inj hterm
  rw [getTuple_tuple rfl]
  have hoperation :
      getInteger .int32 (.int (getStoreOperationId request.operation)) =
        some (storeOperationId request.operation) :=
    getInteger_of_contains (storeOperationId request.operation).property
  have hflags := getInteger_of_contains (encoderFlags request.encoder).property
  simp only [arrayToTupler, FieldType.get, getString_binary, hoperation, hflags]
  cases hdata : getString data with
  | none => rfl
  | some bytes =>
      by_cases hcas : IntType.uint64.Contains request.cas
      · by_cases hexpiry : LcbTypes.time.Contains request.expiry
        · rw [Option.bind_some, dif_pos ⟨hcas, hexpiry⟩,
            getInteger_of_contains hcas, getInteger_of_contains hexpiry]
        · rw [Option.bind_some, dif_neg fun h => hexpiry h.2,
            getInteger_of_contains hcas, getInteger_of_not_contains hexpiry]
      · rw [Option.bind_some, dif_neg fun h => hcas h.1,
          getInteger_of_not_contains hcas]

end Cberl.Api
