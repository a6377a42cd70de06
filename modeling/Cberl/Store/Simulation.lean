import Cberl.Api.Conversion
import Cberl.Store.Reference

/-!
# One call against the reference store

A plain call passes the NIF's conversions with its fields unchanged, and each
of its commands acts on the bucket as its request acts on the reference store.
-/

namespace Cberl.Store

open Cberl Cberl.Support

/-! ## From the call to the operation -/

/-- A list of requests that convert one by one converts. -/
theorem getVector_carried {α R : Type} {fields : List FieldType}
    {toTerm : α → Term} {ofRaw : RawTuple fields → R} {Carried : R → α → Prop}
    {requests : List α}
    (h : ∀ request ∈ requests, ∃ row,
      getTuple fields (toTerm request) = some row ∧
        Carried (ofRaw row) request) :
    ∃ rows, getVector fields (.list (requests.map toTerm)) = some rows ∧
      List.Forall₂ Carried (rows.map ofRaw) requests := by
  obtain ⟨rows, hrows⟩ := exists_forall₂_iff.mpr h
  refine ⟨rows, ?_, ?_⟩
  · rw [Api.getVector_eq_some_iff_forall₂]
    exact hrows.imp fun _ _ hrow => hrow.1
  · rw [List.forall₂_map_left_iff]
    exact hrows.flip.imp fun _ _ hrow => hrow.2

structure RemoveCarried (carried : RemoveRequest)
    (request : Api.RemoveRequest) : Prop where
  key : carried.key = request.key
  cas : carried.cas.val = request.cas

theorem removeRequest_carried {request : Api.RemoveRequest}
    (h : IntType.uint64.Contains request.cas) :
    ∃ row, getTuple RemoveRequest.Raw request.toTerm = some row ∧
      RemoveCarried (RemoveRequest.ofRaw row) request := by
  refine ⟨(request.key, ⟨request.cas, h⟩, ()), ?_, rfl, rfl⟩
  rw [Api.getTuple_removeRequest, dif_pos h]

/-- A storable value is encoded to a binary that decodes to it under the flags
of its encoder. -/
theorem encode_of_storable {codec : Codec} {encoder : Encoder} {value : Term}
    (h : Storable codec encoder value) :
    ∃ bytes, codec.encode encoder value =
        .ok ((Api.encoderFlags encoder).val, .binary bytes) ∧
      codec.decode (.int (Api.encoderFlags encoder).val) (.binary bytes) =
        .ok value := by
  cases encoder with
  | none =>
      obtain ⟨bytes, rfl⟩ := h
      exact ⟨bytes, rfl, rfl⟩
  | json =>
      obtain ⟨bytes, hencode, hdecode⟩ := h
      refine ⟨bytes, ?_, hdecode⟩
      rw [Codec.encode, hencode]
      rfl
  | raw => exact ⟨codec.termToBinary value, rfl, h⟩

variable [LcbTypes]

/-- What becomes of a store request of the exported type on its way to the
worker: the layout is kept, and the bytes decode to the value. -/
structure StoreCarried (codec : Codec) (carried : StoreRequest)
    (request : Api.StoreRequest) : Prop where
  operation : carried.operation.val = getStoreOperationId request.operation
  key : carried.key = request.key
  cas : carried.cas.val = request.cas
  decodes : codec.decode (.int carried.flags.val) (.binary carried.value) =
    .ok request.value

structure GetCarried (carried : GetRequest) (key : Bytes) : Prop where
  key : carried.key = key
  expiry : carried.expiry.val = 0
  lock : carried.lock = false

/-- The operation is the call, request by request. -/
def Carries (codec : Codec) : Operation → Call → Prop
  | .store carried, .store requests =>
      List.Forall₂ (StoreCarried codec) carried requests
  | .get carried, .get keys => List.Forall₂ GetCarried carried keys
  | .remove carried, .remove requests =>
      List.Forall₂ RemoveCarried carried requests
  | _, _ => False

theorem storeRequest_carried {codec : Codec} {request : Api.StoreRequest}
    (h : PlainStore codec request) :
    ∃ term row, request.toTerm codec = .ok term ∧
      getTuple StoreRequest.Raw term = some row ∧
      StoreCarried codec (StoreRequest.ofRaw row) request := by
  obtain ⟨bytes, hencode, hdecode⟩ := encode_of_storable h.storable
  obtain ⟨term, hterm⟩ : ∃ term, request.toTerm codec = .ok term := by
    rw [Api.StoreRequest.toTerm, hencode]
    exact ⟨_, rfl⟩
  have hrow := Api.getTuple_storeRequest hencode hterm
  rw [getString_binary, Option.bind_some, dif_pos ⟨h.cas, h.expiry⟩] at hrow
  exact ⟨term, _, hterm, hrow, rfl, rfl, rfl, hdecode⟩

theorem store_carried {codec : Codec} {requests : List Api.StoreRequest}
    (h : ∀ request ∈ requests, PlainStore codec request) :
    ∃ terms rows, requests.mapM (Api.StoreRequest.toTerm codec) = .ok terms ∧
      getVector StoreRequest.Raw (.list terms) = some rows ∧
      List.Forall₂ (StoreCarried codec) (rows.map StoreRequest.ofRaw)
        requests := by
  have heach : ∀ request ∈ requests, ∃ result : Term × RawTuple _,
      request.toTerm codec = .ok result.1 ∧
        getTuple StoreRequest.Raw result.1 = some result.2 ∧
        StoreCarried codec (StoreRequest.ofRaw result.2) request := by
    intro request hmem
    obtain ⟨term, row, hcarried⟩ := storeRequest_carried (h request hmem)
    exact ⟨(term, row), hcarried⟩
  obtain ⟨results, hresults⟩ := exists_forall₂_iff.mpr heach
  obtain ⟨hconverts, hcarries⟩ := (List.forall₂_and_left _ _).mp
    (hresults.flip.imp fun _ _ hresult => hresult.2)
  refine ⟨results.map Prod.fst, results.map Prod.snd, ?_, ?_, ?_⟩
  · rw [mapM_except_eq_ok_iff, List.forall₂_map_right_iff]
    exact hresults.imp fun _ _ hresult => hresult.1
  · rw [Api.getVector_eq_some_iff_forall₂, List.forall₂_map_right_iff,
      List.forall₂_same]
    exact hconverts
  · rw [List.map_map, List.forall₂_map_left_iff]
    exact hcarries

theorem time_contains_zero : LcbTypes.time.Contains ((0 : ℕ) : ℤ) :=
  IntType.contains_zero _

theorem getRequest_carried (key : Bytes) :
    ∃ row, getTuple GetRequest.Raw
        (Api.GetRequest.toTerm { key, expiry := 0, lock := false }) =
          some row ∧
      GetCarried (GetRequest.ofRaw row) key := by
  refine ⟨(key, ⟨(0 : ℕ), time_contains_zero⟩, false, ()), ?_, rfl, rfl, rfl⟩
  rw [Api.getTuple_getRequest, dif_pos time_contains_zero]

/-- A plain call raises nothing and is admitted, and the operation posted for
it carries its requests. -/
theorem Call.carried {codec : Codec} {call : Call} (h : call.Plain codec) :
    ∃ request operation, call.bulk.request codec = .ok request ∧
      request.operation = some operation ∧ Carries codec operation call := by
  cases call with
  | store requests =>
      obtain ⟨terms, rows, hterms, hrows, hcarries⟩ := store_carried h
      refine ⟨.store (.list terms), .store (rows.map StoreRequest.ofRaw),
        ?_, ?_, hcarries⟩
      · rw [Call.bulk, Api.BulkCall.request, hterms]
        rfl
      · rw [Request.operation, hrows]
        rfl
  | get keys =>
      obtain ⟨rows, hrows, hcarries⟩ :=
        getVector_carried fun key (_ : key ∈ keys) => getRequest_carried key
      refine ⟨_, .get (rows.map GetRequest.ofRaw), rfl, ?_, hcarries⟩
      rw [Request.operation, List.map_map]
      exact Option.map_eq_some_iff.mpr ⟨rows, hrows, rfl⟩
  | remove requests =>
      obtain ⟨rows, hrows, hcarries⟩ :=
        getVector_carried fun request hmem =>
          removeRequest_carried (h request hmem)
      refine ⟨_, .remove (rows.map RemoveRequest.ofRaw), rfl, ?_, hcarries⟩
      exact Option.map_eq_some_iff.mpr ⟨rows, hrows, rfl⟩

/-! ## Steps -/

omit [LcbTypes] in
theorem RepresentsAt.map_cas {codec : Codec} {item : Option Item}
    {value : Option (Term × LcbCas)} (h : RepresentsAt codec item value) :
    item.map Item.cas = value.map Prod.snd := by
  cases item with
  | none =>
      cases value with
      | none => rfl
      | some value => exact h.elim
  | some item =>
      cases value with
      | none => exact h.elim
      | some value => exact congrArg some h.1

theorem written_of_overwrite {command : StoreCmd}
    (h : command.operation.val ≠ 4 ∧ command.operation.val ≠ 5)
    (item : Option Item) (fresh : LcbCas) :
    written item command fresh =
      { bytes := command.bytes, flags := command.flags, cas := fresh } := by
  unfold written
  split
  next heq => exact absurd heq h.1
  next heq => exact absurd heq h.2
  next => rfl

theorem storeStep_simulates {codec : Codec} {item : Option Item}
    {value : Option (Term × LcbCas)} {carried : StoreRequest}
    {request : Api.StoreRequest}
    (hitem : RepresentsAt codec item value)
    (hcarried : StoreCarried codec carried request)
    (hoperation : request.operation ≠ .append ∧ request.operation ≠ .prepend)
    (fresh : LcbCas) :
    RepresentsAt codec
        (storeStep item (StoreCmd.ofRequest carried, fresh)).1
        (refStore value (request, fresh)).1 ∧
      Callback.toTerm
        { key := carried.key
          result := (storeStep item
            (StoreCmd.ofRequest carried, fresh)).2.map casTerm } =
        .tuple [.binary request.key, (refStore value (request, fresh)).2] := by
  have hverdict :
      storeVerdict carried.operation.val (item.map Item.cas) carried.cas.val =
        storeVerdict (getStoreOperationId request.operation)
          (value.map Prod.snd) request.cas := by
    rw [hcarried.operation, hcarried.cas, hitem.map_cas]
  have hoverwrite : carried.operation.val ≠ 4 ∧ carried.operation.val ≠ 5 := by
    rw [hcarried.operation]
    cases hop : request.operation with
    | append => exact absurd hop hoperation.1
    | prepend => exact absurd hop hoperation.2
    | _ => decide
  simp only [storeStep, refStore, StoreCmd.ofRequest, hverdict]
  cases storeVerdict (getStoreOperationId request.operation)
      (value.map Prod.snd) request.cas with
  | some err => exact ⟨hitem, by rw [hcarried.key]; rfl⟩
  | none =>
      refine ⟨?_, by rw [hcarried.key]; rfl⟩
      rw [written_of_overwrite hoverwrite]
      exact ⟨rfl, hcarried.decodes⟩

omit [LcbTypes] in
theorem removeStep_simulates {codec : Codec} {item : Option Item}
    {value : Option (Term × LcbCas)} {carried : RemoveRequest}
    {request : Api.RemoveRequest}
    (hitem : RepresentsAt codec item value)
    (hcarried : RemoveCarried carried request) :
    RepresentsAt codec
        (removeStep item (RemoveCmd.ofRequest carried)).1
        (refRemove value request).1 ∧
      Callback.toTerm
        { key := carried.key
          result := (removeStep item (RemoveCmd.ofRequest carried)).2.map
            fun _ => .atom "ok" } =
        .tuple [.binary request.key, (refRemove value request).2] := by
  cases item with
  | none =>
      cases value with
      | some value => exact hitem.elim
      | none => exact ⟨trivial, by rw [hcarried.key]; rfl⟩
  | some item =>
      cases value with
      | none => exact hitem.elim
      | some value =>
          have hverdict : casVerdict carried.cas.val item.cas =
              casVerdict request.cas value.2 := by
            rw [hcarried.cas, hitem.1]
          simp only [removeStep, refRemove, RemoveCmd.ofRequest, hverdict]
          cases casVerdict request.cas value.2 with
          | some err => exact ⟨hitem, by rw [hcarried.key]; rfl⟩
          | none => exact ⟨trivial, by rw [hcarried.key]; rfl⟩

theorem getStep_simulates {codec : Codec} {item : Option Item}
    {value : Option (Term × LcbCas)} {carried : GetRequest} {key : Bytes}
    (hitem : RepresentsAt codec item value)
    (hcarried : GetCarried carried key) :
    RepresentsAt codec (getStep item (GetCmd.ofRequest carried)).1
        (refGet value key).1 ∧
      Api.decodeResponse codec (Callback.toTerm
        { key := carried.key
          result := (getStep item (GetCmd.ofRequest carried)).2.map
            GetPayload.toTerm }) =
        .ok (.tuple [.binary key, (refGet value key).2]) := by
  cases item with
  | none =>
      cases value with
      | some value => exact hitem.elim
      | none => exact ⟨trivial, by rw [hcarried.key]; rfl⟩
  | some item =>
      cases value with
      | none => exact hitem.elim
      | some value =>
          obtain ⟨hcas, hdecode⟩ := hitem
          refine ⟨⟨hcas, hdecode⟩, ?_⟩
          have hresponse : Callback.toTerm
              { key := carried.key
                result := (getStep (some item)
                  (GetCmd.ofRequest carried)).2.map GetPayload.toTerm } =
              .tuple [.binary key, .tuple [.atom "ok", .int item.cas.val,
                .int item.flags.val, .binary item.bytes]] := by
            rw [hcarried.key]
            rfl
          rw [hresponse, Api.decodeResponse, hdecode, hcas]
          rfl

end Cberl.Store
