import Cberl.Api.Conversion
import Cberl.Api.SingleKey

/-!
# Requests of the exported types

A request of the exported types is read by its NIF when its integers fit the C
types they are converted to and, for a store, when the encoder produced bytes.
-/

namespace Cberl.Api

open Cberl Cberl.Support

/-! ## Calls -/

/-- One call of an exported function that makes a request. -/
inductive ApiCall where
  | bulk (call : BulkCall)
  | key (call : KeyCall)
  | http (type : HttpType) (method : HttpMethod)
      (path contentType body : Bytes)

namespace ApiCall

/-- The function itself. -/
def run (codec : Codec) (answer : Request → Term) : ApiCall → ApiM Term
  | bulk call => call.run codec answer
  | key call => call.run codec answer
  | http type method path contentType body =>
      Api.http answer type method path contentType body

/-- The request it hands to `call/3`. -/
def request (codec : Codec) : ApiCall → Except Raise Request
  | bulk call => call.request codec
  | key call => call.bulk.request codec
  | http type method path contentType body =>
      .ok (.http (.tuple
        [.int (getHttpTypeId type), .int (getHttpMethodId method),
          .binary path, .binary contentType, .binary body]))

/-- What it makes of the result of `call/3`. -/
def reply (codec : Codec) : ApiCall → Term → Except Raise Term
  | bulk call, result => call.reply codec result
  | key call, result =>
      (call.bulk.reply codec result).bind (single call.shape call.key)
  | http .., result => .ok result

theorem run_eq (call : ApiCall) {codec : Codec} {answer : Request → Term}
    (casts : List Request) :
    (call.run codec answer).run.run casts =
      match call.request codec with
      | .ok request => (call.reply codec (answer request), casts ++ [request])
      | .error raise => (.error raise, casts) := by
  cases call with
  | bulk call => exact call.run_eq casts
  | key call =>
      rw [run, KeyCall.run_eq, BulkCall.run_eq, request]
      cases call.bulk.request codec <;> rfl
  | http type method path contentType body => rfl

end ApiCall

/-! ## Requests that their NIF reads -/

/-- Batches that are sent as they are convert when every request does. -/
theorem batch_fits_iff {α : Type} {fields : List FieldType}
    {toTerm : α → Term} {Fits : α → Prop} {as : List α}
    (heach : ∀ a, (getTuple fields (toTerm a)).isSome ↔ Fits a) :
    (∀ a ∈ as, Fits a) ↔
      (getVector fields (.list (as.map toTerm))).isSome := by
  rw [getVector_isSome_iff]
  simp only [heach]

variable [LcbTypes]

/-- The encoder makes bytes of the value, a binary or a Latin-1 list, and the
integers fit. -/
def StoreRequest.Fits (codec : Codec) (request : StoreRequest) : Prop :=
  (∃ flags data, codec.encode request.encoder request.value =
      .ok (flags, data) ∧ (getString data).isSome) ∧
    IntType.uint64.Contains request.cas ∧
    LcbTypes.time.Contains request.expiry

def BulkCall.Fits (codec : Codec) : BulkCall → Prop
  | get requests =>
      ∀ request ∈ requests, LcbTypes.time.Contains request.expiry
  | store requests => ∀ request ∈ requests, request.Fits codec
  | remove requests =>
      ∀ request ∈ requests, IntType.uint64.Contains request.cas
  | arithmetic requests =>
      ∀ request ∈ requests, IntType.int64.Contains request.delta ∧
        IntType.uint64.Contains request.initial ∧
        LcbTypes.time.Contains request.expiry
  | durability requests options =>
      (∀ request ∈ requests, IntType.uint64.Contains request.cas) ∧
        IntType.int32.Contains options.persistTo.val ∧
        IntType.int32.Contains options.replicateTo.val

theorem StoreRequest.fits_iff {codec : Codec} {request : StoreRequest} :
    request.Fits codec ↔ ∃ term, request.toTerm codec = .ok term ∧
      (getTuple Cberl.StoreRequest.Raw term).isSome := by
  constructor
  · rintro ⟨⟨flags, data, hencode, hdata⟩, hcas, hexpiry⟩
    obtain ⟨term, hterm⟩ : ∃ term, request.toTerm codec = .ok term := by
      rw [StoreRequest.toTerm, hencode]
      exact ⟨_, rfl⟩
    obtain ⟨bytes, hbytes⟩ := Option.isSome_iff_exists.mp hdata
    refine ⟨term, hterm, ?_⟩
    rw [getTuple_storeRequest hencode hterm, hbytes, Option.bind_some,
      dif_pos ⟨hcas, hexpiry⟩]
    rfl
  · rintro ⟨term, hterm, hsome⟩
    obtain ⟨⟨flags, data⟩, hencode, -⟩ := except_map_eq_ok_iff.mp hterm
    rw [getTuple_storeRequest hencode hterm] at hsome
    obtain ⟨row, hrow⟩ := Option.isSome_iff_exists.mp hsome
    obtain ⟨bytes, hbytes, hinrange⟩ := Option.bind_eq_some_iff.mp hrow
    rw [Option.dite_none_right_eq_some] at hinrange
    obtain ⟨hranges, -⟩ := hinrange
    exact ⟨⟨flags, data, hencode, by rw [hbytes]; rfl⟩, hranges⟩

/-- The encoded tuples all convert exactly when every request fits. -/
theorem storeRequests_fit_iff {codec : Codec} {requests : List StoreRequest} :
    (∀ request ∈ requests, request.Fits codec) ↔
      ∃ terms, requests.mapM (StoreRequest.toTerm codec) = .ok terms ∧
        (getVector Cberl.StoreRequest.Raw (.list terms)).isSome := by
  have hterms : ∀ terms : List Term,
      (getVector Cberl.StoreRequest.Raw (.list terms)).isSome ↔
        ∀ term ∈ terms, (getTuple Cberl.StoreRequest.Raw term).isSome := by
    intro terms
    rw [← getVector_isSome_iff, List.map_id']
  simp only [StoreRequest.fits_iff, ← exists_forall₂_iff, hterms,
    mapM_except_eq_ok_iff]
  refine exists_congr fun terms => ?_
  constructor
  · intro h
    obtain ⟨hsome, hterm⟩ := (List.forall₂_and_left _ _).mp
      (h.flip.imp fun _ _ hboth => hboth.symm)
    exact ⟨hterm.flip, hsome⟩
  · rintro ⟨hterm, hsome⟩
    exact ((List.forall₂_and_left _ _).mpr ⟨hsome, hterm.flip⟩).flip.imp
      fun _ _ hboth => hboth.symm

/-- A bulk call fits exactly when its encoding succeeds and its NIF reads the
request. -/
theorem BulkCall.fits_iff {codec : Codec} {call : BulkCall} :
    call.Fits codec ↔
      ∃ request, call.request codec = .ok request ∧
        request.operation.isSome := by
  cases call with
  | get requests =>
      have hbatch : (get requests).Fits codec ↔ _ :=
        batch_fits_iff fun request => by
          rw [getTuple_getRequest, Option.isSome_dite]
      simp [hbatch, request, Request.operation]
  | store requests =>
      rw [Fits, storeRequests_fit_iff]
      simp only [request, except_map_eq_ok_iff]
      constructor
      · rintro ⟨terms, hterms, hsome⟩
        exact ⟨_, ⟨terms, hterms, rfl⟩, by simpa [Request.operation]⟩
      · rintro ⟨_, ⟨terms, hterms, rfl⟩, hsome⟩
        exact ⟨terms, hterms, by simpa [Request.operation] using hsome⟩
  | remove requests =>
      have hbatch : (remove requests).Fits codec ↔ _ :=
        batch_fits_iff fun request => by
          rw [getTuple_removeRequest, Option.isSome_dite]
      simp [hbatch, request, Request.operation]
  | arithmetic requests =>
      have hbatch : (arithmetic requests).Fits codec ↔ _ :=
        batch_fits_iff fun request => by
          rw [getTuple_arithmeticRequest, Option.isSome_dite]
      simp [hbatch, request, Request.operation]
  | durability requests options =>
      have hbatch : (∀ request ∈ requests,
          IntType.uint64.Contains request.cas) ↔ _ :=
        batch_fits_iff fun request => by
          rw [getTuple_durabilityRequest, Option.isSome_dite]
      have hoptions : (getTuple DurabilityRequestOptions.Raw
          options.toTerm).isSome ↔
            IntType.int32.Contains options.persistTo.val ∧
              IntType.int32.Contains options.replicateTo.val := by
        rw [getTuple_durabilityOptions, Option.isSome_dite]
      rw [Fits, hbatch, ← hoptions]
      simp only [request, Except.ok.injEq, exists_eq_left', Request.operation]
      cases getVector Cberl.DurabilityRequest.Raw
          (.list (requests.map DurabilityRequest.toTerm)) <;> simp

/-- The NIF reads the request of the call. -/
def ApiCall.Fits (codec : Codec) : ApiCall → Prop
  | bulk call => call.Fits codec
  | key call => call.bulk.Fits codec
  | http .. => True

theorem ApiCall.fits_iff {codec : Codec} {call : ApiCall} :
    call.Fits codec ↔
      ∃ request, call.request codec = .ok request ∧
        request.operation.isSome := by
  cases call with
  | bulk call => exact BulkCall.fits_iff
  | key call => exact BulkCall.fits_iff
  | http type method path contentType body =>
      refine ⟨fun _ => ⟨_, rfl, ?_⟩, fun _ => trivial⟩
      rw [Request.operation, Option.isSome_map]
      exact getTuple_http type method path contentType body

end Cberl.Api
