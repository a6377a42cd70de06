import Cberl.Api.Functions
import Cberl.Connection.Operations
import Cberl.Support.Traverse

/-!
# Bulk calls uniformly

The five bulk functions have one shape: build a request, which only
`bulk_store/3` can fail to do, call, and post-process the reply, which only
`bulk_get/3` does.  Results about all of them are stated over `BulkCall`.
-/

namespace Cberl.Api

open Cberl Cberl.Support

/-- `bulk_get/3` returns a list of responses exactly when every item of the
reply decodes, one response per item. -/
theorem decodeResponses_eq_ok_iff {codec : Codec} {items responses : List Term} :
    decodeResponses codec (okTerm (.list items)) =
        .ok (okTerm (.list responses)) ↔
      List.Forall₂ (fun item response =>
        decodeResponse codec item = .ok response) items responses := by
  have hmap :
      decodeResponses codec (okTerm (.list items)) =
        (items.mapM (decodeResponse codec)).map fun responses =>
          okTerm (.list responses) := by
    simp only [okTerm, decodeResponses, Term.asList_list]
  rw [hmap, except_map_eq_ok_iff, ← mapM_except_eq_ok_iff]
  simp [okTerm]

/-- One call of a bulk function. -/
inductive BulkCall where
  | get (requests : List GetRequest)
  | store (requests : List StoreRequest)
  | remove (requests : List RemoveRequest)
  | arithmetic (requests : List ArithmeticRequest)
  | durability (requests : List DurabilityRequest) (options : DurabilityOptions)

namespace BulkCall

/-- The keys of the request list, in order. -/
def keys : BulkCall → List Bytes
  | get requests => requests.map GetRequest.key
  | store requests => requests.map StoreRequest.key
  | remove requests => requests.map RemoveRequest.key
  | arithmetic requests => requests.map ArithmeticRequest.key
  | durability requests _ => requests.map DurabilityRequest.key

/-- The bulk function itself. -/
def run (codec : Codec) (answer : Request → Term) : BulkCall → ApiM Term
  | get requests => bulkGet codec answer requests
  | store requests => bulkStore codec answer requests
  | remove requests => bulkRemove answer requests
  | arithmetic requests => bulkArithmetic answer requests
  | durability requests options => bulkDurability answer requests options

/-- The request handed to `call/3`. -/
def request (codec : Codec) : BulkCall → Except Raise Request
  | get requests => .ok (.get (.list (requests.map GetRequest.toTerm)))
  | store requests =>
      (requests.mapM (StoreRequest.toTerm codec)).map fun requests =>
        .store (.list requests)
  | remove requests => .ok (.remove (.list (requests.map RemoveRequest.toTerm)))
  | arithmetic requests =>
      .ok (.arithmetic (.list (requests.map ArithmeticRequest.toTerm)))
  | durability requests options =>
      .ok (.durability (.list (requests.map DurabilityRequest.toTerm))
        options.toTerm)

/-- What the bulk function makes of the result of `call/3`. -/
def reply (codec : Codec) : BulkCall → Term → Except Raise Term
  | get _, result => decodeResponses codec result
  | _, result => .ok result

/-- A bulk call casts its request and post-processes the answer, or raises
before it casts anything. -/
theorem run_eq (call : BulkCall) {codec : Codec} {answer : Request → Term}
    (casts : List Request) :
    (call.run codec answer).run.run casts =
      match call.request codec with
      | .ok request => (call.reply codec (answer request), casts ++ [request])
      | .error raise => (.error raise, casts) := by
  cases call with
  | get requests => exact bulkGet_run casts requests
  | store requests =>
      rw [run, bulkStore_run, request]
      cases requests.mapM (StoreRequest.toTerm codec) <;> rfl
  | remove requests => rfl
  | arithmetic requests => rfl
  | durability requests options => rfl

theorem run_result {call : BulkCall} {codec : Codec} {request : Request}
    (hrequest : call.request codec = .ok request)
    (answer : Request → Term) (casts : List Request) :
    ((call.run codec answer).run.run casts).1 =
      call.reply codec (answer request) := by
  rw [run_eq, hrequest]

end BulkCall

/-! ## Entries of a reply -/

/-- The key a response is for. -/
def responseKey : Term → Option Bytes
  | .tuple (.binary key :: _) => some key
  | _ => none

theorem decodeResponse_key {codec : Codec} {key : Bytes} {result response : Term}
    (h : decodeResponse codec (.tuple [.binary key, result]) = .ok response) :
    responseKey response = some key := by
  unfold decodeResponse at h
  split at h
  next hterm =>
    obtain ⟨rfl, -⟩ : Term.binary key = _ ∧ _ := by simpa using hterm
    rw [except_map_eq_ok_iff] at h
    obtain ⟨value, -, rfl⟩ := h
    rfl
  next hterm =>
    obtain ⟨rfl, -⟩ : Term.binary key = _ ∧ _ := by simpa using hterm
    obtain rfl := Except.ok.inj h
    rfl
  next => cases h

/-- The entry a reply of this call carries for one command. -/
def BulkCall.entry (codec : Codec) (call : BulkCall)
    (callback : Callback Term) : Except Raise Term :=
  match call with
  | .get _ => decodeResponse codec callback.toTerm
  | _ => .ok callback.toTerm

theorem BulkCall.entry_key {codec : Codec} {call : BulkCall}
    {callback : Callback Term} {response : Term}
    (h : call.entry codec callback = .ok response) :
    responseKey response = some callback.key := by
  cases call with
  | get requests => exact decodeResponse_key h
  | _ =>
      obtain rfl := Except.ok.inj h
      rfl

/-- The reply of a batch without an error is the list of the entries of its
callbacks, in callback order, if they all have one. -/
theorem BulkCall.reply_replyTerm {codec : Codec} {call : BulkCall}
    {outcome : Outcome Term}
    (hstatus : outcome.schedule.or outcome.wait = none) :
    call.reply codec outcome.replyTerm =
      (outcome.callbacks.mapM (call.entry codec)).map fun responses =>
        okTerm (.list responses) := by
  rw [Outcome.replyTerm, hstatus]
  cases call with
  | get requests =>
      simp only [reply, decodeResponses, Term.asList_list, List.mapM_map]
      rfl
  | _ =>
      have hentry : ∀ callbacks : List (Callback Term),
          callbacks.mapM (fun callback =>
              (Except.ok callback.toTerm : Except Raise Term)) =
            .ok (callbacks.map Callback.toTerm) :=
        fun _ => List.mapM_pure
      exact (congrArg (Except.map fun responses => okTerm (.list responses))
        (hentry outcome.callbacks)).symm

/-- A reply of a batch without an error is a list of responses exactly when
every callback gives an entry; the entries are in callback order. -/
theorem BulkCall.reply_eq_ok_iff {codec : Codec} {call : BulkCall}
    {outcome : Outcome Term} {responses : List Term}
    (hstatus : outcome.schedule.or outcome.wait = none) :
    call.reply codec outcome.replyTerm = .ok (okTerm (.list responses)) ↔
      List.Forall₂
        (fun callback response => call.entry codec callback = .ok response)
        outcome.callbacks responses := by
  rw [BulkCall.reply_replyTerm hstatus, except_map_eq_ok_iff,
    ← mapM_except_eq_ok_iff]
  simp [okTerm]

/-- A reply that is a list of responses has one entry per callback, in callback
order. -/
theorem BulkCall.entries_of_reply {codec : Codec} {call : BulkCall}
    {outcome : Outcome Term} {responses : List Term}
    (h : call.reply codec outcome.replyTerm = .ok (okTerm (.list responses))) :
    List.Forall₂
      (fun callback response => call.entry codec callback = .ok response)
      outcome.callbacks responses := by
  cases hstatus : outcome.schedule.or outcome.wait with
  | some err =>
      rw [Outcome.replyTerm, hstatus] at h
      have hne : Except.ok err.toTerm ≠
          (Except.ok (okTerm (.list responses)) : Except Raise Term) := by
        simp [LcbError.toTerm, okTerm]
      cases call <;> exact absurd h hne
  | none => exact (BulkCall.reply_eq_ok_iff hstatus).mp h

/-! ## Answers of a worker -/

variable [LcbTypes]

/-- What `call/3` hands back when its request is executed by a worker facing
`lcb` and the response arrives in time.  A request the NIF rejects has no
response, and the call times out. -/
def worker (lcb : Lcb) (request : Request) : Term :=
  match request.operation with
  | some operation => operation.execute lcb
  | none => errorTerm (.atom "timeout")

theorem worker_eq_execute {lcb : Lcb} {request : Request}
    {operation : Operation} (h : request.operation = some operation) :
    worker lcb request = operation.execute lcb := by
  simp only [worker, h]

theorem BulkCall.run_worker {call : BulkCall} {codec : Codec} {lcb : Lcb}
    {request : Request} {operation : Operation} {outcome : Outcome Term}
    (hrequest : call.request codec = .ok request)
    (hoperation : request.operation = some operation)
    (houtcome : operation.batchOutcome lcb = some outcome)
    (casts : List Request) :
    ((call.run codec (worker lcb)).run.run casts).1 =
      call.reply codec outcome.replyTerm := by
  rw [BulkCall.run_result hrequest, worker_eq_execute hoperation,
    Operation.execute_eq_replyTerm houtcome]

end Cberl.Api
