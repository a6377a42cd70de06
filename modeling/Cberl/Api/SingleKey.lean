import Cberl.Api.BulkCalls

/-!
# Functions on one key

Each of the five functions on one key calls its bulk function with a singleton
and unwraps the one response.
-/

namespace Cberl.Api

open Cberl Cberl.Support

theorem bind_evaluate_run (body : ApiM Term) (unwrap : Term → Except Raise Term)
    (casts : List Request) :
    (do let result ← body; evaluate (unwrap result) : ApiM Term).run.run casts =
      let (result, casts') := body.run.run casts
      (result.bind unwrap, casts') := by
  rw [ExceptT.run_bind, StateT.run_bind]
  rcases body.run.run casts with ⟨result, casts'⟩
  cases result with
  | error raise => rfl
  | ok result => exact evaluate_run casts' (unwrap result)

/-- One call of a function on one key. -/
inductive KeyCall where
  | get (request : GetRequest)
  | store (request : StoreRequest)
  | remove (request : RemoveRequest)
  | arithmetic (request : ArithmeticRequest)
  | durability (request : DurabilityRequest) (options : DurabilityOptions)

namespace KeyCall

def key : KeyCall → Bytes
  | get request => request.key
  | store request => request.key
  | remove request => request.key
  | arithmetic request => request.key
  | durability request _ => request.key

/-- The bulk call it makes. -/
def bulk : KeyCall → BulkCall
  | get request => .get [request]
  | store request => .store [request]
  | remove request => .remove [request]
  | arithmetic request => .arithmetic [request]
  | durability request options => .durability [request] options

/-- The results its `case` has a clause for. -/
def shape : KeyCall → ResultShape
  | get _ => .okCasValue
  | store _ => .okCas
  | remove _ => .ok
  | arithmetic _ => .okCasValue
  | durability _ _ => .okCas

/-- The function itself. -/
def run (codec : Codec) (answer : Request → Term) : KeyCall → ApiM Term
  | get request => Api.get codec answer request
  | store request => Api.store codec answer request
  | remove request => Api.remove answer request
  | arithmetic request => Api.arithmetic answer request
  | durability request options => Api.durability answer request options

/-- A function on one key casts what its bulk function casts and unwraps what
it returns. -/
theorem run_eq (call : KeyCall) {codec : Codec} {answer : Request → Term}
    (casts : List Request) :
    (call.run codec answer).run.run casts =
      let (result, casts') := (call.bulk.run codec answer).run.run casts
      (result.bind (single call.shape call.key), casts') := by
  cases call <;> exact bind_evaluate_run _ _ casts

theorem run_result (call : KeyCall) {codec : Codec} {answer : Request → Term}
    (casts : List Request) :
    ((call.run codec answer).run.run casts).1 =
      ((call.bulk.run codec answer).run.run casts).1.bind
        (single call.shape call.key) := by
  rw [run_eq]
  rfl

end KeyCall

theorem single_singleton {shape : ResultShape} {key : Bytes} {result : Term}
    (h : shape.accepts result) :
    single shape key (okTerm (.list [.tuple [.binary key, result]])) =
      .ok result := by
  simp [single, okTerm, Term.list, h]

/-! ## One command, one callback -/

theorem BulkCall.reply_singleton {codec : Codec} {call : BulkCall}
    {outcome : Outcome Term} {callback : Callback Term}
    (hstatus : outcome.schedule.or outcome.wait = none)
    (hcallbacks : outcome.callbacks = [callback]) :
    call.reply codec outcome.replyTerm =
      (call.entry codec callback).map fun entry => okTerm (.list [entry]) := by
  rw [BulkCall.reply_replyTerm hstatus, hcallbacks, List.mapM_cons]
  cases call.entry codec callback <;> rfl

variable [LcbTypes]

/-- When its one command is answered by one callback, a function on one key
returns what it unwraps from that callback's entry. -/
theorem KeyCall.run_worker {call : KeyCall} {codec : Codec} {lcb : Lcb}
    {request : Request} {operation : Operation} {outcome : Outcome Term}
    {callback : Callback Term}
    (hrequest : call.bulk.request codec = .ok request)
    (hoperation : request.operation = some operation)
    (houtcome : operation.batchOutcome lcb = some outcome)
    (hstatus : outcome.schedule.or outcome.wait = none)
    (hcallbacks : outcome.callbacks = [callback]) (casts : List Request) :
    ((call.run codec (worker lcb)).run.run casts).1 =
      (call.bulk.entry codec callback).bind fun entry =>
        single call.shape call.key (okTerm (.list [entry])) := by
  rw [run_result, BulkCall.run_worker hrequest hoperation houtcome,
    BulkCall.reply_singleton hstatus hcallbacks]
  cases call.bulk.entry codec callback <;> rfl

end Cberl.Api
