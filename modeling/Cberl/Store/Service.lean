import Cberl.Store.Refinement

/-!
# Calls whose commands act key by key

A bulk call becomes one operation, and libcouchbase executes its commands one by
one.  A service is a kind of such calls together with the state of a reference
object: each command acts on the item at its own key as its request acts on the
reference state.
-/

namespace Cberl.Store

open Cberl

variable [LcbTypes]

/-- A kind of bulk calls with their requests and commands. -/
structure CallKind where
  codec : Codec
  Call : Type
  /-- One request of a call. -/
  Single : Type
  Command : Type
  bulk : Call → Api.BulkCall
  /-- The calls that the API functions carry to libcouchbase as they are. -/
  Plain : Call → Prop
  singles : Call → List Single
  commandsOf : Operation → List Command
  key : Command → Bytes
  /-- The command on the item at its key, with the CAS that it may be given: the
  item it leaves and the result its callback reports. -/
  act : LcbCas → Option Item → Command → Option Item × Except LcbError Term
  /-- The entry that the bulk function makes of the callback of a command. -/
  response : Command → Callback Term → Except Raise Term
  /-- The command is what becomes of the request. -/
  Carries : Command → Single → Prop

namespace CallKind

variable (κ : CallKind)

/-- The operation is what becomes of the call. -/
structure Becomes (call : κ.Call) (operation : Operation) : Prop where
  commands : List.Forall₂ κ.Carries (κ.commandsOf operation) (κ.singles call)
  entry : ∀ command ∈ κ.commandsOf operation, ∀ callback,
    (κ.bulk call).entry κ.codec callback = κ.response command callback
  outcome : ∀ lcb, ∃ outcome, operation.batchOutcome lcb = some outcome

/-- The callback of a command executed on `item`. -/
def callback (fresh : LcbCas) (item : Option Item) (command : κ.Command) :
    Callback Term :=
  { key := κ.key command, result := (κ.act fresh item command).2 }

/-- The entry, and the bare callback where there is none. -/
def entry (command : κ.Command) (callback : Callback Term) : Term :=
  match κ.response command callback with
  | .ok entry => entry
  | .error _ => callback.toTerm

/-- The bucket after a command. -/
def execute (fresh : LcbCas) (bucket : Bucket) (command : κ.Command) : Bucket :=
  Function.update bucket (κ.key command)
    (κ.act fresh (bucket (κ.key command)) command).1

/-- The bulk function returns these entries, key by key in their order. -/
def Reply (call : κ.Call) (body : Term) (entries : List Term) : Prop :=
  Answers ((κ.bulk call).reply κ.codec body) entries

end CallKind

/-- The calls act on the bucket as their requests act on a reference state. -/
structure Service extends CallKind where
  RefState : Type
  Represents : Bucket → RefState → Prop
  /-- One request on the reference state, and its entry in the reply. -/
  Apply : RefState → Single → Term → RefState → Prop
  carried : ∀ {call : Call}, Plain call → ∃ request operation,
    (bulk call).request codec = .ok request ∧
      request.operation = some operation ∧ toCallKind.Becomes call operation
  refApply : ∀ {command : Command} {single : Single}, Carries command single →
    ∀ {bucket : Bucket} {state : RefState}, Represents bucket state →
    ∀ fresh, ∃ state' entry,
      response command
          (toCallKind.callback fresh (bucket (key command)) command) = .ok entry ∧
        Apply state single entry state' ∧
        Represents (toCallKind.execute fresh bucket command) state'

end Cberl.Store
