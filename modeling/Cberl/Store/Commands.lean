import Cberl.Store.Service

/-!
# Commands one by one

A get, store or remove operation hands libcouchbase one command per request.
Each command acts on the item at its own key, as its request acts on the
reference store.
-/

namespace Cberl.Store

open Cberl Cberl.Support

/-! ## Requests -/

/-- One request of a call. -/
inductive Single where
  | store (request : Api.StoreRequest)
  | get (key : Bytes)
  | remove (request : Api.RemoveRequest)

def Single.key : Single → Bytes
  | store request => request.key
  | get key => key
  | remove request => request.key

/-- The request on the value at its key, with the CAS a store is given. -/
def Single.answer (fresh : LcbCas) (value : Option (Term × LcbCas)) :
    Single → Option (Term × LcbCas) × Term
  | store request => refStore value (request, fresh)
  | get key => refGet value key
  | remove request => refRemove value request

/-- One request on the reference store, and its entry in the reply. -/
def RefApply (store : RefStore) (single : Single) (entry : Term)
    (store' : RefStore) : Prop :=
  ∃ fresh,
    store' = Function.update store single.key
      (single.answer fresh (store single.key)).1 ∧
    entry = .tuple [.binary single.key,
      (single.answer fresh (store single.key)).2]

def Call.singles : Call → List Single
  | .store requests => requests.map .store
  | .get keys => keys.map .get
  | .remove requests => requests.map .remove

/-! ## Commands -/

variable [LcbTypes]

inductive Command where
  | get (command : GetCmd)
  | store (command : StoreCmd)
  | remove (command : RemoveCmd)

/-- The commands of a key-value operation. -/
def commandsOf : Operation → List Command
  | .get requests => requests.map fun request =>
      .get (GetCmd.ofRequest request)
  | .store requests => requests.map fun request =>
      .store (StoreCmd.ofRequest request)
  | .remove requests => requests.map fun request =>
      .remove (RemoveCmd.ofRequest request)
  | _ => []

namespace Command

def key : Command → Bytes
  | get command => command.key
  | store command => command.key
  | remove command => command.key

/-- The command on the item at its key: the item it leaves and the result its
callback reports. -/
def act (fresh : LcbCas) (item : Option Item) :
    Command → Option Item × Except LcbError Term
  | get command =>
      ((getStep item command).1,
        (getStep item command).2.map GetPayload.toTerm)
  | store command =>
      ((storeStep item (command, fresh)).1,
        (storeStep item (command, fresh)).2.map casTerm)
  | remove command =>
      ((removeStep item command).1,
        (removeStep item command).2.map fun _ => .atom "ok")

/-- The entry an API function makes of the callback of a command. -/
def response (codec : Codec) (command : Command) (callback : Callback Term) :
    Except Raise Term :=
  match command with
  | get _ => Api.decodeResponse codec callback.toTerm
  | _ => .ok callback.toTerm

/-- The command is what becomes of the request. -/
inductive Carries (codec : Codec) : Command → Single → Prop
  | store {carried : StoreRequest} {request : Api.StoreRequest}
      (hplain : PlainStore codec request)
      (hcarried : StoreCarried codec carried request) :
      Carries codec (.store (StoreCmd.ofRequest carried)) (.store request)
  | get {carried : GetRequest} {key : Bytes} (hcarried : GetCarried carried key) :
      Carries codec (.get (GetCmd.ofRequest carried)) (.get key)
  | remove {carried : RemoveRequest} {request : Api.RemoveRequest}
      (hcarried : RemoveCarried carried request) :
      Carries codec (.remove (RemoveCmd.ofRequest carried)) (.remove request)

end Command

variable {codec : Codec} {command : Command} {single : Single}
  {operation : Operation} {call : Call}

theorem Command.Carries.key (h : command.Carries codec single) :
    command.key = single.key := by
  cases h with
  | store hplain hcarried => exact hcarried.key
  | get hcarried => exact hcarried.key
  | remove hcarried => exact hcarried.key

/-- A command acts on an item as its request acts on the value of the item, and
the caller gets the entry of the request. -/
theorem Command.Carries.simulates (h : command.Carries codec single)
    {item : Option Item} {value : Option (Term × LcbCas)}
    (hitem : RepresentsAt codec item value) (fresh : LcbCas) :
    RepresentsAt codec (command.act fresh item).1
        (single.answer fresh value).1 ∧
      command.response codec
          { key := command.key, result := (command.act fresh item).2 } =
        .ok (.tuple [.binary single.key, (single.answer fresh value).2]) := by
  cases h with
  | store hplain hcarried =>
      obtain ⟨hitem', hentry⟩ :=
        storeStep_simulates hitem hcarried hplain.operation fresh
      exact ⟨hitem', congrArg Except.ok hentry⟩
  | get hcarried => exact getStep_simulates hitem hcarried
  | remove hcarried =>
      obtain ⟨hitem', hentry⟩ := removeStep_simulates hitem hcarried
      exact ⟨hitem', congrArg Except.ok hentry⟩

/-- The commands of a plain call's operation are its requests, one by one. -/
theorem Carries.commands (hcarries : Carries codec operation call)
    (hplain : call.Plain codec) :
    List.Forall₂ (Command.Carries codec) (commandsOf operation)
      call.singles := by
  cases call with
  | store requests =>
      cases operation with
      | store carried =>
          simp only [commandsOf, Call.singles, List.forall₂_map_left_iff,
            List.forall₂_map_right_iff]
          have hboth := (List.forall₂_and_left requests carried).mpr
            ⟨hplain, hcarries.flip⟩
          exact hboth.flip.imp fun _ _ h => .store h.1 h.2
      | _ => exact hcarries.elim
  | get keys =>
      cases operation with
      | get carried =>
          simp only [commandsOf, Call.singles, List.forall₂_map_left_iff,
            List.forall₂_map_right_iff]
          exact hcarries.imp fun _ _ h => .get h
      | _ => exact hcarries.elim
  | remove requests =>
      cases operation with
      | remove carried =>
          simp only [commandsOf, Call.singles, List.forall₂_map_left_iff,
            List.forall₂_map_right_iff]
          exact hcarries.imp fun _ _ h => .remove h
      | _ => exact hcarries.elim

/-- What the bulk function does with the callbacks of a call is what each
command's own post-processing does. -/
theorem Carries.entry_eq (hcarries : Carries codec operation call)
    (hcommand : command ∈ commandsOf operation) (callback : Callback Term) :
    call.bulk.entry codec callback = command.response codec callback := by
  cases call with
  | store requests =>
      cases operation with
      | store carried =>
          obtain ⟨request, -, rfl⟩ := List.mem_map.mp hcommand
          rfl
      | _ => exact hcarries.elim
  | get keys =>
      cases operation with
      | get carried =>
          obtain ⟨request, -, rfl⟩ := List.mem_map.mp hcommand
          rfl
      | _ => exact hcarries.elim
  | remove requests =>
      cases operation with
      | remove carried =>
          obtain ⟨request, -, rfl⟩ := List.mem_map.mp hcommand
          rfl
      | _ => exact hcarries.elim

/-- A command on the bucket is its request on the reference store. -/
theorem Command.Carries.refApply (h : command.Carries codec single)
    {bucket : Bucket} {store : RefStore} (hstore : Represents codec bucket store)
    (fresh : LcbCas) :
    ∃ store' entry,
      command.response codec
          { key := command.key
            result := (command.act fresh (bucket command.key)).2 } = .ok entry ∧
        RefApply store single entry store' ∧
        Represents codec
          (Function.update bucket command.key
            (command.act fresh (bucket command.key)).1) store' := by
  have hkey := h.key
  obtain ⟨hitem, hresponse⟩ := h.simulates (hstore single.key) fresh
  rw [hkey] at hresponse ⊢
  refine ⟨_, _, hresponse, ⟨fresh, rfl, rfl⟩, ?_⟩
  intro k
  by_cases hk : k = single.key
  · subst hk
    simpa using hitem
  · simpa [hk] using hstore k

/-- A key-value operation is not an HTTP request. -/
theorem Carries.exists_outcome (hcarries : Carries codec operation call)
    (lcb : Lcb) : ∃ outcome, operation.batchOutcome lcb = some outcome := by
  cases operation with
  | http request => cases call <;> exact hcarries.elim
  | _ => exact ⟨_, rfl⟩

/-! ## The service -/

/-- Plain gets, stores and removes, explained by the reference store. -/
@[reducible]
def keyValue (codec : Codec) : Service where
  codec := codec
  Call := Call
  Single := Single
  Command := Command
  bulk := Call.bulk
  Plain := Call.Plain codec
  singles := Call.singles
  commandsOf := commandsOf
  key := Command.key
  act := Command.act
  response := Command.response codec
  Carries := Command.Carries codec
  RefState := RefStore
  Represents := Represents codec
  Apply := RefApply
  carried := by
    intro call hplain
    obtain ⟨request, operation, hrequest, hoperation, hcarries⟩ :=
      call.carried hplain
    exact ⟨request, operation, hrequest, hoperation, {
      commands := hcarries.commands hplain
      entry := fun _ hcommand callback => hcarries.entry_eq hcommand callback
      outcome := hcarries.exists_outcome }⟩
  refApply := fun hcarries _ _ hstore fresh => hcarries.refApply hstore fresh

end Cberl.Store
