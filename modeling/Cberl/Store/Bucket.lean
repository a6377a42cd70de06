import Cberl.Connection.Operations
import Cberl.Support.KeyedOrder

/-!
# The bucket behind libcouchbase

What the repository relies on but does not contain: a map from keys to items
with memcached's rules for the store operations, and libcouchbase executing the
commands of one operation on it.  Commands for different keys may be executed,
and answered, in any order; commands for one key keep their order.  Items do
not expire, gets neither touch nor lock, and nobody else writes.
-/

namespace Cberl.Store

open Cberl Cberl.Support

structure Item where
  bytes : Bytes
  flags : IntType.uint32.Val
  cas : LcbCas

abbrev Bucket := Bytes → Option Item

/-! ## Rules -/

/-- A zero CAS matches every item. -/
def casVerdict (cas : ℤ) (current : LcbCas) : Option LcbError :=
  if cas = 0 ∨ cas = current.val then none else some .keyEexists

/-- Why a store operation is refused, given the CAS of the item at its key;
`none` lets it through. -/
def storeVerdict (operation : ℤ) (present : Option LcbCas) (cas : ℤ) :
    Option LcbError :=
  match operation, present with
  | 1, none => none
  | 1, some _ => some .keyEexists
  | 2, none => some .keyEnoent
  | 2, some current => casVerdict cas current
  | 3, none => if cas = 0 then none else some .keyEnoent
  | 3, some current => casVerdict cas current
  | 4, none => some .notStored
  | 4, some current => casVerdict cas current
  | 5, none => some .notStored
  | 5, some current => casVerdict cas current
  | _, _ => some .einval

def removeStep (item : Option Item) (command : RemoveCmd) :
    Option Item × Except LcbError Unit :=
  match item with
  | none => (none, .error .keyEnoent)
  | some item =>
      match casVerdict command.cas.val item.cas with
      | some err => (some item, .error err)
      | none => (none, .ok ())

/-! ## One operation -/

/-- The callback that answers a command. -/
def answerOf {α P : Type} (key : α → Bytes) (entry : α × Except LcbError P) :
    Callback P :=
  { key := key entry.1, result := entry.2 }

/-- libcouchbase executes `commands` on `bucket` and runs the callbacks of
`outcome`. -/
structure Serves {α P : Type}
    (step : Option Item → α → Option Item × Except LcbError P)
    (key : α → Bytes) (bucket bucket' : Bucket) (commands : List α)
    (outcome : Outcome P) : Prop where
  schedule : outcome.schedule = none
  wait : outcome.wait = none
  served : ∃ arrival, KeyEquiv key arrival commands ∧
    bucket' = (serve step key bucket arrival).1 ∧
    KeyEquiv Callback.key outcome.callbacks
      ((serve step key bucket arrival).2.map (answerOf key))

/-- The freedom of order is invisible in the bucket, and key by key in the
callbacks. -/
theorem Serves.in_order {α P : Type}
    {step : Option Item → α → Option Item × Except LcbError P}
    {key : α → Bytes} {bucket bucket' : Bucket} {commands : List α}
    {outcome : Outcome P}
    (h : Serves step key bucket bucket' commands outcome) :
    bucket' = (serve step key bucket commands).1 ∧
      KeyEquiv Callback.key outcome.callbacks
        ((serve step key bucket commands).2.map (answerOf key)) := by
  obtain ⟨arrival, harrival, hbucket, hcallbacks⟩ := h.served
  obtain ⟨hmaps, hlogs⟩ := serve_congr step bucket harrival
  refine ⟨hbucket.trans hmaps, hcallbacks.trans ?_⟩
  exact hlogs.map (answerOf key) fun _ => rfl

theorem Serves.singleton {α P : Type}
    {step : Option Item → α → Option Item × Except LcbError P}
    {key : α → Bytes} {bucket bucket' : Bucket} {command : α}
    {outcome : Outcome P}
    (h : Serves step key bucket bucket' [command] outcome) :
    bucket' = Function.update bucket (key command)
        (step (bucket (key command)) command).1 ∧
      outcome.callbacks =
        [{ key := key command
           result := (step (bucket (key command)) command).2 }] := by
  obtain ⟨hbucket, hcallbacks⟩ := h.in_order
  exact ⟨hbucket, List.perm_singleton.mp hcallbacks.perm⟩

/-- The outcome of serving the commands in the order given. -/
def inOrder {α P : Type}
    (step : Option Item → α → Option Item × Except LcbError P)
    (key : α → Bytes) (bucket : Bucket) (commands : List α) : Outcome P :=
  { schedule := none
    callbacks := (serve step key bucket commands).2.map (answerOf key)
    wait := none }

theorem serves_inOrder {α P : Type}
    (step : Option Item → α → Option Item × Except LcbError P)
    (key : α → Bytes) (bucket : Bucket) (commands : List α) :
    Serves step key bucket (serve step key bucket commands).1 commands
      (inOrder step key bucket commands) where
  schedule := rfl
  wait := rfl
  served := ⟨commands, .refl key commands, rfl, .refl _ _⟩

variable [LcbTypes]

def getStep (item : Option Item) (_ : GetCmd) :
    Option Item × Except LcbError GetPayload :=
  match item with
  | none => (none, .error .keyEnoent)
  | some item =>
      (some item,
        .ok { cas := item.cas, flags := item.flags, value := item.bytes })

/-- The item an accepted store operation leaves. -/
def written (item : Option Item) (command : StoreCmd) (fresh : LcbCas) : Item :=
  match command.operation.val, item with
  | 4, some item =>
      { item with bytes := item.bytes ++ command.bytes, cas := fresh }
  | 5, some item =>
      { item with bytes := command.bytes ++ item.bytes, cas := fresh }
  | _, _ => { bytes := command.bytes, flags := command.flags, cas := fresh }

/-- A store command together with the CAS that the server will give. -/
def storeStep (item : Option Item) (entry : StoreCmd × LcbCas) :
    Option Item × Except LcbError LcbCas :=
  match storeVerdict entry.1.operation.val (item.map Item.cas)
    entry.1.cas.val with
  | some err => (item, .error err)
  | none => (some (written item entry.1 entry.2), .ok entry.2)

/-- libcouchbase executes an operation on `bucket`, giving the fresh CAS values
to the successful stores. -/
inductive Executes (lcb : Lcb) (fresh : List LcbCas) :
    Operation → Bucket → Bucket → Prop
  | get {requests : List GetRequest} {bucket bucket' : Bucket}
      (hserves : Serves getStep GetCmd.key bucket bucket'
        (requests.map GetCmd.ofRequest)
        (lcb.get (requests.map GetCmd.ofRequest))) :
      Executes lcb fresh (.get requests) bucket bucket'
  | store {requests : List StoreRequest} {bucket bucket' : Bucket}
      (hfresh : fresh.length = requests.length)
      (hserves : Serves storeStep (fun entry => entry.1.key) bucket bucket'
        ((requests.map StoreCmd.ofRequest).zip fresh)
        (lcb.store (requests.map StoreCmd.ofRequest))) :
      Executes lcb fresh (.store requests) bucket bucket'
  | remove {requests : List RemoveRequest} {bucket bucket' : Bucket}
      (hserves : Serves removeStep RemoveCmd.key bucket bucket'
        (requests.map RemoveCmd.ofRequest)
        (lcb.remove (requests.map RemoveCmd.ofRequest))) :
      Executes lcb fresh (.remove requests) bucket bucket'

/-- The libcouchbase that serves the commands of its operation in order. -/
def Lcb.serving (bucket : Bucket) (fresh : List LcbCas) : Lcb :=
  { Lcb.silent with
    get := inOrder getStep GetCmd.key bucket
    store := fun commands =>
      inOrder storeStep (fun entry => entry.1.key) bucket (commands.zip fresh)
    remove := inOrder removeStep RemoveCmd.key bucket }

end Cberl.Store
