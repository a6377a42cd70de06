import Cberl.Store.Simulation

/-!
# Sessions refine the reference store

A session is a sequence of calls on one connection.  The worker executes the
operations of the calls in the order of the calls, whether or not the caller
still waits for the response.
-/

namespace Cberl.Store

open Cberl Cberl.Support

/-! ## Replies -/

/-- `reply` is the list of the reference store's entries, up to the order of
entries with different keys. -/
def Answers (reply : Except Raise Term) (entries : List Term) : Prop :=
  ∃ responses, reply = .ok (Api.okTerm (.list responses)) ∧
    KeyEquiv Api.responseKey responses entries

/-- The entry of a callback, and the bare key where there is none. -/
def entryOf (codec : Codec) (call : Api.BulkCall)
    (callback : Callback Term) : Term :=
  match call.entry codec callback with
  | .ok entry => entry
  | .error _ => .tuple [.binary callback.key]

theorem entryOf_eq {codec : Codec} {call : Api.BulkCall}
    {callback : Callback Term} {entry : Term}
    (h : call.entry codec callback = .ok entry) :
    entryOf codec call callback = entry := by
  rw [entryOf, h]

theorem responseKey_entryOf (codec : Codec) (call : Api.BulkCall)
    (callback : Callback Term) :
    Api.responseKey (entryOf codec call callback) = some callback.key := by
  cases h : call.entry codec callback with
  | error raise =>
      rw [entryOf, h]
      rfl
  | ok entry =>
      rw [entryOf_eq h]
      exact Api.BulkCall.entry_key h

/-- Callbacks that agree key by key with callbacks whose entries are known make
a reply that agrees key by key with these entries. -/
theorem reply_of_keyEquiv {codec : Codec} {call : Api.BulkCall}
    {outcome : Outcome Term} {callbacks : List (Callback Term)}
    {entries : List Term}
    (hstatus : outcome.schedule.or outcome.wait = none)
    (hcallbacks : KeyEquiv Callback.key outcome.callbacks callbacks)
    (hentries : List.Forall₂
      (fun callback entry => call.entry codec callback = .ok entry)
      callbacks entries) :
    Answers (call.reply codec outcome.replyTerm) entries := by
  obtain rfl : entries = callbacks.map (entryOf codec call) :=
    forall₂_map_eq_iff.mp
      (hentries.imp fun _ _ hentry => (entryOf_eq hentry).symm)
  have hdefined : ∀ callback ∈ callbacks,
      call.entry codec callback = .ok (entryOf codec call callback) := by
    rwa [List.forall₂_map_right_iff, List.forall₂_same] at hentries
  refine ⟨outcome.callbacks.map (entryOf codec call), ?_, ?_⟩
  · rw [Api.BulkCall.reply_eq_ok_iff hstatus, List.forall₂_map_right_iff,
      List.forall₂_same]
    intro callback hmem
    exact hdefined callback (hcallbacks.mem_iff.mp hmem)
  · have hsome : Function.Injective (some : Bytes → Option Bytes) :=
      fun _ _ => Option.some.inj
    exact (hcallbacks.comp_injective hsome).map (entryOf codec call)
      (responseKey_entryOf codec call)

variable [LcbTypes]

/-- A batch served on a bucket, seen by its caller: the bucket moves as the
reference does, and the reply has the reference's entries. -/
theorem run_of_serves
    {P α α' V : Type} {codec : Codec} {call : Api.BulkCall} {lcb : Lcb}
    {request : Request} {operation : Operation} {payloadTerm : P → Term}
    {outcome : Outcome P} {commands : List α} {requests : List α'}
    {step : Option Item → α → Option Item × Except LcbError P}
    {refStep : V → α' → V × Term} {R : Option Item → V → Prop}
    {key : α → Bytes} {refKey : α' → Bytes} {C : α → α' → Prop}
    {bucket bucket' : Bucket} {store : Bytes → V}
    (hrequest : call.request codec = .ok request)
    (hoperation : request.operation = some operation)
    (houtcome :
      operation.batchOutcome lcb = some (outcome.render payloadTerm))
    (hserves : Serves step key bucket bucket' commands outcome)
    (hkey : ∀ {x x'}, C x x' → key x = refKey x')
    (hstep : ∀ {item value x x'}, R item value → C x x' →
      R (step item x).1 (refStep value x').1 ∧
        call.entry codec
            { key := key x, result := (step item x).2.map payloadTerm } =
          .ok (.tuple [.binary (refKey x'), (refStep value x').2]))
    (hstore : ∀ k, R (bucket k) (store k))
    (hrequests : List.Forall₂ C commands requests) :
    (∀ k, R (bucket' k) ((serve refStep refKey store requests).1 k)) ∧
      Answers ((call.run codec (Api.worker lcb)).run.run []).1
        ((serve refStep refKey store requests).2.map (refEntry refKey)) := by
  obtain ⟨hbucket, hcallbacks⟩ := hserves.in_order
  obtain ⟨hmaps, hlogs⟩ := serve_rel (C := C)
    (A := fun (answer : α × Except LcbError P) refAnswer =>
      call.entry codec
          { key := key answer.1, result := answer.2.map payloadTerm } =
        .ok (refEntry refKey refAnswer))
    hkey hstep hstore hrequests
  refine ⟨hbucket ▸ hmaps, ?_⟩
  rw [Api.BulkCall.run_worker hrequest hoperation houtcome]
  have hrendered : KeyEquiv Callback.key
      (outcome.render payloadTerm).callbacks _ :=
    hcallbacks.map _ fun _ => rfl
  refine reply_of_keyEquiv ?_ hrendered ?_
  · simp [Outcome.render, hserves.schedule, hserves.wait]
  · rw [List.map_map, List.forall₂_map_left_iff, List.forall₂_map_right_iff]
    exact hlogs

/-! ## One call -/

/-- The reference store answers every request once. -/
theorem Carries.length_answer {codec : Codec} {operation : Operation}
    {call : Call} {lcb : Lcb} {fresh : List LcbCas} {bucket bucket' : Bucket}
    (hcarries : Carries codec operation call)
    (hexecutes : Executes lcb fresh operation bucket bucket')
    (store : RefStore) : (call.answer fresh store).2.length = call.size := by
  cases hexecutes with
  | @store carried _ _ hfresh _ =>
      cases call with
      | store requests =>
          have hlength : carried.length = requests.length :=
            List.Forall₂.length_eq hcarries
          simp [Call.answer, Call.size, length_serve, hfresh, hlength]
      | _ => exact hcarries.elim
  | get _ =>
      cases call with
      | get keys => simp [Call.answer, Call.size, length_serve]
      | _ => exact hcarries.elim
  | remove _ =>
      cases call with
      | remove requests => simp [Call.answer, Call.size, length_serve]
      | _ => exact hcarries.elim

/-- One plain call whose operation is executed: the bucket moves as the
reference store does, and the reply has the reference store's entries. -/
theorem call_refines {codec : Codec} {call : Call} {lcb : Lcb}
    {fresh : List LcbCas} {request : Request} {operation : Operation}
    {bucket bucket' : Bucket} {store : RefStore}
    (hplain : call.Plain codec)
    (hrequest : call.bulk.request codec = .ok request)
    (hoperation : request.operation = some operation)
    (hexecutes : Executes lcb fresh operation bucket bucket')
    (hstore : Represents codec bucket store) :
    Represents codec bucket' (call.answer fresh store).1 ∧
      Answers ((call.bulk.run codec (Api.worker lcb)).run.run []).1
        (call.answer fresh store).2 := by
  obtain ⟨_, _, hrequest', hoperation', hcarries⟩ := call.carried hplain
  obtain rfl := Except.ok.inj (hrequest.symm.trans hrequest')
  obtain rfl := Option.some.inj (hoperation.symm.trans hoperation')
  cases hexecutes with
  | @store carried _ _ hfresh hserves =>
      cases call with
      | store requests =>
          have hboth : List.Forall₂
              (fun command request =>
                PlainStore codec request ∧ ∃ carried,
                  StoreCarried codec carried request ∧
                    command = StoreCmd.ofRequest carried)
              (carried.map StoreCmd.ofRequest) requests := by
            rw [List.forall₂_map_left_iff]
            have hflip := (List.forall₂_and_left requests carried).mpr
              ⟨hplain, hcarries.flip⟩
            exact hflip.flip.imp fun _ _ h => ⟨h.1, _, h.2, rfl⟩
          refine run_of_serves hrequest hoperation rfl hserves
            ?_ ?_ hstore (forall₂_zip hboth fresh)
          · rintro _ _ ⟨⟨-, carried, hcarried, hcommand⟩, -⟩
            rw [hcommand]
            exact hcarried.key
          · rintro item value ⟨_, cas⟩ ⟨request, _⟩ hitem
              ⟨⟨hplain, carried, hcarried, rfl⟩, rfl⟩
            obtain ⟨hitem', hanswer⟩ :=
              storeStep_simulates hitem hcarried hplain.operation cas
            exact ⟨hitem', congrArg Except.ok hanswer⟩
      | _ => exact hcarries.elim
  | @get carried _ _ hserves =>
      cases call with
      | get keys =>
          refine run_of_serves hrequest hoperation rfl hserves
            (C := fun command key => ∃ carried, GetCarried carried key ∧
              command = GetCmd.ofRequest carried)
            ?_ ?_ hstore ?_
          · rintro _ _ ⟨carried, hcarried, rfl⟩
            exact hcarried.key
          · rintro item value _ _ hitem ⟨carried, hcarried, rfl⟩
            exact getStep_simulates hitem hcarried
          · rw [List.forall₂_map_left_iff]
            exact hcarries.imp fun _ _ hcarried => ⟨_, hcarried, rfl⟩
      | _ => exact hcarries.elim
  | @remove carried _ _ hserves =>
      cases call with
      | remove requests =>
          refine run_of_serves hrequest hoperation rfl hserves
            (C := fun command request => ∃ carried,
              RemoveCarried carried request ∧
                command = RemoveCmd.ofRequest carried)
            ?_ ?_ hstore ?_
          · rintro _ _ ⟨carried, hcarried, rfl⟩
            exact hcarried.key
          · rintro item value _ _ hitem ⟨carried, hcarried, rfl⟩
            obtain ⟨hitem', hanswer⟩ := removeStep_simulates hitem hcarried
            exact ⟨hitem', congrArg Except.ok hanswer⟩
          · rw [List.forall₂_map_left_iff]
            exact hcarries.imp fun _ _ hcarried => ⟨_, hcarried, rfl⟩
      | _ => exact hcarries.elim

/-! ## Sessions -/

/-- What becomes of the cast of a call: the response arrives in time, or the
operation is executed and its response comes too late, or it is never
executed. -/
inductive Delivery where
  | answered
  | late
  | lost
  deriving DecidableEq

/-- One call of a session, with what libcouchbase does for its operation. -/
structure Exchange where
  call : Call
  lcb : Lcb
  fresh : List LcbCas
  delivery : Delivery

namespace Exchange

/-- What `call/3` hands back. -/
def answer (exchange : Exchange) : Request → Term :=
  match exchange.delivery with
  | .answered => Api.worker exchange.lcb
  | .late => fun _ => Api.errorTerm (.atom "timeout")
  | .lost => fun _ => Api.errorTerm (.atom "timeout")

/-- What the API function returns. -/
def reply (codec : Codec) (exchange : Exchange) : Except Raise Term :=
  ((exchange.call.bulk.run codec exchange.answer).run.run []).1

/-- What the exchange does to the bucket. -/
inductive Effect (codec : Codec) (exchange : Exchange) :
    Bucket → Bucket → Prop
  | lost {bucket : Bucket} (hlost : exchange.delivery = .lost) :
      Effect codec exchange bucket bucket
  | executed {bucket bucket' : Bucket} {request : Request}
      {operation : Operation}
      (hdelivery : exchange.delivery ≠ .lost)
      (hrequest : exchange.call.bulk.request codec = .ok request)
      (hoperation : request.operation = some operation)
      (hexecutes :
        Executes exchange.lcb exchange.fresh operation bucket bucket') :
      Effect codec exchange bucket bucket'

/-- What the exchange does to the reference store, and its entries. -/
def refer (store : RefStore) (exchange : Exchange) : RefStore × List Term :=
  match exchange.delivery with
  | .lost => (store, [])
  | _ => exchange.call.answer exchange.fresh store

/-- An answered exchange returns exactly one entry per request, and the entries
of one key are the given ones in request order. -/
def Refines (codec : Codec) (exchange : Exchange) (entries : List Term) :
    Prop :=
  exchange.delivery = .answered →
    entries.length = exchange.call.size ∧
      Answers (exchange.reply codec) entries

theorem Effect.refines {codec : Codec} {exchange : Exchange}
    {bucket bucket' : Bucket} {store : RefStore}
    (heffect : exchange.Effect codec bucket bucket')
    (hplain : exchange.call.Plain codec)
    (hstore : Represents codec bucket store) :
    Represents codec bucket' (exchange.refer store).1 ∧
      exchange.Refines codec (exchange.refer store).2 := by
  cases heffect with
  | lost hlost =>
      rw [refer, hlost]
      refine ⟨hstore, ?_⟩
      intro hanswered
      rw [hlost] at hanswered
      cases hanswered
  | executed hdelivery hrequest hoperation hexecutes =>
      have hrefer :
          exchange.refer store = exchange.call.answer exchange.fresh store := by
        unfold refer
        split
        next hlost => exact absurd hlost hdelivery
        next => rfl
      obtain ⟨_, _, hrequest', hoperation', hcarries⟩ :=
        exchange.call.carried hplain
      obtain rfl := Except.ok.inj (hrequest.symm.trans hrequest')
      obtain rfl := Option.some.inj (hoperation.symm.trans hoperation')
      obtain ⟨hbucket, hanswers⟩ :=
        call_refines hplain hrequest hoperation hexecutes hstore
      rw [hrefer]
      refine ⟨hbucket, ?_⟩
      intro hanswered
      refine ⟨hcarries.length_answer hexecutes store, ?_⟩
      rw [reply, answer, hanswered]
      exact hanswers

end Exchange

/-- The exchanges of a session act on the bucket in their order. -/
inductive Session (codec : Codec) : List Exchange → Bucket → Bucket → Prop
  | nil {bucket : Bucket} : Session codec [] bucket bucket
  | cons {exchange : Exchange} {exchanges : List Exchange}
      {bucket bucket' bucket'' : Bucket}
      (heffect : exchange.Effect codec bucket bucket')
      (hrest : Session codec exchanges bucket' bucket'') :
      Session codec (exchange :: exchanges) bucket bucket''

/-- The session on the reference store: its final state and the entries of
every exchange. -/
def referSession : RefStore → List Exchange → RefStore × List (List Term)
  | store, [] => (store, [])
  | store, exchange :: exchanges =>
      let (store', entries) := exchange.refer store
      let (store'', answers) := referSession store' exchanges
      (store'', entries :: answers)

/-- The CAS the store is given. -/
def sevenCas : LcbCas := ⟨7, by decide⟩

def storeSeven : Api.StoreRequest :=
  { operation := .set, key := [1], value := .int 7, encoder := .raw
    cas := 0, expiry := 0 }

def carriedSeven : StoreRequest :=
  { operation := Api.storeOperationId .set
    key := [1]
    value := Codec.digits.termToBinary (.int 7)
    flags := Api.encoderFlags .raw
    cas := ⟨(0 : ℕ), IntType.contains_zero _⟩
    expiry := ⟨(0 : ℕ), time_contains_zero⟩ }

/-- The key exists by the time of the add. -/
def addSeven : Api.StoreRequest :=
  { storeSeven with operation := .add }

def carriedAdd : StoreRequest :=
  { carriedSeven with operation := Api.storeOperationId .add }

/-- The bucket that holds the stored value. -/
def sevenBucket : Bucket :=
  (serve storeStep (fun entry => entry.1.key) (fun _ => none)
    [(StoreCmd.ofRequest carriedSeven, sevenCas),
      (StoreCmd.ofRequest carriedAdd, sevenCas)]).1

/-- The add of the first call fails, the get asks for one key twice and for a
missing one, and the response to the removal comes too late. -/
def sevenSession : List Exchange :=
  [{ call := .store [storeSeven, addSeven]
     lcb := Lcb.serving (fun _ => none) [sevenCas, sevenCas]
     fresh := [sevenCas, sevenCas]
     delivery := .answered },
    { call := .get [[1], [2], [1]]
      lcb := Lcb.serving sevenBucket []
      fresh := []
      delivery := .answered },
    { call := .remove [{ key := [1], cas := 0 }]
      lcb := Lcb.serving sevenBucket []
      fresh := []
      delivery := .late }]

end Cberl.Store
