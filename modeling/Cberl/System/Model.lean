import Cberl.Connection.Operations
import Cberl.Support.LabelledRun
import Cberl.Support.SelectiveReceive
import Mathlib.Logic.Function.Basic

/-!
# Callers, connection servers and workers

The processes behind `cberl:call/3`: any number of callers, any number of
connection servers, and behind each server one client with its queue of posted
handlers and its single worker thread.  Signals from one process to another
keep their order, so the casts from a caller to a server form a queue; the
messages to a caller come from two senders, so their bag has no order.

A response message and a posted job carry the reference of the call they
belong to.  The source has no such field, and no step looks at it.
-/

namespace Cberl.System

open Cberl Cberl.Support

variable [LcbTypes]

abbrev ServerId := ℕ

/-- What `make_ref()` returns. -/
abbrev Ref := ℕ

/-- `{request, Ref, From, {Function, Args}}` -/
structure Cast where
  ref : Ref
  sender : Pid
  request : Request

/-- A message to a caller. -/
inductive Message where
  /-- `{Ref, {ok, ReqId}}` from the server. -/
  | accepted (ref : Ref) (id : RequestId)
  /-- `{ReqId, Response}` from the worker that executed the call `tag`. -/
  | response (id : RequestId) (body : Term) (tag : Ref)
  /-- A message of neither form. -/
  | other (content : Term)

/-- Where a caller is in `call/3`: outside, in the first
`receive_response/2`, or in the second. -/
inductive CallPhase where
  | idle
  | awaitRef (server : ServerId) (ref : Ref)
  | awaitResponse (ref : Ref) (id : RequestId)

/-- `#state{}` of a connection server. -/
structure ServerState where
  client : ℕ
  connection : ℕ

/-- The worker thread: between handlers, inside the operation of one, or about
to send its response. -/
inductive Worker where
  | idle
  | running (ref : Ref) (job : Job)
  | finished (ref : Ref) (job : Job) (body : Term)

/-- The state of all processes and of the signals between them. -/
structure State where
  phase : Pid → CallPhase
  mailbox : Pid → List Message
  casts : Pid × ServerId → List Cast
  alive : ServerId → Bool
  server : ServerId → ServerState
  inbox : ServerId → List Cast
  queue : ServerId → List (Ref × Job)
  worker : ServerId → Worker
  flight : List (Pid × Message)

/-- What happens in one step. -/
inductive Event where
  | called (p : Pid) (v : ServerId) (ref : Ref) (request : Request)
  | arrived (p : Pid) (v : ServerId) (cast : Cast)
  | discarded (p : Pid) (v : ServerId) (cast : Cast)
  | accepted (v : ServerId) (cast : Cast) (job : Job)
  | crashed (v : ServerId) (cast : Cast) (id : RequestId)
  | stopped (v : ServerId)
  | started (v : ServerId) (ref : Ref) (job : Job)
  | executed (v : ServerId) (ref : Ref) (job : Job) (body : Term)
  | responded (v : ServerId) (ref : Ref) (job : Job) (body : Term)
  | delivered (p : Pid) (message : Message)
  | intruded (p : Pid) (content : Term)
  | resumed (p : Pid) (ref : Ref) (id : RequestId)
  | returned (p : Pid) (ref : Ref) (id : RequestId) (tag : Ref) (body : Term)
  | timedOut (p : Pid) (ref : Ref)

/-! ## The code of the processes -/

/-- `handle_cast/2` with the id that `NifCTX` draws: the message to the caller
and the next server state. -/
def handleCast (id : RequestId) (cast : Cast) (state : ServerState) :
    NifM ((Pid × Message) × ServerState) := do
  let reqId ← applyNif ⟨cast.sender, id⟩ state.connection cast.request
  return ((cast.sender, .accepted cast.ref reqId), state)

/-- The pattern of the first `receive_response/2`. -/
def acceptedFor (ref : Ref) : Message → Option RequestId
  | .accepted ref' id => if ref' = ref then some id else none
  | _ => none

/-- The pattern of the second `receive_response/2`. -/
def responseFor (id : RequestId) : Message → Option (Ref × Term)
  | .response id' body tag => if id' = id then some (tag, body) else none
  | _ => none

omit [LcbTypes] in
theorem acceptedFor_eq_some_iff
    {ref : Ref} {message : Message} {id : RequestId} :
    acceptedFor ref message = some id ↔ message = .accepted ref id := by
  cases message <;> simp [acceptedFor]

omit [LcbTypes] in
theorem responseFor_eq_some_iff
    {id : RequestId} {message : Message} {tag : Ref} {body : Term} :
    responseFor id message = some (tag, body) ↔
      message = .response id body tag := by
  cases message with
  | response id' body' tag' => simp [responseFor, and_comm]
  | _ => simp [responseFor]

/-! ## Steps -/

open Function in
inductive Step : State → Event → State → Prop
  /-- `call/3` makes a reference and casts the request. -/
  | called {s : State} {p : Pid} {v : ServerId} {ref : Ref} {request : Request}
      (hphase : s.phase p = .idle) :
      Step s (.called p v ref request)
        { s with
          phase := update s.phase p (.awaitRef v ref)
          casts := update s.casts (p, v) (s.casts (p, v) ++ [⟨ref, p, request⟩]) }
  | arrived {s : State} {p : Pid} {v : ServerId} {cast : Cast}
      {rest : List Cast}
      (hcasts : s.casts (p, v) = cast :: rest) (halive : s.alive v = true) :
      Step s (.arrived p v cast)
        { s with
          casts := update s.casts (p, v) rest
          inbox := update s.inbox v (s.inbox v ++ [cast]) }
  /-- A signal to a dead process disappears. -/
  | discarded {s : State} {p : Pid} {v : ServerId} {cast : Cast}
      {rest : List Cast}
      (hcasts : s.casts (p, v) = cast :: rest) (hdead : s.alive v = false) :
      Step s (.discarded p v cast)
        { s with casts := update s.casts (p, v) rest }
  | accepted {s : State} {v : ServerId} {cast : Cast} {rest : List Cast}
      {id : RequestId} {message : Pid × Message} {state : ServerState}
      {job : Job}
      (halive : s.alive v = true) (hinbox : s.inbox v = cast :: rest)
      (hrun : (handleCast id cast (s.server v)).run.run [] =
        (.ok (message, state), [job])) :
      Step s (.accepted v cast job)
        { s with
          server := update s.server v state
          inbox := update s.inbox v rest
          queue := update s.queue v (s.queue v ++ [(cast.ref, job)])
          flight := s.flight ++ [message] }
  /-- An exception in `handle_cast/2` terminates the server, and its mailbox
  is gone. -/
  | crashed {s : State} {v : ServerId} {cast : Cast} {rest : List Cast}
      {id : RequestId} {raise : Raise}
      (halive : s.alive v = true) (hinbox : s.inbox v = cast :: rest)
      (hrun : (handleCast id cast (s.server v)).run.run [] =
        (.error raise, [])) :
      Step s (.crashed v cast id)
        { s with
          alive := update s.alive v false
          inbox := update s.inbox v [] }
  /-- `~Client` runs when the dead server's terms are collected: the handlers
  that have not started are dropped. -/
  | stopped {s : State} {v : ServerId} (hdead : s.alive v = false) :
      Step s (.stopped v) { s with queue := update s.queue v [] }
  | started {s : State} {v : ServerId} {ref : Ref} {job : Job}
      {rest : List (Ref × Job)}
      (hworker : s.worker v = .idle) (hqueue : s.queue v = (ref, job) :: rest) :
      Step s (.started v ref job)
        { s with
          queue := update s.queue v rest
          worker := update s.worker v (.running ref job) }
  | executed {s : State} {v : ServerId} {ref : Ref} {job : Job} (lcb : Lcb)
      (hworker : s.worker v = .running ref job) :
      Step s (.executed v ref job (job.operation.execute lcb))
        { s with
          worker := update s.worker v
            (.finished ref job (job.operation.execute lcb)) }
  | responded {s : State} {v : ServerId} {ref : Ref} {job : Job} {body : Term}
      (hworker : s.worker v = .finished ref job body) :
      Step s (.responded v ref job body)
        { s with
          worker := update s.worker v .idle
          flight := s.flight ++
            [(job.ctx.reqPid, .response job.ctx.reqId body ref)] }
  | delivered {s : State} {p : Pid} {message : Message}
      {before after : List (Pid × Message)}
      (hflight : s.flight = before ++ (p, message) :: after) :
      Step s (.delivered p message)
        { s with
          mailbox := update s.mailbox p (s.mailbox p ++ [message])
          flight := before ++ after }
  /-- Some other process sends something unrelated. -/
  | intruded {s : State} {p : Pid} {content : Term} :
      Step s (.intruded p content)
        { s with mailbox := update s.mailbox p (s.mailbox p ++ [.other content]) }
  | resumed {s : State} {p : Pid} {v : ServerId} {ref : Ref} {id : RequestId}
      {rest : List Message}
      (hphase : s.phase p = .awaitRef v ref)
      (hreceive : selectiveReceive (acceptedFor ref) (s.mailbox p) =
        some (id, rest)) :
      Step s (.resumed p ref id)
        { s with
          phase := update s.phase p (.awaitResponse ref id)
          mailbox := update s.mailbox p rest }
  | returned {s : State} {p : Pid} {ref tag : Ref} {id : RequestId}
      {body : Term} {rest : List Message}
      (hphase : s.phase p = .awaitResponse ref id)
      (hreceive : selectiveReceive (responseFor id) (s.mailbox p) =
        some ((tag, body), rest)) :
      Step s (.returned p ref id tag body)
        { s with
          phase := update s.phase p .idle
          mailbox := update s.mailbox p rest }
  /-- The timeout of the first receive. -/
  | refTimedOut {s : State} {p : Pid} {v : ServerId} {ref : Ref}
      (hphase : s.phase p = .awaitRef v ref)
      (hreceive : selectiveReceive (acceptedFor ref) (s.mailbox p) = none) :
      Step s (.timedOut p ref) { s with phase := update s.phase p .idle }
  /-- The timeout of the second receive. -/
  | responseTimedOut {s : State} {p : Pid} {ref : Ref} {id : RequestId}
      (hphase : s.phase p = .awaitResponse ref id)
      (hreceive : selectiveReceive (responseFor id) (s.mailbox p) = none) :
      Step s (.timedOut p ref) { s with phase := update s.phase p .idle }

/-- Nobody has called yet. -/
structure Initial (s : State) : Prop where
  phase : ∀ p, s.phase p = .idle
  mailbox : ∀ p, s.mailbox p = []
  casts : ∀ p v, s.casts (p, v) = []
  alive : ∀ v, s.alive v = true
  inbox : ∀ v, s.inbox v = []
  queue : ∀ v, s.queue v = []
  worker : ∀ v, s.worker v = .idle
  flight : s.flight = []

/-- The system of all callers and servers. -/
def machine : TransitionSystem State Event where
  Initial := Initial
  Step := Step

/-! ## What `handle_cast/2` does -/

theorem handleCast_run (id : RequestId) (cast : Cast) (state : ServerState)
    (queue : List Job) :
    (handleCast id cast state).run.run queue =
      match cast.request.operation with
      | some operation =>
          (.ok ((cast.sender, .accepted cast.ref id), state),
            queue ++ [⟨⟨cast.sender, id⟩, state.connection, operation⟩])
      | none => (.error .badarg, queue) := by
  have hnif := applyNif_run ⟨cast.sender, id⟩ state.connection cast.request queue
  cases hoperation : cast.request.operation with
  | some operation =>
      rw [hoperation] at hnif
      simp only [handleCast, bind_pure_comp, ExceptT.run_map, StateT.run_map,
        hnif]
      rfl
  | none =>
      rw [hoperation] at hnif
      simp only [handleCast, bind_pure_comp, ExceptT.run_map, StateT.run_map,
        hnif]
      rfl

theorem handleCast_eq_ok {id : RequestId} {cast : Cast}
    {state state' : ServerState} {message : Pid × Message} {job : Job}
    (h : (handleCast id cast state).run.run [] = (.ok (message, state'), [job])) :
    message = (cast.sender, .accepted cast.ref id) ∧ state' = state ∧
      job.ctx = ⟨cast.sender, id⟩ ∧ job.connection = state.connection ∧
      cast.request.operation = some job.operation := by
  rw [handleCast_run] at h
  cases hoperation : cast.request.operation with
  | none =>
      rw [hoperation] at h
      cases h
  | some operation =>
      rw [hoperation] at h
      obtain ⟨hok, hjobs⟩ := Prod.mk.inj h
      obtain ⟨rfl, rfl⟩ := Prod.mk.inj (Except.ok.inj hok)
      obtain rfl := (List.cons.inj hjobs).1
      exact ⟨rfl, rfl, rfl, rfl, rfl⟩

end Cberl.System
