import Cberl.Client.Execution
import Cberl.System.Model

/-!
# The system with the threads of its clients

In the system model a cast is accepted in one step: its job enters the queue of
the client and the acknowledgement is on its way.  Here the connection server
goes through asio's `post` before it acknowledges, the worker thread takes the
job, executes it and sends the response before the operation counts as finished,
and all threads of a client meet in its event loop.
-/

namespace Cberl.System

open Cberl Cberl.Support

variable [LcbTypes]

/-! ## States -/

/-- Where a connection server is: waiting for a message, inside the NIF of a
cast that has not entered the queue, or past that and about to acknowledge the
cast. -/
inductive Handling where
  | idle
  | posting (cast : Cast) (message : Pid × Message) (state : ServerState)
      (job : Job)
  | pushed (message : Pid × Message) (state : ServerState)

/-- Where the worker is inside an operation: before the call of libcouchbase,
before the response is sent, or after that. -/
inductive Stage where
  | fresh
  | computed (body : Term)
  | sent

abbrev ClientState := Client.State (Ref × Job)

/-- The processes and messages of `base`; its queues and workers stay as they
are, the event loops take their place. -/
structure ThreadedState where
  base : State
  handling : ServerId → Handling
  client : ServerId → ClientState
  stage : ServerId → Stage

inductive ThreadedEvent where
  | process (event : Event)
  | taken (v : ServerId) (cast : Cast)
  | pushed (v : ServerId) (cast : Cast) (job : Job)
  | acknowledged (v : ServerId)
  | started (v : ServerId) (ref : Ref) (job : Job)
  | executed (v : ServerId) (ref : Ref) (job : Job) (body : Term)
  | responded (v : ServerId) (ref : Ref) (job : Job) (body : Term)
  | finished (v : ServerId)
  | closed (v : ServerId)
  | destroyed (v : ServerId)
  | threads (v : ServerId)

/-- The event of the system model, if it has one. -/
def ThreadedEvent.event : ThreadedEvent → Option Event
  | process event => some event
  | pushed v cast job => some (.accepted v cast job)
  | started v ref job => some (.started v ref job)
  | executed v ref job body => some (.executed v ref job body)
  | responded v ref job body => some (.responded v ref job body)
  | destroyed v => some (.stopped v)
  | _ => none

/-- The events in which no client takes part. -/
def Event.OfProcesses : Event → Prop
  | accepted _ _ _ => False
  | stopped _ => False
  | started _ _ _ => False
  | executed _ _ _ _ => False
  | responded _ _ _ _ => False
  | _ => True

/-! ## Steps -/

open Function in
inductive ThreadedStep : ThreadedState → ThreadedEvent → ThreadedState → Prop
  | process {s : ThreadedState} {event : Event} {base : State}
      (hevent : event.OfProcesses)
      (hidle : ∀ v cast id, event = .crashed v cast id → s.handling v = .idle)
      (hstep : Step s.base event base) :
      ThreadedStep s (.process event) { s with base }
  /-- The NIF of `handle_cast/2` converts the request and calls `post`. -/
  | taken {s : ThreadedState} {v : ServerId} {cast : Cast} {rest : List Cast}
      {id : RequestId} {message : Pid × Message} {state : ServerState}
      {job : Job} {client : ClientState}
      (halive : s.base.alive v = true) (hidle : s.handling v = .idle)
      (hinbox : s.base.inbox v = cast :: rest)
      (hrun : (handleCast id cast (s.base.server v)).run.run [] =
        (.ok (message, state), [job]))
      (hstep : Client.Step (s.client v) (.enter (cast.ref, job)) client) :
      ThreadedStep s (.taken v cast)
        { s with
          base := { s.base with inbox := update s.base.inbox v rest }
          handling := update s.handling v (.posting cast message state job)
          client := update s.client v client }
  | pushed {s : ThreadedState} {v : ServerId} {cast : Cast}
      {message : Pid × Message} {state : ServerState} {job : Job}
      {op : Ref × Job} {client : ClientState}
      (hhandling : s.handling v = .posting cast message state job)
      (hstep : Client.Step (s.client v) (.push op) client) :
      ThreadedStep s (.pushed v cast job)
        { s with
          handling := update s.handling v (.pushed message state)
          client := update s.client v client }
  /-- `post` has returned. -/
  | acknowledged {s : ThreadedState} {v : ServerId} {message : Pid × Message}
      {state : ServerState}
      (hhandling : s.handling v = .pushed message state)
      (hreturned : (s.client v).posts = []) :
      ThreadedStep s (.acknowledged v)
        { s with
          base :=
            { s.base with
              server := update s.base.server v state
              flight := s.base.flight ++ [message] }
          handling := update s.handling v .idle }
  | started {s : ThreadedState} {v : ServerId} {ref : Ref} {job : Job}
      {client : ClientState}
      (hstep : Client.Step (s.client v) (.pop (ref, job)) client) :
      ThreadedStep s (.started v ref job)
        { s with
          client := update s.client v client
          stage := update s.stage v .fresh }
  | executed {s : ThreadedState} {v : ServerId} {ref : Ref} {job : Job}
      (lcb : Lcb) (hworker : (s.client v).worker = .executing (ref, job))
      (hstage : s.stage v = .fresh) :
      ThreadedStep s (.executed v ref job (job.operation.execute lcb))
        { s with
          stage := update s.stage v (.computed (job.operation.execute lcb)) }
  /-- `ctx.send` in the callback of the operation. -/
  | responded {s : ThreadedState} {v : ServerId} {ref : Ref} {job : Job}
      {body : Term} (hworker : (s.client v).worker = .executing (ref, job))
      (hstage : s.stage v = .computed body) :
      ThreadedStep s (.responded v ref job body)
        { s with
          base :=
            { s.base with
              flight := s.base.flight ++
                [(job.ctx.reqPid, .response job.ctx.reqId body ref)] }
          stage := update s.stage v .sent }
  | finished {s : ThreadedState} {v : ServerId} {op : Ref × Job}
      {client : ClientState} (hstage : s.stage v = .sent)
      (hstep : Client.Step (s.client v) (.finish op) client) :
      ThreadedStep s (.finished v)
        { s with client := update s.client v client }
  /-- The terms of a dead server are collected. -/
  | closed {s : ThreadedState} {v : ServerId} {client : ClientState}
      (hdead : s.base.alive v = false)
      (hstep : Client.Step (s.client v) .close client) :
      ThreadedStep s (.closed v) { s with client := update s.client v client }
  | destroyed {s : ThreadedState} {v : ServerId} {ops : List (Ref × Job)}
      {client : ClientState}
      (hstep : Client.Step (s.client v) (.destroy ops) client) :
      ThreadedStep s (.destroyed v) { s with client := update s.client v client }
  | threads {s : ThreadedState} {v : ServerId}
      {label : Client.Label (Ref × Job)} {client : ClientState}
      (hsilent : label.Silent)
      (hstep : Client.Step (s.client v) label client) :
      ThreadedStep s (.threads v) { s with client := update s.client v client }

/-- The client of a connection server after `connect` is over. -/
structure Ready (client : ClientState) : Prop where
  reached : ∃ trace, Run (Client.machine (Ref × Job)) trace client
  live : client.owner = .live
  queue : client.opQueue = []
  posts : client.posts = []
  worker : client.worker.current = []

structure ThreadedInitial (s : ThreadedState) : Prop where
  base : Initial s.base
  handling : ∀ v, s.handling v = .idle
  client : ∀ v, Ready (s.client v)

def threadedMachine : TransitionSystem ThreadedState ThreadedEvent where
  Initial := ThreadedInitial
  Step := ThreadedStep

end Cberl.System
