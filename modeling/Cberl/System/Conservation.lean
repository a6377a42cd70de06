import Cberl.Support.Observation
import Cberl.System.Model

/-!
# What a trace says about a state

Casts, posted jobs, handler runs and messages are neither invented nor
duplicated.  Each law below splits one list that the trace determines, what has
entered a queue so far, into what has left it and what the state still holds,
and each is kept by every step.
-/

namespace Cberl.System

open Cberl Cberl.Support

variable [LcbTypes]

/-! ## Readings of a trace -/

/-- The cast of a call from `p` to `v`. -/
def callTo (p : Pid) (v : ServerId) : Event → Option Cast
  | .called p' v' ref request =>
      if (p', v') = (p, v) then some ⟨ref, p', request⟩ else none
  | _ => none

/-- The cast of `p` that `v` takes from its inbox. -/
def handledBy (v : ServerId) (p : Pid) : Event → Option Cast
  | .accepted v' cast _ =>
      if v' = v ∧ cast.sender = p then some cast else none
  | .crashed v' cast _ =>
      if v' = v ∧ cast.sender = p then some cast else none
  | _ => none

/-- The job that enters the queue of `v`. -/
def postedTo (v : ServerId) : Event → Option (Ref × Job)
  | .accepted v' cast job => if v' = v then some (cast.ref, job) else none
  | _ => none

/-- The job that the worker of `v` takes from the queue. -/
def startedOn (v : ServerId) : Event → Option (Ref × Job)
  | .started v' ref job => if v' = v then some (ref, job) else none
  | _ => none

/-- The job that the worker of `v` executes, with its response term. -/
def executedOn (v : ServerId) : Event → Option (Ref × Job × Term)
  | .executed v' ref job body => if v' = v then some (ref, job, body) else none
  | _ => none

/-- The job whose response the worker of `v` sends. -/
def respondedOn (v : ServerId) : Event → Option (Ref × Job × Term)
  | .responded v' ref job body => if v' = v then some (ref, job, body) else none
  | _ => none

/-- The message that somebody sends to `p`. -/
def sentTo (p : Pid) : Event → Option Message
  | .accepted _ cast job =>
      if cast.sender = p then some (.accepted cast.ref job.ctx.reqId) else none
  | .responded _ ref job body =>
      if job.ctx.reqPid = p then some (.response job.ctx.reqId body ref)
      else none
  | .intruded p' content => if p' = p then some (.other content) else none
  | _ => none

/-- The message that enters the mailbox of `p`. -/
def receivedBy (p : Pid) : Event → Option Message
  | .delivered p' message => if p' = p then some message else none
  | .intruded p' content => if p' = p then some (.other content) else none
  | _ => none

/-- The message that `p` takes from its mailbox. -/
def consumedBy (p : Pid) : Event → Option Message
  | .resumed p' ref id => if p' = p then some (.accepted ref id) else none
  | .returned p' _ id tag body =>
      if p' = p then some (.response id body tag) else none
  | _ => none

/-! ## What a state still holds -/

/-- The job inside an operation. -/
def Worker.busy : Worker → List (Ref × Job)
  | running ref job => [(ref, job)]
  | _ => []

/-- The job whose response is about to be sent. -/
def Worker.pending : Worker → List (Ref × Job × Term)
  | finished ref job body => [(ref, job, body)]
  | _ => []

/-- The messages on their way to `p`. -/
def State.inFlight (s : State) (p : Pid) : List Message :=
  (s.flight.filter fun entry => entry.1 = p).map Prod.snd

/-! ## The laws -/

/-- A dead server has no mailbox. -/
def InboxLaw (s : State) : Prop :=
  ∀ v, s.alive v = false → s.inbox v = []

/-- What `p` cast to `v` was handled, was lost with a dead server, waits in the
inbox, or is on its way, in this order. -/
def CastLaw (trace : List Event) (s : State) : Prop :=
  ∀ p v, ∃ lost,
    trace.filterMap (callTo p v) =
      trace.filterMap (handledBy v p) ++ lost ++
        (s.inbox v).filter (fun cast => cast.sender = p) ++ s.casts (p, v) ∧
    (lost = [] ∨ s.alive v = false)

/-- What was posted to the client of `v` was started, was dropped with the
client, or waits in its queue, in this order. -/
def QueueLaw (trace : List Event) (s : State) : Prop :=
  ∀ v, ∃ dropped,
    trace.filterMap (postedTo v) =
      trace.filterMap (startedOn v) ++ dropped ++ s.queue v ∧
    (dropped = [] ∨ s.alive v = false ∧ s.queue v = [])

/-- The worker has executed what it started, except what it is busy with. -/
def StartLaw (trace : List Event) (s : State) : Prop :=
  ∀ v, trace.filterMap (startedOn v) =
    (trace.filterMap (executedOn v)).map (fun entry => (entry.1, entry.2.1)) ++
      (s.worker v).busy

/-- The worker has answered what it executed, except what is pending. -/
def ResponseLaw (trace : List Event) (s : State) : Prop :=
  ∀ v, trace.filterMap (executedOn v) =
    trace.filterMap (respondedOn v) ++ (s.worker v).pending

/-- What was sent to `p` is on its way or has been received. -/
def FlightLaw (trace : List Event) (s : State) : Prop :=
  ∀ p, (trace.filterMap (sentTo p)).Perm
    (s.inFlight p ++ trace.filterMap (receivedBy p))

/-- What `p` received is in its mailbox or was consumed. -/
def MailboxLaw (trace : List Event) (s : State) : Prop :=
  ∀ p, (trace.filterMap (receivedBy p)).Perm
    (s.mailbox p ++ trace.filterMap (consumedBy p))

section Laws

variable {trace : List Event} {s : State}

theorem ne_of_dead_of_alive {v v' : ServerId} (hdead : s.alive v = false)
    (halive : s.alive v' = true) : v ≠ v' := by
  rintro rfl
  rw [hdead] at halive
  cases halive

theorem inboxLaw (hrun : Run machine trace s) : InboxLaw s := by
  refine @Run.invariant _ _ machine (fun _ s => InboxLaw s) ?_ ?_ _ _ hrun
  · intro s hs v _
    exact hs.inbox v
  · intro trace s label s' _ ih hstep v hdead
    cases hstep with
    | @arrived p v' cast rest hcasts halive =>
        have hne := ne_of_dead_of_alive hdead halive
        simpa [hne] using ih v hdead
    | @accepted v' cast rest id message state job halive hinbox hrun =>
        have hne := ne_of_dead_of_alive hdead halive
        simpa [hne] using ih v hdead
    | @crashed v' cast rest id raise halive hinbox hrun =>
        by_cases hv : v = v'
        · simp [hv]
        · have hdead' : s.alive v = false := by simpa [hv] using hdead
          simpa [hv] using ih v hdead'
    | _ => exact ih v hdead

theorem queueLaw (hrun : Run machine trace s) : QueueLaw trace s := by
  refine hrun.invariant ?_ ?_
  · intro s hs v
    exact ⟨[], by simp [hs.queue v], Or.inl rfl⟩
  · intro trace s label s' _ ih hstep v
    obtain ⟨dropped, hposted, hdropped⟩ := ih v
    cases hstep with
    | @accepted v' cast rest id message state job halive hinbox hrun =>
        refine ⟨dropped, ?_, ?_⟩
        · by_cases hv : v' = v
          · subst hv
            simp [postedTo, startedOn, hposted]
          · simp [postedTo, startedOn, hposted, hv, Ne.symm hv]
        · refine hdropped.imp_right fun ⟨hdead, hempty⟩ => ⟨hdead, ?_⟩
          have hne := ne_of_dead_of_alive hdead halive
          simpa [hne] using hempty
    | @crashed v' cast rest id raise halive hinbox hrun =>
        refine ⟨dropped, by simpa [postedTo, startedOn] using hposted, ?_⟩
        refine hdropped.imp_right fun ⟨hdead, hempty⟩ => ⟨?_, hempty⟩
        by_cases hv : v = v'
        · simp [hv]
        · simpa [hv] using hdead
    | @stopped v' hdead =>
        by_cases hv : v' = v
        · subst hv
          refine ⟨dropped ++ s.queue v', ?_, Or.inr ⟨hdead, by simp⟩⟩
          simp [postedTo, startedOn, hposted]
        · refine ⟨dropped, ?_, ?_⟩
          · simp [postedTo, startedOn, hposted, Ne.symm hv]
          · simpa [Ne.symm hv] using hdropped
    | @started v' ref job rest hworker hqueue =>
        by_cases hv : v' = v
        · subst hv
          rw [hqueue] at hposted hdropped
          have hnone : dropped = [] := by simpa using hdropped
          refine ⟨[], ?_, Or.inl rfl⟩
          simp [postedTo, startedOn, hposted, hnone]
        · refine ⟨dropped, ?_, ?_⟩
          · simp [postedTo, startedOn, hposted, hv, Ne.symm hv]
          · simpa [Ne.symm hv] using hdropped
    | _ =>
        exact ⟨dropped, by simpa [postedTo, startedOn] using hposted, hdropped⟩

/-- A step leaves the worker of `v` alone, or the worker takes a handler,
executes it or sends its response. -/
theorem Step.worker {s s' : State} {event : Event} (hstep : Step s event s')
    (v : ServerId) :
    (s'.worker v = s.worker v ∧ startedOn v event = none ∧
        executedOn v event = none ∧ respondedOn v event = none) ∨
      (∃ ref job, event = .started v ref job ∧
        s.worker v = .idle ∧ s'.worker v = .running ref job) ∨
      (∃ ref job body, event = .executed v ref job body ∧
        s.worker v = .running ref job ∧
        s'.worker v = .finished ref job body) ∨
      ∃ ref job body, event = .responded v ref job body ∧
        s.worker v = .finished ref job body ∧ s'.worker v = .idle := by
  cases hstep with
  | @started v' ref job rest hworker hqueue =>
      by_cases hv : v' = v
      · subst hv
        exact Or.inr (Or.inl ⟨ref, job, rfl, hworker, by simp⟩)
      · exact Or.inl (by
          simp [startedOn, executedOn, respondedOn, hv, Ne.symm hv])
  | @executed v' ref job lcb hworker =>
      by_cases hv : v' = v
      · subst hv
        exact Or.inr (Or.inr (Or.inl ⟨ref, job, _, rfl, hworker, by simp⟩))
      · exact Or.inl (by
          simp [startedOn, executedOn, respondedOn, hv, Ne.symm hv])
  | @responded v' ref job body hworker =>
      by_cases hv : v' = v
      · subst hv
        exact Or.inr (Or.inr (Or.inr ⟨ref, job, body, rfl, hworker, by simp⟩))
      · exact Or.inl (by
          simp [startedOn, executedOn, respondedOn, hv, Ne.symm hv])
  | _ => exact Or.inl ⟨rfl, rfl, rfl, rfl⟩

theorem startLaw (hrun : Run machine trace s) : StartLaw trace s := by
  refine hrun.invariant ?_ ?_
  · intro s hs v
    simp [hs.worker v, Worker.busy]
  · intro trace s label s' _ ih hstep v
    have hv := ih v
    rcases Step.worker hstep v with ⟨hsame, hstarted, hexecuted, -⟩ |
      ⟨ref, job, rfl, hold, hnew⟩ | ⟨ref, job, body, rfl, hold, hnew⟩ |
      ⟨ref, job, body, rfl, hold, hnew⟩
    · simp [hsame, hstarted, hexecuted, hv]
    all_goals
      rw [hold] at hv
      simp [hnew, hv, startedOn, executedOn, Worker.busy]

theorem responseLaw (hrun : Run machine trace s) : ResponseLaw trace s := by
  refine hrun.invariant ?_ ?_
  · intro s hs v
    simp [hs.worker v, Worker.pending]
  · intro trace s label s' _ ih hstep v
    have hv := ih v
    rcases Step.worker hstep v with ⟨hsame, -, hexecuted, hresponded⟩ |
      ⟨ref, job, rfl, hold, hnew⟩ | ⟨ref, job, body, rfl, hold, hnew⟩ |
      ⟨ref, job, body, rfl, hold, hnew⟩
    · simp [hsame, hexecuted, hresponded, hv]
    all_goals
      rw [hold] at hv
      simp [hnew, hv, executedOn, respondedOn, Worker.pending]

theorem mem_callTo {p : Pid} {v : ServerId} {cast : Cast} :
    cast ∈ trace.filterMap (callTo p v) ↔
      cast.sender = p ∧ .called p v cast.ref cast.request ∈ trace := by
  rw [List.mem_filterMap]
  constructor
  · rintro ⟨event, hevent, hcall⟩
    cases event with
    | called p' v' ref request =>
        simp only [callTo, Option.ite_none_right_eq_some] at hcall
        obtain ⟨heq, hcast⟩ := hcall
        obtain ⟨rfl, rfl⟩ := Prod.mk.inj heq
        obtain rfl := Option.some.inj hcast
        exact ⟨rfl, hevent⟩
    | _ => cases hcall
  · rintro ⟨rfl, hevent⟩
    exact ⟨_, hevent, by simp [callTo]⟩

theorem castLaw (hrun : Run machine trace s) : CastLaw trace s := by
  refine hrun.invariant ?_ ?_
  · intro s hs p v
    exact ⟨[], by simp [hs.inbox v, hs.casts p v], Or.inl rfl⟩
  · intro trace s label s' hrun ih hstep p v
    obtain ⟨lost, hcalls, hlost⟩ := ih p v
    -- The head of the cast queue from `p'` to `v'` is a cast of `p'`.
    have hsender : ∀ {p' v' cast rest}, s.casts (p', v') = cast :: rest →
        cast.sender = p' := by
      intro p' v' cast rest hcasts
      obtain ⟨lost', hcalls', -⟩ := ih p' v'
      refine ((@mem_callTo _ trace p' v' cast).mp ?_).1
      rw [hcalls', hcasts]
      simp
    cases hstep with
    | @called p' v' ref request hphase =>
        refine ⟨lost, ?_, hlost⟩
        by_cases h : (p', v') = (p, v)
        · simp [callTo, handledBy, h, hcalls]
        · simp [callTo, handledBy, h, Ne.symm h, hcalls]
    | @arrived p' v' cast rest hcasts halive =>
        refine ⟨lost, ?_, hlost⟩
        by_cases hv : v' = v
        · subst hv
          have hnone : lost = [] := hlost.resolve_right (by simp [halive])
          have hcast := hsender hcasts
          by_cases hp : p' = p
          · subst hp
            rw [hcasts] at hcalls
            simp [callTo, handledBy, hcalls, hcast]
          · simp [callTo, handledBy, hcalls, hcast, hp, Ne.symm hp]
        · simp [callTo, handledBy, hcalls, Ne.symm hv]
    | @discarded p' v' cast rest hcasts hdead =>
        by_cases h : (p', v') = (p, v)
        · obtain ⟨rfl, rfl⟩ := Prod.mk.inj h
          rw [hcasts] at hcalls
          refine ⟨lost ++ [cast], ?_, Or.inr hdead⟩
          simp [callTo, handledBy, hcalls, inboxLaw hrun v' hdead]
        · refine ⟨lost, ?_, hlost⟩
          simp [callTo, handledBy, hcalls, Ne.symm h]
    | @accepted v' cast rest id message state job halive hinbox hrun =>
        refine ⟨lost, ?_, hlost⟩
        by_cases hv : v' = v
        · subst hv
          have hnone : lost = [] := hlost.resolve_right (by simp [halive])
          rw [hinbox] at hcalls
          by_cases hp : cast.sender = p
          · simp [callTo, handledBy, hcalls, hnone, hp]
          · simp [callTo, handledBy, hcalls, hnone, hp]
        · simp [callTo, handledBy, hcalls, hv, Ne.symm hv]
    | @crashed v' cast rest id raise halive hinbox hrun =>
        by_cases hv : v' = v
        · subst hv
          have hnone : lost = [] := hlost.resolve_right (by simp [halive])
          rw [hinbox] at hcalls
          refine ⟨rest.filter fun cast => cast.sender = p, ?_, Or.inr (by simp)⟩
          by_cases hp : cast.sender = p
          · simp [callTo, handledBy, hcalls, hnone, hp]
          · simp [callTo, handledBy, hcalls, hnone, hp]
        · refine ⟨lost, ?_, ?_⟩
          · simp [callTo, handledBy, hcalls, hv, Ne.symm hv]
          · simpa [Ne.symm hv] using hlost
    | _ => exact ⟨lost, by simpa [callTo, handledBy] using hcalls, hlost⟩

theorem Step.flight {s s' : State} {event : Event} (hstep : Step s event s')
    (p : Pid) :
    (s.inFlight p ++ (sentTo p event).toList).Perm
      (s'.inFlight p ++ (receivedBy p event).toList) := by
  cases hstep with
  | @accepted v cast rest id message state job halive hinbox hrun =>
      obtain ⟨rfl, -, hctx, -, -⟩ := handleCast_eq_ok hrun
      by_cases h : cast.sender = p
      · simp [sentTo, receivedBy, State.inFlight, h, hctx]
      · simp [sentTo, receivedBy, State.inFlight, h]
  | @responded v ref job body hworker =>
      by_cases h : job.ctx.reqPid = p
      · simp [sentTo, receivedBy, State.inFlight, h]
      · simp [sentTo, receivedBy, State.inFlight, h]
  | @delivered p' message before after hflight =>
      by_cases h : p' = p
      · subst h
        simpa [sentTo, receivedBy, State.inFlight, hflight] using
          (List.perm_append_singleton message
            (State.inFlight { s with flight := after } p')).symm.append_left
              (State.inFlight { s with flight := before } p')
      · simp [sentTo, receivedBy, State.inFlight, hflight, h]
  | @intruded p' content =>
      by_cases h : p' = p
      · simp [sentTo, receivedBy, State.inFlight, h]
      · simp [sentTo, receivedBy, State.inFlight, h]
  | _ => simp [sentTo, receivedBy, State.inFlight]

theorem Step.mailbox {s s' : State} {event : Event} (hstep : Step s event s')
    (p : Pid) :
    (s.mailbox p ++ (receivedBy p event).toList).Perm
      (s'.mailbox p ++ (consumedBy p event).toList) := by
  cases hstep with
  | @delivered p' message before after hflight =>
      by_cases h : p' = p
      · subst h
        simp [receivedBy, consumedBy]
      · simp [receivedBy, consumedBy, h, Ne.symm h]
  | @intruded p' content =>
      by_cases h : p' = p
      · subst h
        simp [receivedBy, consumedBy]
      · simp [receivedBy, consumedBy, h, Ne.symm h]
  | @resumed p' v ref id rest hphase hreceive =>
      by_cases h : p' = p
      · subst h
        obtain ⟨message, hmessage, hperm⟩ :=
          exists_perm_of_selectiveReceive hreceive
        obtain rfl := acceptedFor_eq_some_iff.mp hmessage
        simpa [receivedBy, consumedBy] using
          hperm.trans (List.perm_append_singleton _ _).symm
      · simp [receivedBy, consumedBy, h, Ne.symm h]
  | @returned p' ref tag id body rest hphase hreceive =>
      by_cases h : p' = p
      · subst h
        obtain ⟨message, hmessage, hperm⟩ :=
          exists_perm_of_selectiveReceive hreceive
        obtain rfl := responseFor_eq_some_iff.mp hmessage
        simpa [receivedBy, consumedBy] using
          hperm.trans (List.perm_append_singleton _ _).symm
      · simp [receivedBy, consumedBy, h, Ne.symm h]
  | _ => simp [receivedBy, consumedBy]

/-- A balance that every step keeps on its own holds for what a whole trace
puts in and takes out. -/
theorem perm_of_step_balance
    {content : State → List Message} {put take : Event → Option Message}
    (hinit : ∀ s, Initial s → content s = [])
    (hstep : ∀ {s s' event}, Step s event s' →
      (content s ++ (put event).toList).Perm
        (content s' ++ (take event).toList))
    (hrun : Run machine trace s) :
    (trace.filterMap put).Perm (content s ++ trace.filterMap take) := by
  refine @Run.invariant _ _ machine (fun trace s =>
    (trace.filterMap put).Perm (content s ++ trace.filterMap take))
    ?_ ?_ _ _ hrun
  · intro s hs
    simp [hinit s hs]
  · intro trace s label s' _ ih hlabel
    rw [List.filterMap_append, List.filterMap_append, filterMap_singleton,
      filterMap_singleton]
    apply (ih.append_right _).trans
    have hswap := (hstep hlabel).append_right (trace.filterMap take)
    simp only [List.append_assoc] at hswap ⊢
    refine (List.perm_append_comm.append_left _).trans (hswap.trans ?_)
    exact List.perm_append_comm.append_left _

theorem flightLaw (hrun : Run machine trace s) : FlightLaw trace s :=
  fun p => perm_of_step_balance
    (fun _ hs => by simp [State.inFlight, hs.flight])
    (fun hstep => Step.flight hstep p) hrun

theorem mailboxLaw (hrun : Run machine trace s) : MailboxLaw trace s :=
  fun p => perm_of_step_balance (fun _ hs => hs.mailbox p)
    (fun hstep => Step.mailbox hstep p) hrun

end Laws

end Cberl.System
