import Cberl.Support.Settling
import Cberl.System.Hygiene

/-!
# Every call comes to its end

Left alone, the system of callers, servers and workers comes to rest: each call
is worth at most nine steps.  At rest nothing is on its way and no caller waits,
unless for a server that has died.  That needs no distinct ids: a response that
was taken by an earlier call is not the one of a call in progress.
-/

namespace Cberl.System

open Cberl Cberl.Support

section Runs

variable [LcbTypes]

/-! ## Own steps -/

/-- The caller and the server of a step that a cast takes on its way. -/
def servedPair : Event → Option (Pid × ServerId)
  | .arrived p v _ => some (p, v)
  | .discarded p v _ => some (p, v)
  | .accepted v cast _ => some (cast.sender, v)
  | .crashed v cast _ => some (cast.sender, v)
  | .started v _ job => some (job.ctx.reqPid, v)
  | .executed v _ job _ => some (job.ctx.reqPid, v)
  | .responded v _ job _ => some (job.ctx.reqPid, v)
  | _ => none

/-- The caller of a step that a message takes. -/
def notified : Event → Option Pid
  | .delivered p _ => some p
  | .resumed p _ _ => some p
  | .returned p _ _ _ _ => some p
  | _ => none

/-- The steps that the system takes by itself; libcouchbase returns from every
operation.  That the terms of a dead server are collected and that somebody sends
something unrelated is not counted among them. -/
def Event.Own : Event → Prop
  | called _ _ _ _ => False
  | stopped _ => False
  | intruded _ _ => False
  | timedOut _ _ => False
  | _ => True

def calledPair : Event → Option (Pid × ServerId)
  | .called p v _ _ => some (p, v)
  | _ => none

variable {trace labels : List Event} {s s' : State} {event : Event} {p : Pid}
  {v : ServerId} {ref : Ref} {id : RequestId}

/-! ## The steps of a cast -/

/-- The steps ahead of the casts from `p` to `v`. -/
def workload (p : Pid) (v : ServerId) (s : State) : ℕ :=
  5 * (s.casts (p, v)).length +
    4 * ((s.inbox v).filter fun cast => cast.sender = p).length +
    3 * ((s.queue v).filter fun entry => entry.2.ctx.reqPid = p).length +
    2 * ((s.worker v).busy.filter fun entry => entry.2.ctx.reqPid = p).length +
    ((s.worker v).pending.filter fun entry => entry.2.1.ctx.reqPid = p).length

theorem sender_of_casts (hrun : Run machine trace s) {cast : Cast}
    (h : cast ∈ s.casts (p, v)) : cast.sender = p := by
  obtain ⟨lost, hcalls, -⟩ := castLaw hrun p v
  refine ((@mem_callTo _ trace p v cast).mp ?_).1
  rw [hcalls]
  exact List.mem_append_right _ h

theorem Step.workload (hstep : Step s event s')
    (hsender : ∀ {p v cast}, cast ∈ s.casts (p, v) → cast.sender = p)
    (p : Pid) (v : ServerId) :
    (servedPair event).toList.count (p, v) + System.workload p v s' ≤
      System.workload p v s + 5 * (calledPair event).toList.count (p, v) := by
  cases hstep with
  | @called p' v' ref request hphase =>
      by_cases h : (p', v') = (p, v)
      · obtain ⟨rfl, rfl⟩ := Prod.mk.inj h
        simp [System.workload, servedPair, calledPair]
        omega
      · simp [System.workload, servedPair, calledPair, Ne.symm h]
  | @arrived p' v' cast rest hcasts halive =>
      have hcast : cast.sender = p' := hsender (by rw [hcasts]; simp)
      by_cases hv : v' = v
      · subst hv
        by_cases hp : p' = p
        · subst hp
          simp [System.workload, servedPair, calledPair, hcasts, hcast]
          omega
        · simp [System.workload, servedPair, calledPair, hcast, hp, Ne.symm hp]
      · simp [System.workload, servedPair, calledPair, hv, Ne.symm hv]
  | @discarded p' v' cast rest hcasts hdead =>
      by_cases h : (p', v') = (p, v)
      · obtain ⟨rfl, rfl⟩ := Prod.mk.inj h
        simp [System.workload, servedPair, calledPair, hcasts]
        omega
      · simp [System.workload, servedPair, calledPair, h, Ne.symm h]
  | @accepted v' cast rest id message state job halive hinbox hrun =>
      obtain ⟨-, -, hctx, -, -⟩ := handleCast_eq_ok hrun
      by_cases hv : v' = v
      · subst hv
        by_cases hp : cast.sender = p
        · simp [System.workload, servedPair, calledPair, hinbox, hctx, hp]
          omega
        · simp [System.workload, servedPair, calledPair, hinbox, hctx, hp]
      · simp [System.workload, servedPair, calledPair, hv, Ne.symm hv]
  | @crashed v' cast rest id raise halive hinbox hrun =>
      by_cases hv : v' = v
      · subst hv
        by_cases hp : cast.sender = p
        · simp [System.workload, servedPair, calledPair, hinbox, hp]
          omega
        · simp [System.workload, servedPair, calledPair, hinbox, hp]
      · simp [System.workload, servedPair, calledPair, hv, Ne.symm hv]
  | @stopped v' hdead =>
      by_cases hv : v' = v
      · subst hv
        simp [System.workload, servedPair, calledPair]
      · simp [System.workload, servedPair, calledPair, Ne.symm hv]
  | @started v' ref job rest hworker hqueue =>
      by_cases hv : v' = v
      · subst hv
        by_cases hp : job.ctx.reqPid = p
        · simp [System.workload, servedPair, calledPair, hworker, hqueue, hp,
            Worker.busy, Worker.pending]
          omega
        · simp [System.workload, servedPair, calledPair, hworker, hqueue, hp,
            Worker.busy, Worker.pending]
      · simp [System.workload, servedPair, calledPair, hv, Ne.symm hv]
  | @executed v' ref job lcb hworker =>
      by_cases hv : v' = v
      · subst hv
        by_cases hp : job.ctx.reqPid = p
        · simp [System.workload, servedPair, calledPair, hworker, hp,
            Worker.busy, Worker.pending]
          omega
        · simp [System.workload, servedPair, calledPair, hworker, hp,
            Worker.busy, Worker.pending]
      · simp [System.workload, servedPair, calledPair, hv, Ne.symm hv]
  | @responded v' ref job body hworker =>
      by_cases hv : v' = v
      · subst hv
        by_cases hp : job.ctx.reqPid = p
        · simp [System.workload, servedPair, calledPair, hworker, hp,
            Worker.busy, Worker.pending]
          omega
        · simp [System.workload, servedPair, calledPair, hworker, hp,
            Worker.busy, Worker.pending]
      · simp [System.workload, servedPair, calledPair, hv, Ne.symm hv]
  | _ => simp [System.workload, servedPair, calledPair]

theorem served_le_called (hrun : Run machine trace s) (p : Pid)
    (v : ServerId) :
    (trace.filterMap servedPair).count (p, v) + workload p v s ≤
      5 * (trace.filterMap calledPair).count (p, v) := by
  refine @Run.invariant _ _ machine (fun trace s =>
    (trace.filterMap servedPair).count (p, v) + workload p v s ≤
      5 * (trace.filterMap calledPair).count (p, v)) ?_ ?_ _ _ hrun
  · intro s hs
    simp [workload, hs.casts p v, hs.inbox v, hs.queue v, hs.worker v,
      Worker.busy, Worker.pending]
  · intro trace s label s' hrun ih hstep
    have hlabel := Step.workload hstep (sender_of_casts hrun) p v
    simp only [List.filterMap_append, filterMap_singleton, List.count_append]
    omega

/-! ## The steps of a message -/

def intrudedOn (p : Pid) : Event → Option Term
  | .intruded p' content => if p' = p then some content else none
  | _ => none

theorem count_notified (p : Pid) (trace : List Event) :
    (trace.filterMap notified).count p + (trace.filterMap (intrudedOn p)).length =
      (trace.filterMap (receivedBy p)).length +
        (trace.filterMap (resumedBy p)).length +
        (trace.filterMap (returnedBy p)).length := by
  induction trace with
  | nil => rfl
  | cons event trace ih =>
      cases event with
      | delivered p' | intruded p' | resumed p' | returned p' =>
          by_cases hp : p' = p
          · simp [List.filterMap_cons, notified, intrudedOn, receivedBy,
              resumedBy, returnedBy, hp]
            omega
          · simpa [List.filterMap_cons, notified, intrudedOn, receivedBy,
              resumedBy, returnedBy, hp] using ih
      | _ => exact ih

theorem length_sentTo (p : Pid) (trace : List Event) :
    (trace.filterMap (sentTo p)).length =
      (trace.filterMap (acknowledgedTo p)).length +
        (trace.filterMap (answeredTo p)).length +
        (trace.filterMap (intrudedOn p)).length := by
  induction trace with
  | nil => rfl
  | cons event trace ih =>
      cases event with
      | accepted v cast job =>
          by_cases hp : cast.sender = p
          · simp [List.filterMap_cons, sentTo, acknowledgedTo, answeredTo,
              intrudedOn, hp]
            omega
          · simpa [List.filterMap_cons, sentTo, acknowledgedTo, answeredTo,
              intrudedOn, hp] using ih
      | responded v ref job body =>
          by_cases hp : job.ctx.reqPid = p
          · simp [List.filterMap_cons, sentTo, acknowledgedTo, answeredTo,
              intrudedOn, hp]
            omega
          · simpa [List.filterMap_cons, sentTo, acknowledgedTo, answeredTo,
              intrudedOn, hp] using ih
      | intruded p' content =>
          by_cases hp : p' = p
          · simp [List.filterMap_cons, sentTo, acknowledgedTo, answeredTo,
              intrudedOn, hp]
            omega
          · simpa [List.filterMap_cons, sentTo, acknowledgedTo, answeredTo,
              intrudedOn, hp] using ih
      | _ => exact ih

theorem length_calledBy (p : Pid) (trace : List Event) :
    (trace.filterMap (calledBy p)).length =
      ((trace.filterMap calledPair).map Prod.fst).count p := by
  induction trace with
  | nil => rfl
  | cons event trace ih =>
      cases event with
      | called p' =>
          by_cases hp : p' = p
          · simpa [calledBy, calledPair, hp] using ih
          · simpa [calledBy, calledPair, hp] using ih
      | _ => exact ih

/-- A call brings two messages, and the caller takes each once. -/
theorem notified_le_called (hrun : Run machine trace s) (p : Pid) :
    (trace.filterMap notified).count p ≤
      4 * ((trace.filterMap calledPair).map Prod.fst).count p := by
  have hnotified := count_notified p trace
  have hflight := (flightLaw hrun p).length_eq
  have hsent := length_sentTo p trace
  have hresumed := (sentTo_perm hrun p acceptedRef).length_eq
  have hreturned := (returned_subperm_resumed hrun p).length_le
  have hacknowledged := (acknowledged_subperm_called hrun p).length_le
  have hanswered := (answered_subperm_acknowledged hrun p).length_le
  rw [sentTo_acceptedRef, consumedBy_acceptedRef] at hresumed
  simp only [List.length_append, List.length_map] at hflight hresumed
  rw [length_calledBy] at hacknowledged
  omega

/-! ## The bound -/

theorem length_of_own (hown : ∀ event ∈ labels, event.Own) :
    labels.length = (labels.filterMap servedPair).length +
      (labels.filterMap notified).length := by
  induction labels with
  | nil => rfl
  | cons event labels ih =>
      rw [List.forall_mem_cons] at hown
      have hlength := ih hown.2
      cases event with
      | called | stopped | intruded | timedOut => exact hown.1.elim
      | _ =>
          simp [List.filterMap_cons, servedPair, notified]
          omega

theorem not_called_of_own (hown : event.Own) : calledPair event = none := by
  cases event with
  | called => exact hown.elim
  | _ => rfl

/-- Each call is worth at most nine steps. -/
theorem length_path_le (hrun : Run machine trace s)
    (hpath : Path machine Event.Own labels s s') :
    labels.length ≤ 9 * (trace.filterMap calledPair).length := by
  have hrun' := hrun.append_path hpath
  have hserved : ((trace ++ labels).filterMap servedPair).length ≤
      5 * ((trace ++ labels).filterMap calledPair).length := by
    apply length_le_of_count_le
    rintro ⟨p, v⟩
    have hcount := served_le_called hrun' p v
    omega
  have hnotified : ((trace ++ labels).filterMap notified).length ≤
      4 * (((trace ++ labels).filterMap calledPair).map Prod.fst).length :=
    length_le_of_count_le (notified_le_called hrun')
  have hlength := length_of_own hpath.own
  have hcalled : labels.filterMap calledPair = [] :=
    List.filterMap_eq_nil_iff.mpr fun _ hmem =>
      not_called_of_own (hpath.own _ hmem)
  simp only [List.filterMap_append, hcalled, List.append_nil, List.length_append,
    List.length_map] at hserved hnotified
  omega

/-! ## Calls and crashes -/

/-- A caller in its first receive has not left it before. -/
theorem not_resumed_of_awaitRef (hrun : Run machine trace s)
    (hrefs : RefsUnique trace) (hphase : s.phase p = .awaitRef v ref) :
    .resumed p ref id ∉ trace := by
  revert hrefs p v ref id
  refine @Run.invariant _ _ machine (fun trace s => ∀ {p v ref id},
    RefsUnique trace → s.phase p = .awaitRef v ref →
      .resumed p ref id ∉ trace) ?_ ?_ _ _ hrun
  · intro s hs p v ref id _ hphase
    simp
  · intro trace s label s' hrun ih hstep p v ref id hrefs hphase hmem
    rw [List.mem_append, List.mem_singleton] at hmem
    rcases Step.phase hstep p with
      hsame | hidle | ⟨v', ref', request, rfl, hnew⟩ | ⟨ref', id', rfl, hnew⟩
    · rcases hmem with hmem | rfl
      · exact ih hrefs.of_append (hsame ▸ hphase) hmem
      · cases hstep with
        | resumed => simp at hphase
    · rw [hidle] at hphase
      cases hphase
    · obtain ⟨rfl, rfl⟩ := CallPhase.awaitRef.inj (hnew.symm.trans hphase)
      have hmem := hmem.resolve_right (by simp)
      have hack := sentTo_of_consumedBy hrun (mem_consumedBy_of_resumed hmem)
      obtain ⟨w, cast, job, haccepted, rfl, rfl, -⟩ := mem_sentTo_accepted hack
      have hcalled := called_of_accepted hrun haccepted
      rw [RefsUnique, List.filterMap_append] at hrefs
      exact List.disjoint_of_nodup_append hrefs
        (List.mem_filterMap.mpr ⟨_, hcalled, rfl⟩) (by simp [calledRef])
    · rw [hnew] at hphase
      cases hphase

theorem dead_of_crashed (hrun : Run machine trace s) {cast : Cast}
    (h : .crashed v cast id ∈ trace) : s.alive v = false := by
  revert h
  refine @Run.invariant _ _ machine (fun trace s =>
    .crashed v cast id ∈ trace → s.alive v = false) ?_ ?_ _ _ hrun
  · intro s hs h
    cases h
  · intro trace s label s' _ ih hstep h
    rw [List.mem_append, List.mem_singleton] at h
    cases hstep with
    | @crashed v' cast' rest id' raise halive hinbox hrun =>
        by_cases hv : v = v'
        · simp [hv]
        · have hold := h.resolve_right (by simp [hv])
          simpa [hv] using ih hold
    | _ => exact ih (h.resolve_right (by simp))

/-- The response to a call in progress has not been taken. -/
theorem not_taken_of_open (hrun : Run machine trace s) {tag : Ref}
    {body : Term} (hrefs : RefsUnique trace)
    (hopen : tag ∈ (s.phase p).open) : .returned p ref id tag body ∉ trace := by
  revert hrefs p ref id tag body
  refine @Run.invariant _ _ machine (fun trace s => ∀ {p ref id tag body},
    RefsUnique trace → tag ∈ (s.phase p).open →
      .returned p ref id tag body ∉ trace) ?_ ?_ _ _ hrun
  · intro s hs p ref id tag body _ _
    simp
  · intro trace s label s' hrun ih hstep p ref id tag body hrefs hopen hmem
    rw [List.mem_append, List.mem_singleton] at hmem
    rcases Step.phase hstep p with
      hsame | hidle | ⟨v, ref', request, rfl, hnew⟩ | ⟨ref', id', rfl, hnew⟩
    · rcases hmem with hmem | rfl
      · exact ih hrefs.of_append (hsame ▸ hopen) hmem
      · cases hstep with
        | returned => simp [CallPhase.open] at hopen
    · rw [hidle] at hopen
      cases hopen
    · rw [hnew, CallPhase.open, List.mem_singleton] at hopen
      subst hopen
      have hmem := hmem.resolve_right (by simp)
      obtain ⟨w, job, hresponded, -⟩ := exists_responded_of_returned hrun hmem
      obtain ⟨cast, rfl, haccepted⟩ := accepted_of_responded hrun hresponded
      have hcalled := called_of_accepted hrun haccepted
      rw [RefsUnique, List.filterMap_append] at hrefs
      exact List.disjoint_of_nodup_append hrefs
        (List.mem_filterMap.mpr ⟨_, hcalled, rfl⟩) (by simp [calledRef])
    · rw [hnew, CallPhase.open, List.mem_singleton] at hopen
      subst hopen
      have hmem := hmem.resolve_right (by simp)
      cases hstep with
      | resumed hphase =>
          exact ih hrefs.of_append (by simp [hphase, CallPhase.open]) hmem

/-! ## What holds at rest -/

/-- Nothing is on its way, and whoever still waits called a server that is dead. -/
structure Rested (trace : List Event) (s : State) : Prop where
  casts : ∀ p v, s.casts (p, v) = []
  inbox : ∀ v, s.inbox v = []
  queue : ∀ v, s.queue v = []
  worker : ∀ v, s.worker v = .idle
  flight : s.flight = []
  waiting : ∀ {p ref}, ref ∈ (s.phase p).open →
    ∃ v request, .called p v ref request ∈ trace ∧ s.alive v = false

section Rest

variable (hrest : AtRest machine Event.Own s)
include hrest

theorem casts_of_rest (p : Pid) (v : ServerId) : s.casts (p, v) = [] := by
  cases hcasts : s.casts (p, v) with
  | nil => rfl
  | cons cast rest =>
      cases halive : s.alive v with
      | true => exact (hrest.elim (.arrived hcasts halive) trivial).elim
      | false => exact (hrest.elim (.discarded hcasts halive) trivial).elim

theorem inbox_of_rest (hrun : Run machine trace s) (v : ServerId) :
    s.inbox v = [] := by
  cases halive : s.alive v with
  | false => exact inboxLaw hrun v halive
  | true =>
      cases hinbox : s.inbox v with
      | nil => rfl
      | cons cast rest =>
          have hhandle := handleCast_run (0, 0, 0) cast (s.server v) []
          cases hoperation : cast.request.operation with
          | some operation =>
              rw [hoperation] at hhandle
              exact (hrest.elim (.accepted halive hinbox hhandle) trivial).elim
          | none =>
              rw [hoperation] at hhandle
              exact (hrest.elim (.crashed halive hinbox hhandle) trivial).elim

theorem worker_of_rest (v : ServerId) : s.worker v = .idle := by
  cases hworker : s.worker v with
  | idle => rfl
  | running ref job =>
      exact (hrest.elim (.executed Lcb.silent hworker) trivial).elim
  | finished ref job body =>
      exact (hrest.elim (.responded hworker) trivial).elim

theorem queue_of_rest (v : ServerId) : s.queue v = [] := by
  cases hqueue : s.queue v with
  | nil => rfl
  | cons entry rest =>
      exact (hrest.elim (.started (worker_of_rest hrest v) hqueue) trivial).elim

theorem flight_of_rest : s.flight = [] := by
  cases hflight : s.flight with
  | nil => rfl
  | cons entry rest =>
      exact (hrest.elim
        (@Step.delivered _ s entry.1 entry.2 [] rest hflight) trivial).elim

/-- Nothing that a caller waits for is in its mailbox. -/
theorem acknowledgement_of_rest {v : ServerId}
    (hphase : s.phase p = .awaitRef v ref) :
    .accepted ref id ∉ s.mailbox p := by
  intro hmem
  cases hreceive : selectiveReceive (acceptedFor ref) (s.mailbox p) with
  | none =>
      rw [selectiveReceive_eq_none_iff] at hreceive
      have hmatch := hreceive _ hmem
      simp [acceptedFor] at hmatch
  | some result => exact hrest.elim (.resumed hphase hreceive) trivial

theorem response_of_rest {body : Term} {tag : Ref}
    (hphase : s.phase p = .awaitResponse ref id) :
    .response id body tag ∉ s.mailbox p := by
  intro hmem
  cases hreceive : selectiveReceive (responseFor id) (s.mailbox p) with
  | none =>
      rw [selectiveReceive_eq_none_iff] at hreceive
      have hmatch := hreceive _ hmem
      simp [responseFor] at hmatch
  | some result => exact hrest.elim (.returned hphase hreceive) trivial

theorem accepted_of_rest (hrun : Run machine trace s) {request : Request}
    (halive : s.alive v = true) (hcalled : .called p v ref request ∈ trace) :
    ∃ cast job, cast.sender = p ∧ cast.ref = ref ∧
      .accepted v cast job ∈ trace := by
  obtain ⟨lost, hcalls, hlost⟩ := castLaw hrun p v
  have hnone : lost = [] := hlost.resolve_right (by simp [halive])
  have hmem : ⟨ref, p, request⟩ ∈ trace.filterMap (callTo p v) :=
    mem_callTo.mpr ⟨rfl, hcalled⟩
  rw [hcalls, hnone, inbox_of_rest hrest hrun, casts_of_rest hrest] at hmem
  simp only [List.filter_nil, List.append_nil] at hmem
  obtain ⟨event, hevent, hhandled⟩ := List.mem_filterMap.mp hmem
  cases event with
  | accepted v' cast job =>
      simp only [handledBy, Option.ite_none_right_eq_some, Option.some.injEq]
        at hhandled
      obtain ⟨⟨rfl, -⟩, rfl⟩ := hhandled
      exact ⟨_, job, rfl, rfl, hevent⟩
  | crashed v' cast id =>
      simp only [handledBy, Option.ite_none_right_eq_some] at hhandled
      obtain ⟨⟨rfl, -⟩, -⟩ := hhandled
      rw [dead_of_crashed hrun hevent] at halive
      cases halive
  | _ => cases hhandled

theorem responded_of_rest (hrun : Run machine trace s) {cast : Cast} {job : Job}
    (halive : s.alive v = true) (haccepted : .accepted v cast job ∈ trace) :
    ∃ body, .responded v cast.ref job body ∈ trace := by
  obtain ⟨dropped, hposted, hdropped⟩ := queueLaw hrun v
  have hnone : dropped = [] := hdropped.resolve_right (by simp [halive])
  have hmem := mem_postedTo.mpr ⟨cast, rfl, haccepted⟩
  rw [hposted, startLaw hrun v, responseLaw hrun v, hnone, queue_of_rest hrest,
    worker_of_rest hrest] at hmem
  simp only [Worker.busy, Worker.pending, List.append_nil, List.mem_map] at hmem
  obtain ⟨⟨ref, job', body⟩, hresponded, heq⟩ := hmem
  obtain ⟨rfl, rfl⟩ := Prod.mk.inj heq
  exact ⟨body, mem_respondedOn.mp hresponded⟩

theorem consumed_of_rest (hrun : Run machine trace s) {message : Message}
    (hsent : message ∈ trace.filterMap (sentTo p))
    (hmailbox : message ∉ s.mailbox p) :
    message ∈ trace.filterMap (consumedBy p) := by
  rw [(flightLaw hrun p).mem_iff, List.mem_append, (mailboxLaw hrun p).mem_iff,
    List.mem_append, State.inFlight, flight_of_rest hrest] at hsent
  simpa [hmailbox] using hsent

/-- A call to a server that is alive is not in its first receive. -/
theorem dead_of_awaitRef (hrun : Run machine trace s) (hrefs : RefsUnique trace)
    (hphase : s.phase p = .awaitRef v ref) :
    ∃ v request, .called p v ref request ∈ trace ∧ s.alive v = false := by
  have hlaw := phaseLaw hrun p
  rw [hphase] at hlaw
  obtain ⟨request, hcalled⟩ := hlaw
  refine ⟨v, request, hcalled, ?_⟩
  rw [← Bool.not_eq_true]
  intro halive
  obtain ⟨cast, job, rfl, rfl, haccepted⟩ :=
    accepted_of_rest hrest hrun halive hcalled
  have hsent : .accepted cast.ref job.ctx.reqId ∈
      trace.filterMap (sentTo cast.sender) :=
    List.mem_filterMap.mpr ⟨_, haccepted, by simp [sentTo]⟩
  have hconsumed := consumed_of_rest hrest hrun hsent
    (acknowledgement_of_rest hrest hphase)
  obtain ⟨event, hevent, hmessage⟩ := List.mem_filterMap.mp hconsumed
  cases event with
  | resumed p' ref' id' =>
      simp only [consumedBy, Option.ite_none_right_eq_some, Option.some.injEq,
        Message.accepted.injEq] at hmessage
      obtain ⟨rfl, rfl, rfl⟩ := hmessage
      exact not_resumed_of_awaitRef hrun hrefs hphase hevent
  | returned p' ref' id' tag body => simp [consumedBy] at hmessage
  | _ => cases hmessage

theorem dead_of_awaitResponse (hrun : Run machine trace s)
    (hrefs : RefsUnique trace)
    (hphase : s.phase p = .awaitResponse ref id) :
    ∃ v request, .called p v ref request ∈ trace ∧ s.alive v = false := by
  have hresumed := resumed_of_awaitResponse hrun hphase
  have hack := sentTo_of_consumedBy hrun (mem_consumedBy_of_resumed hresumed)
  obtain ⟨v, cast, job, haccepted, rfl, rfl, rfl⟩ := mem_sentTo_accepted hack
  refine ⟨v, cast.request, called_of_accepted hrun haccepted, ?_⟩
  rw [← Bool.not_eq_true]
  intro halive
  obtain ⟨body, hresponded⟩ := responded_of_rest hrest hrun halive haccepted
  have hsent : .response job.ctx.reqId body cast.ref ∈
      trace.filterMap (sentTo cast.sender) :=
    List.mem_filterMap.mpr ⟨_, hresponded, by
      simp [sentTo, (job_of_accepted hrun haccepted).1]⟩
  have hconsumed := consumed_of_rest hrest hrun hsent
    (response_of_rest hrest hphase)
  obtain ⟨event, hevent, hmessage⟩ := List.mem_filterMap.mp hconsumed
  cases event with
  | returned p' ref' id' tag' body' =>
      simp only [consumedBy, Option.ite_none_right_eq_some, Option.some.injEq,
        Message.response.injEq] at hmessage
      obtain ⟨rfl, rfl, rfl, rfl⟩ := hmessage
      refine not_taken_of_open hrun hrefs ?_ hevent
      simp [hphase, CallPhase.open]
  | resumed p' ref' id' => simp [consumedBy] at hmessage
  | _ => cases hmessage

theorem rested (hrun : Run machine trace s) (hrefs : RefsUnique trace) :
    Rested trace s where
  casts := casts_of_rest hrest
  inbox := inbox_of_rest hrest hrun
  queue := queue_of_rest hrest
  worker := worker_of_rest hrest
  flight := flight_of_rest hrest
  waiting := by
    intro p ref hopen
    cases hphase : s.phase p with
    | idle =>
        rw [hphase] at hopen
        cases hopen
    | awaitRef v ref' =>
        rw [hphase, CallPhase.open, List.mem_singleton] at hopen
        exact hopen ▸ dead_of_awaitRef hrest hrun hrefs hphase
    | awaitResponse ref' id =>
        rw [hphase, CallPhase.open, List.mem_singleton] at hopen
        exact hopen ▸ dead_of_awaitResponse hrest hrun hrefs hphase

end Rest

/-- What the calls made so far come to when the system is left alone. -/
structure Settles (trace : List Event) (s : State) : Prop where
  /-- Each call is worth at most nine steps. -/
  bounded : ∀ {labels s'}, Path machine Event.Own labels s s' →
    labels.length ≤ 9 * (trace.filterMap calledPair).length
  rests : ∃ labels s', Path machine Event.Own labels s s' ∧
    AtRest machine Event.Own s'
  rested : ∀ {labels s'}, Path machine Event.Own labels s s' →
    AtRest machine Event.Own s' → Rested (trace ++ labels) s'
  /-- With every server alive every call ends. -/
  ended : ∀ {labels s'}, Path machine Event.Own labels s s' →
    AtRest machine Event.Own s' → (∀ v, s'.alive v = true) →
    ∀ p, ((trace.filterMap (calledBy p)).map Prod.snd).Perm
      ((trace ++ labels).filterMap (returnedBy p) ++
        trace.filterMap (timedOutBy p))

theorem refsUnique_append (hrefs : RefsUnique trace)
    (hown : ∀ event ∈ labels, event.Own) : RefsUnique (trace ++ labels) := by
  have hcalled : labels.filterMap calledRef = [] := by
    rw [List.filterMap_eq_nil_iff]
    intro event hmem
    have hevent := hown event hmem
    cases event with
    | called => exact hevent.elim
    | _ => rfl
  rwa [RefsUnique, List.filterMap_append, hcalled, List.append_nil]

/-- Own steps neither call nor time out. -/
theorem not_observed_of_own (hown : ∀ event ∈ labels, event.Own) (p : Pid) :
    labels.filterMap (calledBy p) = [] ∧ labels.filterMap (timedOutBy p) = [] := by
  simp only [List.filterMap_eq_nil_iff]
  refine ⟨?_, ?_⟩
  all_goals
    intro event hmem
    have hevent := hown event hmem
    cases event with
    | called | timedOut => exact hevent.elim
    | _ => rfl

/-- No call is left waiting while its server lives, in whatever order the
processes take their steps. -/
theorem settles_of_run (hrun : Run machine trace s) (hrefs : RefsUnique trace) :
    Settles trace s where
  bounded := length_path_le hrun
  rests := exists_rest_of_bounded fun _ _ => length_path_le hrun
  rested := by
    intro labels s' hpath hrest
    exact rested hrest (hrun.append_path hpath)
      (refsUnique_append hrefs hpath.own)
  ended := by
    intro labels s' hpath hrest halive p
    have hrun' := hrun.append_path hpath
    have hrested := rested hrest hrun' (refsUnique_append hrefs hpath.own)
    have hidle : s'.phase p = .idle := by
      have hopen : (s'.phase p).open = [] := by
        rw [List.eq_nil_iff_forall_not_mem]
        intro ref hmem
        obtain ⟨v, request, -, hdead⟩ := hrested.waiting hmem
        rw [halive v] at hdead
        cases hdead
      cases hphase : s'.phase p with
      | idle => rfl
      | _ => simp [hphase, CallPhase.open] at hopen
    have hperm := called_perm hrun' hidle
    obtain ⟨hcalled, htimedOut⟩ := not_observed_of_own hpath.own p
    rw [List.filterMap_append, hcalled, List.append_nil] at hperm
    rwa [List.filterMap_append (f := timedOutBy p), htimedOut, List.append_nil]
      at hperm

end Runs

/-- After the first call of process 0 has timed out, and with the second one
under way. -/
theorem staleTrace_settles :
    let _ : LcbTypes := ⟨.uint32⟩
    ∃ s, Run machine (staleTrace.take 7) s ∧ Settles (staleTrace.take 7) s := by
  intro _
  obtain ⟨_, hrun⟩ := staleRun
  obtain ⟨s, hrun₁⟩ := @Run.exists_of_append _ _ machine (staleTrace.take 7)
    (staleTrace.drop 7) _ hrun
  have hrefs : RefsUnique (staleTrace.take 7) :=
    @RefsUnique.of_append _ _ (staleTrace.drop 7) staleTrace_refsUnique
  exact ⟨s, hrun₁, settles_of_run hrun₁ hrefs⟩

end Cberl.System
