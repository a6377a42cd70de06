import Cberl.System.Order

/-!
# What timed out calls leave behind

A call that times out is not withdrawn: its messages still come, and nothing
takes them out of the mailbox.  Counting what was called, sent and taken bounds
what is left by the calls that timed out.
-/

namespace Cberl.System

open Cberl Cberl.Support

section Runs

variable [LcbTypes]

/-! ## Readings of the trace by caller -/

def calledBy (p : Pid) : Event → Option (ServerId × Ref)
  | .called p' v ref _ => if p' = p then some (v, ref) else none
  | _ => none

/-- The call of `p` that a server acknowledges. -/
def acknowledgedTo (p : Pid) : Event → Option (ServerId × Ref)
  | .accepted v cast _ => if cast.sender = p then some (v, cast.ref) else none
  | _ => none

/-- The call of `p` that a worker answers. -/
def answeredTo (p : Pid) : Event → Option (ServerId × Ref)
  | .responded v ref job _ =>
      if job.ctx.reqPid = p then some (v, ref) else none
  | _ => none

/-- The call of `p` that leaves the first receive with its acknowledgement. -/
def resumedBy (p : Pid) : Event → Option Ref
  | .resumed p' ref _ => if p' = p then some ref else none
  | _ => none

def returnedBy (p : Pid) : Event → Option Ref
  | .returned p' ref _ _ _ => if p' = p then some ref else none
  | _ => none

def timedOutBy (p : Pid) : Event → Option Ref
  | .timedOut p' ref => if p' = p then some ref else none
  | _ => none

/-- The reference of a server's message. -/
def acceptedRef : Message → Option Ref
  | .accepted ref _ => some ref
  | _ => none

/-! ## The calls of one process -/

/-- The call in progress. -/
def CallPhase.open : CallPhase → List Ref
  | idle => []
  | awaitRef _ ref => [ref]
  | awaitResponse ref _ => [ref]

/-- The call in its second receive. -/
def CallPhase.resumed : CallPhase → List Ref
  | awaitResponse ref _ => [ref]
  | _ => []

variable {trace : List Event} {s : State} {p : Pid} {v : ServerId}

/-- A step begins a call of `p`, ends it, or moves it to its second receive. -/
theorem Step.turn {s s' : State} {event : Event} (hstep : Step s event s')
    (p : Pid) (ref : Ref) :
    (s.phase p).open.count ref +
          ((calledBy p event).map Prod.snd).toList.count ref =
        (s'.phase p).open.count ref + (returnedBy p event).toList.count ref +
          (timedOutBy p event).toList.count ref ∧
      (s'.phase p).resumed.count ref + (returnedBy p event).toList.count ref ≤
        (s.phase p).resumed.count ref +
          (resumedBy p event).toList.count ref := by
  cases hstep with
  | @called p' _ _ _ hphase | @resumed p' _ _ _ _ hphase _
  | @returned p' _ _ _ _ _ hphase _ | @refTimedOut p' _ _ hphase _
  | @responseTimedOut p' _ _ hphase _ =>
      by_cases hp : p' = p
      · subst hp
        simp [hphase, calledBy, returnedBy, timedOutBy, resumedBy,
          CallPhase.open, CallPhase.resumed]
      · simp [hp, Ne.symm hp, calledBy, returnedBy, timedOutBy, resumedBy]
  | _ => simp [calledBy, returnedBy, timedOutBy, resumedBy]

/-- Every call of `p` is in progress, has returned, or has timed out, and the
calls that returned had left the first receive. -/
def TurnLaw (trace : List Event) (s : State) : Prop :=
  ∀ p ref,
    ((trace.filterMap (calledBy p)).map Prod.snd).count ref =
        (s.phase p).open.count ref +
          (trace.filterMap (returnedBy p)).count ref +
          (trace.filterMap (timedOutBy p)).count ref ∧
      (s.phase p).resumed.count ref +
          (trace.filterMap (returnedBy p)).count ref ≤
        (trace.filterMap (resumedBy p)).count ref

theorem turnLaw (hrun : Run machine trace s) : TurnLaw trace s := by
  refine hrun.invariant ?_ ?_
  · intro s hs p ref
    simp [hs.phase p, CallPhase.open, CallPhase.resumed]
  · intro trace s label s' _ ih hstep p ref
    obtain ⟨hcalled, hresumed⟩ := ih p ref
    obtain ⟨hcalled', hresumed'⟩ := Step.turn hstep p ref
    simp only [List.filterMap_append, filterMap_singleton, List.map_append,
      List.count_append, ← Option.toList_map] at hcalled hresumed ⊢
    constructor
    · omega
    · omega

/-! ## The messages of the calls -/

/-- The calls of `p` answered by the worker of `v`. -/
def respondedRefsOf (p : Pid) (v : ServerId) (trace : List Event) : List Ref :=
  ((trace.filterMap (respondedOn v)).filter fun entry =>
    entry.2.1.ctx.reqPid = p).map Prod.fst

theorem calledBy_fibre (p : Pid) (v : ServerId) (trace : List Event) :
    ((trace.filterMap (calledBy p)).filter fun entry => entry.1 = v) =
      (callRefs p v trace).map (Prod.mk v) := by
  rw [callRefs, List.map_map, List.map_filterMap, List.filter_filterMap]
  apply List.filterMap_congr
  intro event _
  cases event with
  | called p' v' ref request =>
      by_cases hp : p' = p
      · by_cases hv : v' = v
        · simp [calledBy, callTo, hp, hv]
        · simp [calledBy, callTo, hp, hv]
      · simp [calledBy, callTo, hp]
  | _ => rfl

theorem acknowledgedTo_fibre (hrun : Run machine trace s) (p : Pid)
    (v : ServerId) :
    ((trace.filterMap (acknowledgedTo p)).filter fun entry => entry.1 = v) =
      (postedRefsOf p v trace).map (Prod.mk v) := by
  rw [postedRefsOf, List.map_map, List.filter_filterMap, List.filter_filterMap,
    List.map_filterMap]
  apply List.filterMap_congr
  intro event hevent
  cases event with
  | accepted v' cast job =>
      have hpid := (job_of_accepted hrun hevent).1
      by_cases hv : v' = v
      · by_cases hp : cast.sender = p
        · simp [acknowledgedTo, postedTo, Option.filter_some, hpid, hp, hv]
        · simp [acknowledgedTo, postedTo, Option.filter_some, hpid, hp, hv]
      · by_cases hp : cast.sender = p
        · simp [acknowledgedTo, postedTo, Option.filter_some, hp, hv]
        · simp [acknowledgedTo, postedTo, hp, hv]
  | _ => rfl

theorem answeredTo_fibre (p : Pid) (v : ServerId) (trace : List Event) :
    ((trace.filterMap (answeredTo p)).filter fun entry => entry.1 = v) =
      (respondedRefsOf p v trace).map (Prod.mk v) := by
  rw [respondedRefsOf, List.map_map, List.filter_filterMap, List.filter_filterMap,
    List.map_filterMap]
  apply List.filterMap_congr
  intro event _
  cases event with
  | responded v' ref job body =>
      by_cases hv : v' = v
      · by_cases hp : job.ctx.reqPid = p
        · simp [answeredTo, respondedOn, Option.filter_some, hp, hv]
        · simp [answeredTo, respondedOn, Option.filter_some, hp, hv]
      · by_cases hp : job.ctx.reqPid = p
        · simp [answeredTo, respondedOn, Option.filter_some, hp, hv]
        · simp [answeredTo, respondedOn, hp, hv]
  | _ => rfl

theorem respondedRefsOf_isPrefix (hrun : Run machine trace s) (p : Pid)
    (v : ServerId) : respondedRefsOf p v trace <+: executedRefsOf p v trace :=
  ((responded_isPrefix_executed hrun v).filter _).map _

/-- Only calls are acknowledged, each no more often than it is made. -/
theorem acknowledged_subperm_called (hrun : Run machine trace s) (p : Pid) :
    (trace.filterMap (acknowledgedTo p)).Subperm
      (trace.filterMap (calledBy p)) := by
  apply subperm_of_fibres
  intro v
  rw [acknowledgedTo_fibre hrun, calledBy_fibre]
  exact (((postedRefsOf_sublist_handled hrun p v).trans
    (handled_isPrefix_callRefs hrun p v).sublist).map _).subperm

/-- Only acknowledged calls are answered. -/
theorem answered_subperm_acknowledged (hrun : Run machine trace s) (p : Pid) :
    (trace.filterMap (answeredTo p)).Subperm
      (trace.filterMap (acknowledgedTo p)) := by
  apply subperm_of_fibres
  intro v
  rw [answeredTo_fibre, acknowledgedTo_fibre hrun]
  exact (((respondedRefsOf_isPrefix hrun p v).trans
    (executedRefsOf_isPrefix_posted hrun p v)).sublist.map _).subperm

theorem sentTo_acceptedRef (p : Pid) (trace : List Event) :
    (trace.filterMap (sentTo p)).filterMap acceptedRef =
      (trace.filterMap (acknowledgedTo p)).map Prod.snd := by
  rw [List.filterMap_filterMap, List.map_filterMap]
  apply List.filterMap_congr
  intro event _
  cases event with
  | accepted | responded | intruded =>
      simp only [sentTo, acknowledgedTo]
      split_ifs <;> rfl
  | _ => rfl

theorem sentTo_responseTag (p : Pid) (trace : List Event) :
    (trace.filterMap (sentTo p)).filterMap responseTag =
      (trace.filterMap (answeredTo p)).map Prod.snd := by
  rw [List.filterMap_filterMap, List.map_filterMap]
  apply List.filterMap_congr
  intro event _
  cases event with
  | accepted | responded | intruded =>
      simp only [sentTo, answeredTo]
      split_ifs <;> rfl
  | _ => rfl

theorem consumedBy_acceptedRef (p : Pid) (trace : List Event) :
    (trace.filterMap (consumedBy p)).filterMap acceptedRef =
      trace.filterMap (resumedBy p) := by
  rw [List.filterMap_filterMap]
  apply List.filterMap_congr
  intro event _
  cases event with
  | resumed | returned =>
      simp only [consumedBy, resumedBy]
      split_ifs <;> rfl
  | _ => rfl

/-- As many responses are taken as calls return. -/
theorem length_consumedBy_responseTag (p : Pid) (trace : List Event) :
    ((trace.filterMap (consumedBy p)).filterMap responseTag).length =
      (trace.filterMap (returnedBy p)).length := by
  rw [List.filterMap_filterMap, List.length_filterMap_eq_countP,
    List.length_filterMap_eq_countP]
  apply List.countP_congr
  intro event _
  cases event with
  | resumed | returned =>
      simp only [consumedBy, returnedBy]
      split_ifs <;> simp [responseTag]
  | _ => simp [consumedBy, returnedBy]

/-- When every response taken is the one of the call that returns it, the tags
taken are the calls that returned. -/
theorem consumedBy_responseTag (htag : ∀ {ref id tag body},
      .returned p ref id tag body ∈ trace → tag = ref) :
    (trace.filterMap (consumedBy p)).filterMap responseTag =
      trace.filterMap (returnedBy p) := by
  rw [List.filterMap_filterMap]
  apply List.filterMap_congr
  intro event hevent
  cases event with
  | resumed p' ref id =>
      by_cases hp : p' = p
      · simp [consumedBy, returnedBy, responseTag, hp]
      · simp [consumedBy, returnedBy, hp]
  | returned p' ref id tag body =>
      by_cases hp : p' = p
      · subst hp
        simp [consumedBy, returnedBy, responseTag, htag hevent]
      · simp [consumedBy, returnedBy, hp]
  | _ => rfl

/-- What was sent to `p` is on its way, in the mailbox, or taken. -/
theorem sentTo_perm (hrun : Run machine trace s) (p : Pid)
    (read : Message → Option Ref) :
    ((trace.filterMap (sentTo p)).filterMap read).Perm
      ((s.inFlight p).filterMap read ++ ((s.mailbox p).filterMap read ++
        (trace.filterMap (consumedBy p)).filterMap read)) := by
  have hperm := (flightLaw hrun p).trans ((mailboxLaw hrun p).append_left _)
  simpa only [List.filterMap_append] using hperm.filterMap read

/-! ## Leftovers -/

/-- Without a crash the server is alive. -/
theorem alive_of_live (hrun : Run machine trace s) (hlive : Live v trace) :
    s.alive v = true := by
  revert hlive
  refine @Run.invariant _ _ machine (fun trace s => Live v trace →
    s.alive v = true) ?_ ?_ _ _ hrun
  · intro s hs _
    exact hs.alive v
  · intro trace s label s' _ ih hstep hlive
    have halive : s.alive v = true :=
      ih fun cast id h => hlive cast id (List.mem_append_left _ h)
    cases hstep with
    | @crashed v' cast rest id raise _ hinbox _ =>
        have hv : v ≠ v' := by
          rintro rfl
          exact hlive cast id (by simp)
        simpa [hv] using halive
    | _ => exact halive

/-- `p` has no call in progress, and nothing of its calls is on its way. -/
structure Quiescent (p : Pid) (s : State) : Prop where
  idle : s.phase p = .idle
  casts : ∀ v, s.casts (p, v) = []
  inbox : ∀ v, ∀ cast ∈ s.inbox v, cast.sender ≠ p
  queue : ∀ v, ∀ entry ∈ s.queue v, entry.2.ctx.reqPid ≠ p
  busy : ∀ v, ∀ entry ∈ (s.worker v).busy, entry.2.ctx.reqPid ≠ p
  pending : ∀ v, ∀ entry ∈ (s.worker v).pending, entry.2.1.ctx.reqPid ≠ p
  flight : s.inFlight p = []

/-- Nothing of the calls of `p` is in its mailbox. -/
def Clean (p : Pid) (s : State) : Prop :=
  ∀ message ∈ s.mailbox p, ∃ content, message = .other content

/-- What is left in the mailbox of `p` was sent for calls that timed out. -/
structure LeftByTimeouts (p : Pid) (trace : List Event) (s : State) : Prop where
  /-- Each acknowledgement left is the one of a call that timed out. -/
  accepted : ((s.mailbox p).filterMap acceptedRef).Subperm
    (trace.filterMap (timedOutBy p))
  /-- There are at most as many responses left as calls timed out. -/
  responses : ((s.mailbox p).filterMap responseTag).length ≤
    (trace.filterMap (timedOutBy p)).length
  /-- With distinct ids for `p`, each response left is the one of a call that
  timed out. -/
  tags : IdsDistinctTo p trace → ((s.mailbox p).filterMap responseTag).Subperm
    (trace.filterMap (timedOutBy p))
  /-- No timeouts, nothing left. -/
  clean : trace.filterMap (timedOutBy p) = [] → Clean p s
  /-- As long as the servers live, every timeout leaves a response. -/
  everyTimeout : (∀ v ref request, .called p v ref request ∈ trace →
      Live v trace) →
    ((s.mailbox p).filterMap responseTag).length =
      (trace.filterMap (timedOutBy p)).length

theorem called_perm (hrun : Run machine trace s) (hidle : s.phase p = .idle) :
    ((trace.filterMap (calledBy p)).map Prod.snd).Perm
      (trace.filterMap (returnedBy p) ++ trace.filterMap (timedOutBy p)) := by
  rw [List.perm_iff_count]
  intro ref
  have hcount := (turnLaw hrun p ref).1
  rw [hidle] at hcount
  simpa [CallPhase.open] using hcount

theorem returned_subperm_resumed (hrun : Run machine trace s) (p : Pid) :
    (trace.filterMap (returnedBy p)).Subperm
      (trace.filterMap (resumedBy p)) := by
  rw [List.subperm_ext_iff]
  intro ref _
  have hcount := (turnLaw hrun p ref).2
  omega

theorem acceptedRef_subperm_timedOut (hrun : Run machine trace s)
    (hidle : s.phase p = .idle) :
    ((s.mailbox p).filterMap acceptedRef).Subperm
      (trace.filterMap (timedOutBy p)) := by
  have hsent := sentTo_perm hrun p acceptedRef
  rw [sentTo_acceptedRef, consumedBy_acceptedRef] at hsent
  have hcalled := subperm_map (acknowledged_subperm_called hrun p) Prod.snd
  rw [List.subperm_ext_iff]
  intro ref _
  have h₁ := hsent.count_eq ref
  have h₂ := hcalled.count_le ref
  have h₃ := (called_perm hrun hidle).count_eq ref
  have h₄ := (returned_subperm_resumed hrun p).count_le ref
  simp only [List.count_append] at h₁ h₃
  omega

theorem answered_subperm_called (hrun : Run machine trace s) (p : Pid) :
    ((trace.filterMap (answeredTo p)).map Prod.snd).Subperm
      ((trace.filterMap (calledBy p)).map Prod.snd) :=
  subperm_map ((answered_subperm_acknowledged hrun p).trans
    (acknowledged_subperm_called hrun p)) Prod.snd

theorem length_responseTag_le (hrun : Run machine trace s)
    (hidle : s.phase p = .idle) :
    ((s.mailbox p).filterMap responseTag).length ≤
      (trace.filterMap (timedOutBy p)).length := by
  have hsent := (sentTo_perm hrun p responseTag).length_eq
  rw [sentTo_responseTag] at hsent
  simp only [List.length_append, length_consumedBy_responseTag] at hsent
  have hcalled := (answered_subperm_called hrun p).length_le
  have hended := (called_perm hrun hidle).length_eq
  rw [List.length_append] at hended
  omega

theorem responseTag_subperm_timedOut (hrun : Run machine trace s)
    (hidle : s.phase p = .idle) (hids : IdsDistinctTo p trace) :
    ((s.mailbox p).filterMap responseTag).Subperm
      (trace.filterMap (timedOutBy p)) := by
  have hsent := sentTo_perm hrun p responseTag
  rw [sentTo_responseTag, consumedBy_responseTag fun h =>
    (answered_of_returned hrun hids h).1] at hsent
  rw [List.subperm_ext_iff]
  intro ref _
  have h₁ := hsent.count_eq ref
  have h₂ := (answered_subperm_called hrun p).count_le ref
  have h₃ := (called_perm hrun hidle).count_eq ref
  simp only [List.count_append] at h₁ h₃
  omega

/-! ## When everything has come through -/

theorem respondedRefsOf_eq_posted (hrun : Run machine trace s)
    (hq : Quiescent p s) (hlive : Live v trace) :
    respondedRefsOf p v trace = postedRefsOf p v trace := by
  obtain ⟨dropped, hposted, hdropped⟩ := queueLaw hrun v
  have hnone : dropped = [] :=
    hdropped.resolve_right fun h => by simp [alive_of_live hrun hlive] at h
  have hqueue : (s.queue v).filter (fun entry => entry.2.ctx.reqPid = p) = [] := by
    simpa using hq.queue v
  have hbusy : (s.worker v).busy.filter (fun entry => entry.2.ctx.reqPid = p) =
      [] := by
    simpa using hq.busy v
  have hpending : (s.worker v).pending.filter
      (fun entry => entry.2.1.ctx.reqPid = p) = [] := by
    simpa using hq.pending v
  rw [postedRefsOf, hposted, startLaw hrun v, responseLaw hrun v, hnone]
  simp [respondedRefsOf, hqueue, hbusy, hpending, List.filter_map, Function.comp_def]

theorem handled_eq_callRefs (hrun : Run machine trace s)
    (hq : Quiescent p s) (hlive : Live v trace) :
    (trace.filterMap (handledBy v p)).map Cast.ref = callRefs p v trace := by
  obtain ⟨lost, hcalls, hlost⟩ := castLaw hrun p v
  have hnone : lost = [] :=
    hlost.resolve_right fun h => by simp [alive_of_live hrun hlive] at h
  have hinbox : (s.inbox v).filter (fun cast => cast.sender = p) = [] := by
    simpa using hq.inbox v
  rw [callRefs, hcalls, hnone, hinbox, hq.casts v]
  simp

theorem answered_perm_called (hrun : Run machine trace s) (hq : Quiescent p s)
    (hlive : ∀ v ref request, .called p v ref request ∈ trace →
      Live v trace) :
    (trace.filterMap (answeredTo p)).Perm (trace.filterMap (calledBy p)) := by
  apply perm_of_fibres
  intro v
  rw [answeredTo_fibre, calledBy_fibre]
  apply List.Perm.map
  by_cases hcalls : callRefs p v trace = []
  · have hprefix := (respondedRefsOf_isPrefix hrun p v).trans
      (executedRefsOf_isPrefix_posted hrun p v)
    have hsublist := hprefix.sublist.trans
      ((postedRefsOf_sublist_handled hrun p v).trans
        (handled_isPrefix_callRefs hrun p v).sublist)
    rw [hcalls, List.sublist_nil] at hsublist
    rw [hcalls, hsublist]
  · obtain ⟨ref, href⟩ := List.exists_mem_of_ne_nil _ hcalls
    obtain ⟨cast, hcast, -⟩ := List.mem_map.mp href
    have hlive' := hlive v _ _ (mem_callTo.mp hcast).2
    rw [respondedRefsOf_eq_posted hrun hq hlive',
      postedRefsOf_eq_handled hrun hlive', handled_eq_callRefs hrun hq hlive']

theorem length_responseTag_eq (hrun : Run machine trace s) (hq : Quiescent p s)
    (hlive : ∀ v ref request, .called p v ref request ∈ trace →
      Live v trace) :
    ((s.mailbox p).filterMap responseTag).length =
      (trace.filterMap (timedOutBy p)).length := by
  have hsent := (sentTo_perm hrun p responseTag).length_eq
  rw [sentTo_responseTag, List.length_map,
    (answered_perm_called hrun hq hlive).length_eq, hq.flight] at hsent
  simp only [List.length_append, length_consumedBy_responseTag,
    List.filterMap_nil, List.length_nil] at hsent
  have hended := (called_perm hrun hq.idle).length_eq
  rw [List.length_append, List.length_map] at hended
  omega

theorem clean_of_no_timeouts (hrun : Run machine trace s)
    (hidle : s.phase p = .idle)
    (hnone : trace.filterMap (timedOutBy p) = []) : Clean p s := by
  have hrefs := (acceptedRef_subperm_timedOut hrun hidle).length_le
  have htags := length_responseTag_le hrun hidle
  rw [hnone, List.length_nil, Nat.le_zero, List.length_eq_zero_iff,
    List.filterMap_eq_nil_iff] at hrefs htags
  intro message hmessage
  cases message with
  | accepted ref id => cases hrefs _ hmessage
  | response id body tag => cases htags _ hmessage
  | other content => exact ⟨content, rfl⟩

/-- What is left when a process has no call in progress and nothing is on its
way, after any calls with any timeouts. -/
theorem leftByTimeouts_of_quiescent (hrun : Run machine trace s)
    (hq : Quiescent p s) : LeftByTimeouts p trace s where
  accepted := acceptedRef_subperm_timedOut hrun hq.idle
  responses := length_responseTag_le hrun hq.idle
  tags := responseTag_subperm_timedOut hrun hq.idle
  clean := clean_of_no_timeouts hrun hq.idle
  everyTimeout := length_responseTag_eq hrun hq

/-! ## A call that times out in its first receive -/

/-- The acknowledgement and the response of call 1 arrive when nobody waits for
them. -/
def lateTrace : List Event :=
  [.called 0 0 1 (staleCast 1).request,
    .arrived 0 0 (staleCast 1),
    .timedOut 0 1,
    .accepted 0 (staleCast 1) (staleJob 1),
    .started 0 1 (staleJob 1),
    .executed 0 1 (staleJob 1) emptyReply,
    .responded 0 1 (staleJob 1) emptyReply,
    .delivered 0 (.accepted 1 (1, 0, 0)),
    .delivered 0 (.response (1, 0, 0) emptyReply 1)]

theorem lateRun :
    ∃ s, Run machine lateTrace s ∧ Quiescent 0 s ∧
      s.mailbox 0 = [.accepted 1 (1, 0, 0), .response (1, 0, 0) emptyReply 1] := by
  have h₀ : Run machine [] quietState := .start initial_quietState
  have h₁ : Run machine (lateTrace.take 1) _ := h₀.step (Step.called rfl)
  have h₂ : Run machine (lateTrace.take 2) _ := h₁.step (Step.arrived rfl rfl)
  have h₃ : Run machine (lateTrace.take 3) _ :=
    h₂.step (Step.refTimedOut rfl rfl)
  have h₄ : Run machine (lateTrace.take 4) _ :=
    h₃.step (Step.accepted rfl rfl rfl)
  have h₅ : Run machine (lateTrace.take 5) _ := h₄.step (Step.started rfl rfl)
  have h₆ : Run machine (lateTrace.take 6) _ :=
    h₅.step (Step.executed Lcb.silent rfl)
  have h₇ : Run machine (lateTrace.take 7) _ := h₆.step (Step.responded rfl)
  have h₈ : Run machine (lateTrace.take 8) _ :=
    h₇.step (@Step.delivered _ _ _ _ [] [_] rfl)
  have h₉ : Run machine (lateTrace.take 9) _ :=
    h₈.step (@Step.delivered _ _ _ _ [] [] rfl)
  refine ⟨_, h₉, ?_, rfl⟩
  constructor
  case idle => rfl
  case flight => rfl
  all_goals
    intro v
    by_cases hv : v = 0
    · subst hv
      simp [quietState, Worker.busy, Worker.pending]
    · simp [quietState, Worker.busy, Worker.pending, hv]

end Runs

theorem lateTrace_left :
    let _ : LcbTypes := ⟨.uint32⟩
    ∃ s, Run machine lateTrace s ∧ LeftByTimeouts 0 lateTrace s := by
  intro _
  obtain ⟨s, hrun, hq, -⟩ := lateRun
  exact ⟨s, hrun, leftByTimeouts_of_quiescent hrun hq⟩

/-- A quiescent process whose mailbox holds both messages of a call. -/
theorem lateTrace_not_clean :
    let _ : LcbTypes := ⟨.uint32⟩
    ∃ s, Run machine lateTrace s ∧ Quiescent 0 s ∧ ¬ Clean 0 s := by
  intro _
  obtain ⟨s, hrun, hq, hmailbox⟩ := lateRun
  refine ⟨s, hrun, hq, ?_⟩
  intro hclean
  obtain ⟨content, h⟩ := hclean (.accepted 1 (1, 0, 0)) (by simp [hmailbox])
  cases h

end Cberl.System
