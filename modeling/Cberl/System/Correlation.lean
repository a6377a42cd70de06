import Cberl.System.Uniqueness

/-!
# Responses reach the calls they belong to

A caller may be in its second receive while messages of abandoned calls keep
arriving.  What it takes there has the id it waits for; an id was issued for
one cast of this caller only, and the response with this id comes from the
execution of the job posted for that cast.
-/

namespace Cberl.System

open Cberl Cberl.Support

section Runs

variable [LcbTypes]

/-- The call whose response message is taken. -/
def consumedTag : Event → Option Ref
  | .returned _ _ _ tag _ => some tag
  | _ => none

/-- Every response is the one of the call that returns it, it is taken once,
and it stays until its call takes it. -/
structure Correlated (trace : List Event) (s : State) : Prop where
  /-- What a call returns is the response term of the one execution of the
  request that it cast. -/
  answered : ∀ {p ref id tag body}, .returned p ref id tag body ∈ trace →
    tag = ref ∧ ∃ v request job lcb,
      .called p v ref request ∈ trace ∧
      request.operation = some job.operation ∧
      .executed v ref job body ∈ trace ∧
      body = job.operation.execute lcb
  /-- No response message is consumed twice. -/
  consumedOnce : (trace.filterMap consumedTag).Nodup
  /-- A delivered response waits in the mailbox until its own call returns. -/
  kept : ∀ {p id body tag}, .delivered p (.response id body tag) ∈ trace →
    .response id body tag ∈ s.mailbox p ∨ .returned p tag id tag body ∈ trace
  /-- A call whose response is there does not time out and can return it. -/
  received : ∀ {p ref id body}, s.phase p = .awaitResponse ref id →
    .response id body ref ∈ s.mailbox p →
    (∀ s', ¬ Step s (.timedOut p ref) s') ∧
      ∃ s', Step s (.returned p ref id ref body) s'

variable {trace : List Event} {s : State} {v : ServerId} {p : Pid}
  {ref tag : Ref} {id : RequestId} {body : Term}

/-! ## One response -/

/-- A response sent to `p` under an id that `p` was told for `ref` is a
response to `ref`. -/
theorem responded_of_sentTo (hrun : Run machine trace s)
    (hids : IdsDistinctTo p trace)
    (hack : .accepted ref id ∈ trace.filterMap (sentTo p))
    (hsent : .response id body tag ∈ trace.filterMap (sentTo p)) :
    tag = ref ∧ ∃ v cast job, cast.sender = p ∧ cast.ref = ref ∧
      .accepted v cast job ∈ trace ∧ .responded v ref job body ∈ trace := by
  obtain ⟨v, cast, job, haccepted, hsender, rfl, hid⟩ := mem_sentTo_accepted hack
  obtain ⟨v', job', hresponded, hctx⟩ := mem_sentTo_response hsent
  obtain ⟨cast', rfl, haccepted'⟩ := accepted_of_responded hrun hresponded
  have hsender' : cast'.sender = p := by
    rw [← (job_of_accepted hrun haccepted').1, hctx]
  have hrefeq : cast'.ref = cast.ref := by
    apply hids.ref_eq haccepted' haccepted hsender' hsender
    rw [hctx, hid]
  refine ⟨hrefeq, v', cast', job', hsender', hrefeq, haccepted', ?_⟩
  rwa [hrefeq] at hresponded

/-- The same for the message a caller in its second receive finds. -/
theorem responded_of_awaitResponse (hrun : Run machine trace s)
    (hids : IdsDistinctTo p trace) (hphase : s.phase p = .awaitResponse ref id)
    (hmailbox : .response id body tag ∈ s.mailbox p) :
    tag = ref ∧ ∃ v cast job, cast.sender = p ∧ cast.ref = ref ∧
      .accepted v cast job ∈ trace ∧ .responded v ref job body ∈ trace := by
  have hresumed := resumed_of_awaitResponse hrun hphase
  have hack := sentTo_of_consumedBy hrun (mem_consumedBy_of_resumed hresumed)
  exact responded_of_sentTo hrun hids hack (sentTo_of_mailbox hrun hmailbox)

theorem mailbox_of_returned {s' : State}
    (hstep : Step s (.returned p ref id tag body) s') :
    s.phase p = .awaitResponse ref id ∧
      .response id body tag ∈ s.mailbox p := by
  cases hstep with
  | returned hphase hreceive =>
      obtain ⟨message, hmessage, hperm⟩ :=
        exists_perm_of_selectiveReceive hreceive
      obtain rfl := responseFor_eq_some_iff.mp hmessage
      exact ⟨hphase, hperm.mem_iff.mpr (by simp)⟩

/-- What a call returns was sent to its caller, by whichever worker. -/
theorem exists_responded_of_returned (hrun : Run machine trace s)
    (h : .returned p ref id tag body ∈ trace) :
    ∃ v job, .responded v tag job body ∈ trace ∧ job.ctx = ⟨p, id⟩ := by
  have hsent := sentTo_of_consumedBy hrun (mem_consumedBy_of_returned h)
  exact mem_sentTo_response hsent

/-- A call that returns a response has made exactly the request whose execution
produced it. -/
theorem answered_of_returned (hrun : Run machine trace s)
    (hids : IdsDistinctTo p trace)
    (h : .returned p ref id tag body ∈ trace) :
    tag = ref ∧ ∃ v request job lcb,
      .called p v ref request ∈ trace ∧
      request.operation = some job.operation ∧
      .executed v ref job body ∈ trace ∧
      body = job.operation.execute lcb := by
  obtain ⟨before, after, rfl⟩ := List.append_of_mem h
  obtain ⟨s₁, s₂, hrun₁, hstep⟩ := hrun.exists_step
  obtain ⟨hphase, hmailbox⟩ := mailbox_of_returned hstep
  obtain ⟨htag, v, cast, job, rfl, rfl, haccepted, hresponded⟩ :=
    responded_of_awaitResponse hrun₁ hids.of_append hphase hmailbox
  have hcalled := called_of_accepted hrun₁ haccepted
  have hexecuted := executed_of_responded hrun₁ hresponded
  obtain ⟨lcb, hbody⟩ := execute_of_executed hrun₁ hexecuted
  exact ⟨htag, v, cast.request, job, lcb, List.mem_append_left _ hcalled,
    (job_of_accepted hrun₁ haccepted).2, List.mem_append_left _ hexecuted,
    hbody⟩

/-! ## No response twice -/

def respondedRef : Event → Option Ref
  | .responded _ ref _ _ => some ref
  | _ => none

def responseTag : Message → Option Ref
  | .response _ _ tag => some tag
  | _ => none

/-- At most one response is sent for a call, by whichever worker. -/
theorem respondedRef_nodup (hrun : Run machine trace s)
    (hrefs : RefsUnique trace) : (trace.filterMap respondedRef).Nodup := by
  revert hrefs
  refine @Run.invariant _ _ machine (fun trace _ => RefsUnique trace →
    (trace.filterMap respondedRef).Nodup) ?_ ?_ _ _ hrun
  · intro s hs _
    exact List.nodup_nil
  · intro trace s label s' hrun ih hstep hrefs
    have hrun' : Run machine (trace ++ [label]) s' := .step hrun hstep
    apply nodup_filterMap_concat (ih hrefs.of_append)
    intro ref hnew hold
    obtain ⟨event, hevent, href⟩ := List.mem_filterMap.mp hold
    cases label with
    | responded v ref' job body =>
        obtain rfl := Option.some.inj hnew
        cases event with
        | responded v' ref' job' body' =>
            obtain rfl := Option.some.inj href
            obtain ⟨rfl, -, -⟩ := hrefs.responded_inj hrun'
              (List.mem_append_left _ hevent)
              (List.mem_append_right _ (List.mem_singleton.mpr rfl))
            have honce := responded_nodup hrun' hrefs v'
            rw [List.filterMap_append, List.map_append] at honce
            refine List.disjoint_of_nodup_append honce
              (List.mem_map.mpr ⟨_, mem_respondedOn.mpr hevent, rfl⟩) ?_
            simp [respondedOn]
        | _ => cases href
    | _ => cases hnew

/-- The responses sent to one caller carry different tags. -/
theorem sentTags_nodup (hrun : Run machine trace s) (hrefs : RefsUnique trace)
    (p : Pid) :
    ((trace.filterMap (sentTo p)).filterMap responseTag).Nodup := by
  apply List.Nodup.sublist _ (respondedRef_nodup hrun hrefs)
  rw [List.filterMap_filterMap]
  apply filterMap_sublist_of_imp
  intro event _ tag h
  obtain ⟨message, hsent, htag⟩ := Option.bind_eq_some_iff.mp h
  cases message with
  | response id body tag' =>
      obtain ⟨v, job, rfl, -⟩ := eq_responded_of_sentTo hsent
      exact htag
  | _ => cases htag

/-- What waits in a mailbox has not been consumed. -/
theorem not_consumed_of_mailbox {id' : RequestId} {body' : Term}
    (hrun : Run machine trace s) (hrefs : RefsUnique trace)
    (hmailbox : .response id body tag ∈ s.mailbox p) :
    .response id' body' tag ∉ trace.filterMap (consumedBy p) := by
  intro hconsumed
  have hnodup := sentTags_nodup hrun hrefs p
  have hperm := (flightLaw hrun p).trans ((mailboxLaw hrun p).append_left _)
  have htags := hperm.filterMap responseTag
  rw [htags.nodup_iff, List.filterMap_append, List.filterMap_append] at hnodup
  have hdisjoint := List.disjoint_of_nodup_append hnodup.of_append_right
  exact hdisjoint (List.mem_filterMap.mpr ⟨_, hmailbox, rfl⟩)
    (List.mem_filterMap.mpr ⟨_, hconsumed, rfl⟩)

theorem consumedTag_nodup (hrun : Run machine trace s)
    (hrefs : RefsUnique trace) (hids : IdsDistinct trace) :
    (trace.filterMap consumedTag).Nodup := by
  revert hrefs hids
  refine @Run.invariant _ _ machine (fun trace _ => RefsUnique trace →
    IdsDistinct trace → (trace.filterMap consumedTag).Nodup) ?_ ?_ _ _ hrun
  · intro s hs _ _
    exact List.nodup_nil
  · intro trace s label s' hrun ih hstep hrefs hids
    apply nodup_filterMap_concat (ih hrefs.of_append hids.of_append)
    intro tag hnew hold
    obtain ⟨event, hevent, htag⟩ := List.mem_filterMap.mp hold
    cases label with
    | returned p ref id tag' body =>
        obtain rfl := Option.some.inj hnew
        cases event with
        | returned p' ref' id' tag'' body' =>
            obtain rfl := Option.some.inj htag
            obtain ⟨hphase, hmailbox⟩ := mailbox_of_returned hstep
            obtain ⟨rfl, v, cast, job, rfl, hcast, haccepted, -⟩ :=
              responded_of_awaitResponse hrun (hids.of_append _) hphase hmailbox
            obtain ⟨rfl, v', request, job', lcb, hcalled, -⟩ :=
              answered_of_returned hrun (hids.of_append _) hevent
            have hcalled' := called_of_accepted hrun haccepted
            rw [hcast] at hcalled'
            obtain ⟨rfl, -, -⟩ := hrefs.of_append.called_inj hcalled hcalled'
            exact not_consumed_of_mailbox hrun hrefs.of_append hmailbox
              (mem_consumedBy_of_returned hevent)
        | _ => cases htag
    | _ => cases hnew

/-! ## No response lost -/

theorem mailbox_or_returned_of_delivered (hrun : Run machine trace s)
    (hids : IdsDistinct trace)
    (h : .delivered p (.response id body tag) ∈ trace) :
    .response id body tag ∈ s.mailbox p ∨
      .returned p tag id tag body ∈ trace := by
  have hreceived : .response id body tag ∈ trace.filterMap (receivedBy p) :=
    List.mem_filterMap.mpr ⟨_, h, by simp [receivedBy]⟩
  rw [(mailboxLaw hrun p).mem_iff, List.mem_append] at hreceived
  refine hreceived.imp_right fun hconsumed => ?_
  obtain ⟨event, hevent, hmessage⟩ := List.mem_filterMap.mp hconsumed
  cases event with
  | returned p' ref id' tag' body' =>
      simp only [consumedBy, Option.ite_none_right_eq_some, Option.some.injEq,
        Message.response.injEq] at hmessage
      obtain ⟨rfl, rfl, rfl, rfl⟩ := hmessage
      obtain ⟨rfl, -⟩ := answered_of_returned hrun (hids _) hevent
      exact hevent
  | resumed p' ref id' => simp [consumedBy] at hmessage
  | _ => cases hmessage

/-- With its response in the mailbox a call cannot time out. -/
theorem not_timedOut_of_mailbox {s' : State}
    (hphase : s.phase p = .awaitResponse ref id)
    (hmailbox : .response id body tag ∈ s.mailbox p) :
    ¬ Step s (.timedOut p ref) s' := by
  intro hstep
  cases hstep with
  | refTimedOut hphase' hreceive =>
      rw [hphase] at hphase'
      cases hphase'
  | responseTimedOut hphase' hreceive =>
      rw [hphase, CallPhase.awaitResponse.injEq] at hphase'
      obtain ⟨-, rfl⟩ := hphase'
      rw [selectiveReceive_eq_none_iff] at hreceive
      have hmatch := hreceive _ hmailbox
      simp [responseFor] at hmatch

/-- With its response in the mailbox a call can return it. -/
theorem exists_returned_of_mailbox (hrun : Run machine trace s)
    (hrefs : RefsUnique trace) (hids : IdsDistinct trace)
    (hphase : s.phase p = .awaitResponse ref id)
    (hmailbox : .response id body ref ∈ s.mailbox p) :
    ∃ s', Step s (.returned p ref id ref body) s' := by
  cases hreceive : selectiveReceive (responseFor id) (s.mailbox p) with
  | none =>
      rw [selectiveReceive_eq_none_iff] at hreceive
      have hmatch := hreceive _ hmailbox
      simp [responseFor] at hmatch
  | some result =>
      obtain ⟨⟨tag, body'⟩, rest⟩ := result
      have hstep := Step.returned hphase hreceive
      obtain ⟨-, hmailbox'⟩ := mailbox_of_returned hstep
      obtain ⟨-, v, cast, job, -, -, -, hresponded⟩ :=
        responded_of_awaitResponse hrun (hids p) hphase hmailbox
      obtain ⟨rfl, v', cast', job', -, -, -, hresponded'⟩ :=
        responded_of_awaitResponse hrun (hids p) hphase hmailbox'
      obtain ⟨-, -, rfl⟩ := hrefs.responded_inj hrun hresponded hresponded'
      exact ⟨_, hstep⟩

/-- Response correlation, for every interleaving of callers, servers, workers
and deliveries. -/
theorem correlated_of_run (hrun : Run machine trace s)
    (hrefs : RefsUnique trace) (hids : IdsDistinct trace) :
    Correlated trace s where
  answered := answered_of_returned hrun (hids _)
  consumedOnce := consumedTag_nodup hrun hrefs hids
  kept := mailbox_or_returned_of_delivered hrun hids
  received := fun hphase hmailbox =>
    ⟨fun _ => not_timedOut_of_mailbox hphase hmailbox,
      exists_returned_of_mailbox hrun hrefs hids hphase hmailbox⟩

/-! ## A stale response -/

def staleCast (ref : Ref) : Cast :=
  { ref, sender := 0, request := .remove .nil }

def staleJob (ref : Ref) : Job :=
  { ctx := { reqPid := 0, reqId := (ref, 0, 0) }
    connection := 0
    operation := .remove [] }

/-- `{ok, []}` -/
def emptyReply : Term :=
  .tuple [.atom "ok", .nil]

/-- The first call of process 0 times out, and its response arrives during the
second call, before the acknowledgement of that one. -/
def staleTrace : List Event :=
  [.called 0 0 1 (staleCast 1).request,
    .arrived 0 0 (staleCast 1),
    .timedOut 0 1,
    .called 0 0 2 (staleCast 2).request,
    .accepted 0 (staleCast 1) (staleJob 1),
    .arrived 0 0 (staleCast 2),
    .accepted 0 (staleCast 2) (staleJob 2),
    .started 0 1 (staleJob 1),
    .executed 0 1 (staleJob 1) emptyReply,
    .responded 0 1 (staleJob 1) emptyReply,
    .delivered 0 (.response (1, 0, 0) emptyReply 1),
    .started 0 2 (staleJob 2),
    .executed 0 2 (staleJob 2) emptyReply,
    .responded 0 2 (staleJob 2) emptyReply,
    .delivered 0 (.response (2, 0, 0) emptyReply 2),
    .delivered 0 (.accepted 2 (2, 0, 0)),
    .resumed 0 2 (2, 0, 0),
    .returned 0 2 (2, 0, 0) 2 emptyReply]

def quietState : State where
  phase _ := .idle
  mailbox _ := []
  casts _ := []
  alive _ := true
  server _ := { client := 0, connection := 0 }
  inbox _ := []
  queue _ := []
  worker _ := .idle
  flight := []

theorem initial_quietState : Initial quietState := by
  refine ⟨?_, ?_, ?_, ?_, ?_, ?_, ?_, ?_⟩ <;> intros <;> rfl

theorem staleRun : ∃ s, Run machine staleTrace s := by
  have h₀ : Run machine [] quietState := .start initial_quietState
  have h₁ : Run machine (staleTrace.take 1) _ := h₀.step (Step.called rfl)
  have h₂ : Run machine (staleTrace.take 2) _ := h₁.step (Step.arrived rfl rfl)
  have h₃ : Run machine (staleTrace.take 3) _ :=
    h₂.step (Step.refTimedOut rfl rfl)
  have h₄ : Run machine (staleTrace.take 4) _ := h₃.step (Step.called rfl)
  have h₅ : Run machine (staleTrace.take 5) _ :=
    h₄.step (Step.accepted rfl rfl rfl)
  have h₆ : Run machine (staleTrace.take 6) _ := h₅.step (Step.arrived rfl rfl)
  have h₇ : Run machine (staleTrace.take 7) _ :=
    h₆.step (Step.accepted rfl rfl rfl)
  have h₈ : Run machine (staleTrace.take 8) _ := h₇.step (Step.started rfl rfl)
  have h₉ : Run machine (staleTrace.take 9) _ :=
    h₈.step (Step.executed Lcb.silent rfl)
  have h₁₀ : Run machine (staleTrace.take 10) _ := h₉.step (Step.responded rfl)
  have h₁₁ : Run machine (staleTrace.take 11) _ :=
    h₁₀.step (@Step.delivered _ _ _ _ [_, _] [] rfl)
  have h₁₂ : Run machine (staleTrace.take 12) _ :=
    h₁₁.step (Step.started rfl rfl)
  have h₁₃ : Run machine (staleTrace.take 13) _ :=
    h₁₂.step (Step.executed Lcb.silent rfl)
  have h₁₄ : Run machine (staleTrace.take 14) _ := h₁₃.step (Step.responded rfl)
  have h₁₅ : Run machine (staleTrace.take 15) _ :=
    h₁₄.step (@Step.delivered _ _ _ _ [_, _] [] rfl)
  have h₁₆ : Run machine (staleTrace.take 16) _ :=
    h₁₅.step (@Step.delivered _ _ _ _ [_] [] rfl)
  have h₁₇ : Run machine (staleTrace.take 17) _ :=
    h₁₆.step (Step.resumed rfl rfl)
  exact ⟨_, h₁₇.step (Step.returned rfl rfl)⟩

theorem staleTrace_refsUnique : RefsUnique staleTrace := by
  have hrefs : staleTrace.filterMap calledRef = [1, 2] := rfl
  rw [RefsUnique, hrefs]
  decide

theorem staleTrace_idsDistinct : IdsDistinct staleTrace := by
  intro p
  by_cases hp : 0 = p
  · subst hp
    have hids : staleTrace.filterMap (issuedTo 0) = [(1, 0, 0), (2, 0, 0)] := rfl
    rw [hids]
    decide
  · have hids : staleTrace.filterMap (issuedTo p) = [] := by
      simp [staleTrace, List.filterMap_cons, issuedTo, staleCast, hp]
    rw [hids]
    exact List.nodup_nil

end Runs

theorem staleTrace_correlated :
    let _ : LcbTypes := ⟨.uint32⟩
    ∃ s, Run machine staleTrace s ∧ Correlated staleTrace s := by
  intro _
  obtain ⟨s, hrun⟩ := staleRun
  exact ⟨s, hrun, correlated_of_run hrun staleTrace_refsUnique
    staleTrace_idsDistinct⟩

end Cberl.System
