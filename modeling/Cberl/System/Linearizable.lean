import Cberl.Store.Commands
import Cberl.System.SharedBucket

/-!
# Calls on a shared bucket are linearizable

A command takes effect where it is executed: after its call was made, because a
worker hands libcouchbase only what was cast, and before `call/3` returns a body
that is not an error, because such a body reports the callbacks of all commands.
The order of these points explains every history of calls by one reference
object.
-/

namespace Cberl.System

open Cberl Cberl.Store Cberl.Support

section Runs

variable [LcbTypes]

variable {σ : Service} {bucket : Bucket} {trace : List (SharedEvent σ)}
  {s : SharedState σ} {state : σ.RefState} {p : Pid} {v : ServerId} {ref : Ref}
  {job : Job} {call : σ.Call} {request : Request} {outcome : Outcome Term}

/-! ## Commands take effect as their requests do -/

/-- A pending command belongs to a call. -/
theorem call_of_ledger (hrun : Run (sharedMachine σ bucket) trace s)
    {name : Ref × ℕ} {command : σ.Command} (h : (name, command) ∈ s.ledger) :
    ∃ call single, .invoke name.1 call ∈ trace.filterMap SharedEvent.action ∧
      (σ.singles call)[name.2]? = some single ∧ σ.Carries command single := by
  obtain ⟨v, job, hstarted, hcommand⟩ :=
    mem_issued.mp ((ledger_perm hrun).mem_iff.mp h)
  obtain ⟨p, call, request, hcalled, hbecomes⟩ :=
    call_of_started hrun (mem_events.mpr ⟨_, hstarted, rfl⟩)
  obtain ⟨single, hsingle, hcarried⟩ :=
    getElem?_of_forall₂ hbecomes.commands hcommand
  exact ⟨call, single, List.mem_filterMap.mpr ⟨_, hcalled, rfl⟩, hsingle,
    hcarried⟩

theorem mem_ledger_of_pending {before after : List ((Ref × ℕ) × σ.Command)}
    {entry : (Ref × ℕ) × σ.Command}
    (h : s.pending = before ++ entry :: after) : entry ∈ s.ledger := by
  simp [SharedState.ledger, h]

/-- The executed commands, one after the other, take the reference object along
with the bucket. -/
theorem shared_legal (hstate : σ.Represents bucket state)
    (hrun : Run (sharedMachine σ bucket) trace s) :
    ∃ state', σ.Represents s.bucket state' ∧
      Legal σ.Apply
        (Requested σ.singles (trace.filterMap SharedEvent.action))
        state (trace.filterMap SharedEvent.effect) state' := by
  refine @Run.invariant _ _ (sharedMachine σ bucket) (fun trace s =>
    ∃ state', σ.Represents s.bucket state' ∧
      Legal σ.Apply
        (Requested σ.singles (trace.filterMap SharedEvent.action))
        state (trace.filterMap SharedEvent.effect) state') ?_ ?_ _ _ hrun
  · rintro s ⟨-, rfl, -, -⟩
    exact ⟨state, hstate, .nil⟩
  · rintro trace s label s' hrun ⟨state', hstate', hlegal⟩ hstep
    have hkeep : ∀ n x,
        Requested σ.singles (trace.filterMap SharedEvent.action) n x →
        Requested σ.singles
          ((trace ++ [label]).filterMap SharedEvent.action) n x := by
      rintro n x ⟨call, hcall, hx⟩
      rw [List.filterMap_append]
      exact ⟨call, List.mem_append_left _ hcall, hx⟩
    have hlegal' := hlegal.mono hkeep
    rw [List.filterMap_append (f := SharedEvent.effect)]
    cases hstep with
    | @served ref i command before after fresh hpending hfirst =>
        obtain ⟨call, single, hcall, hsingle, hcarries⟩ :=
          call_of_ledger hrun (mem_ledger_of_pending hpending)
        obtain ⟨state'', entry, hresponse, happly, hstate''⟩ :=
          σ.refApply hcarries hstate' fresh
        have hentry : σ.entry command
            (σ.callback fresh (s.bucket (σ.key command)) command) = entry := by
          rw [CallKind.entry, hresponse]
        refine ⟨state'', hstate'', hlegal'.concat ?_ (hentry ▸ happly)⟩
        exact hkeep _ _ ⟨call, hcall, hsingle⟩
    | _ => exact ⟨state', hstate', by simpa [SharedEvent.effect] using hlegal'⟩

/-- An executed command has taken effect with the entry that the caller gets of
its callback. -/
theorem entry_of_answered (hstate : σ.Represents bucket state)
    (hrun : Run (sharedMachine σ bucket) trace s) :
    ∀ answer ∈ s.answered, answer.2.2.key = σ.key answer.2.1 ∧
      ∃ entry, σ.response answer.2.1 answer.2.2 = .ok entry ∧
        (answer.1, entry) ∈ trace.filterMap SharedEvent.effect := by
  refine @Run.invariant _ _ (sharedMachine σ bucket) (fun trace s =>
    ∀ answer ∈ s.answered, answer.2.2.key = σ.key answer.2.1 ∧
      ∃ entry, σ.response answer.2.1 answer.2.2 = .ok entry ∧
        (answer.1, entry) ∈ trace.filterMap SharedEvent.effect) ?_ ?_ _ _ hrun
  · rintro s ⟨-, -, -, hanswered⟩
    simp [hanswered]
  · intro trace s label s' hrun ih hstep answer hanswer
    have hkeep : answer ∈ s.answered → answer.2.2.key = σ.key answer.2.1 ∧
        ∃ entry, σ.response answer.2.1 answer.2.2 = .ok entry ∧
          (answer.1, entry) ∈
            (trace ++ [label]).filterMap SharedEvent.effect := by
      intro hold
      obtain ⟨hkey, entry, hresponse, hentry⟩ := ih answer hold
      rw [List.filterMap_append]
      exact ⟨hkey, entry, hresponse, List.mem_append_left _ hentry⟩
    cases hstep with
    | @served ref i command before after fresh hpending hfirst =>
        rcases List.mem_append.mp hanswer with hold | hnew
        · exact hkeep hold
        · obtain rfl := List.mem_singleton.mp hnew
          obtain ⟨state', hstate', -⟩ := shared_legal hstate hrun
          obtain ⟨call, single, -, -, hcarries⟩ :=
            call_of_ledger hrun (mem_ledger_of_pending hpending)
          obtain ⟨-, entry, hresponse, -, -⟩ := σ.refApply hcarries hstate' fresh
          refine ⟨rfl, entry, hresponse, ?_⟩
          simp [SharedEvent.effect, CallKind.entry, hresponse]
    | _ => exact hkeep hanswer

/-! ## What a reply is made of -/

/-- The commands of a call are those of the one job started for it. -/
theorem issued_filter (hrun : Run (sharedMachine σ bucket) trace s)
    (hrefs : RefsUnique (events trace))
    (hstarted : SharedEvent.started v ref job ∈ trace) :
    ((issued trace).filter fun entry => entry.1.1 = ref).Perm
      (issuedBy σ ref job) := by
  have hnodup := nodup_issued hrun hrefs
  have hnodup' : (issuedBy σ ref job).Nodup :=
    (issuedBy_nodup ref job).of_map
  rw [List.perm_ext_iff_of_nodup (hnodup.of_map.filter _) hnodup']
  rintro ⟨name, command⟩
  rw [List.mem_filter, mem_issued, mem_issuedBy]
  constructor
  · rintro ⟨⟨v', job', hstarted', hcommand⟩, href⟩
    obtain rfl : name.1 = ref := by simpa using href
    have heq := eq_of_observe_eq (startedRef_nodup (run_events hrun) hrefs)
      (mem_events.mpr ⟨_, hstarted, rfl⟩) (mem_events.mpr ⟨_, hstarted', rfl⟩)
      rfl rfl
    obtain ⟨-, -, rfl⟩ := Event.started.inj heq
    exact ⟨rfl, hcommand⟩
  · rintro ⟨rfl, hcommand⟩
    exact ⟨⟨v, job, hstarted, hcommand⟩, by simp⟩

/-- The executed commands of a call of which none is pending are all commands
of the call; key by key they were executed in its order. -/
theorem callbacks_of_none_pending
    (hstate : σ.Represents bucket state)
    (hrun : Run (sharedMachine σ bucket) trace s)
    (hrefs : RefsUnique (events trace))
    (hstarted : SharedEvent.started v ref job ∈ trace)
    (hnone : ∀ entry ∈ s.pending, entry.1.1 ≠ ref) :
    ∃ answers : List ((Ref × ℕ) × σ.Command × Callback Term),
      (∀ answer ∈ answers, answer ∈ s.answered) ∧
      answers.map (fun answer => (answer.1, answer.2.1)) = issuedBy σ ref job ∧
      KeyEquiv Callback.key (s.callbacks ref)
        (answers.map fun answer => answer.2.2) := by
  have hledger : (s.answered.filter fun answer => answer.1.1 = ref).map
      (fun answer => (answer.1, answer.2.1)) =
        s.ledger.filter fun entry => entry.1.1 = ref := by
    have hpending : (s.pending.filter fun entry => entry.1.1 = ref) = [] := by
      simpa [List.filter_eq_nil_iff] using hnone
    rw [SharedState.ledger, List.filter_append, hpending, List.append_nil,
      List.filter_map]
    rfl
  have hperm := ((ledger_perm hrun).filter fun entry => entry.1.1 = ref).trans
    (issued_filter hrun hrefs hstarted)
  rw [← hledger] at hperm
  obtain ⟨answers, hanswers, hperm'⟩ :
      Relation.Comp (fun xs ys => xs = List.map _ ys) List.Perm
        (issuedBy σ ref job)
        (s.answered.filter fun answer => answer.1.1 = ref) := by
    rw [List.eq_map_comp_perm]
    exact hperm.symm
  have hmem : ∀ answer ∈ answers, answer ∈ s.answered := fun answer h =>
    (List.mem_filter.mp (hperm'.mem_iff.mp h)).1
  have hkeys : ∀ answer ∈ s.answered, answer.2.2.key = σ.key answer.2.1 :=
    fun answer h => (entry_of_answered hstate hrun answer h).1
  have hequiv : KeyEquiv (fun answer => answer.2.2.key)
      (s.answered.filter fun answer => answer.1.1 = ref) answers := by
    refine KeyEquiv.of_perm (r := fun a b => a.1.2 < b.1.2)
      (fun a b h => Nat.lt_asymm h) hperm'.symm ?_ ?_
    · have horder := (List.pairwise_append.mp (ledger_inCallOrder hrun hrefs)).1
      rw [List.pairwise_map] at horder
      refine (horder.filter _).imp_of_mem ?_
      intro a b ha hb h hkey
      obtain ⟨ha, haref⟩ := List.mem_filter.mp ha
      obtain ⟨hb, hbref⟩ := List.mem_filter.mp hb
      rw [hkeys a ha, hkeys b hb] at hkey
      have href : a.1.1 = b.1.1 := by
        simp only [decide_eq_true_eq] at haref hbref
        rw [haref, hbref]
      exact h href hkey
    · have horder := @issuedBy_inCallOrder _ σ ref job
      rw [hanswers, InCallOrder, List.pairwise_map] at horder
      refine horder.imp_of_mem ?_
      intro a b ha hb h hkey
      rw [hkeys a (hmem a ha), hkeys b (hmem b hb)] at hkey
      have href : ∀ answer ∈ answers, answer.1.1 = ref := fun answer h => by
        simpa using (List.mem_filter.mp (hperm'.mem_iff.mp h)).2
      exact h ((href a ha).trans (href b hb).symm) hkey
  exact ⟨answers, hmem, hanswers.symm, hequiv.map _ fun _ => rfl⟩

/-- A reply without an error has, key by key, the entries with which the
commands of the call took effect. -/
theorem answers_of_reports (hstate : σ.Represents bucket state)
    (hrun : Run (sharedMachine σ bucket) trace s)
    (hrefs : RefsUnique (events trace))
    (hstarted : SharedEvent.started v ref job ∈ trace)
    (hbecomes : σ.Becomes call job.operation)
    (hstatus : outcome.schedule.or outcome.wait = none)
    (hreports : Reports s ref outcome) :
    ∃ answers, σ.Reply call outcome.replyTerm answers ∧
      answers.length = (σ.singles call).length ∧
      ∀ i answer, answers[i]? = some answer →
        ((ref, i), answer) ∈ trace.filterMap SharedEvent.effect := by
  obtain ⟨rows, hmem, hrows, hkeyEquiv⟩ :=
    callbacks_of_none_pending hstate hrun hrefs hstarted hreports.none_pending
  obtain ⟨entries, hentries⟩ := exists_forall₂_iff.mpr fun row hrow =>
    (entry_of_answered hstate hrun row (hmem row hrow)).2
  refine ⟨entries, ?_, ?_, ?_⟩
  · refine reply_of_keyEquiv hstatus (hreports.callbacks.trans hkeyEquiv) ?_
    rw [List.forall₂_map_left_iff]
    refine (List.forall₂_and_left _ _).mpr ⟨fun row hrow => hrow, hentries⟩
      |>.imp fun row entry h => ?_
    have hissued : (row.1, row.2.1) ∈ issuedBy σ ref job := by
      rw [← hrows]
      exact List.mem_map.mpr ⟨row, h.1, rfl⟩
    have hcommand := List.mem_of_getElem? (mem_issuedBy.mp hissued).2
    rw [hbecomes.entry _ hcommand]
    exact h.2.1
  · have hlength := congrArg List.length hrows
    rw [List.length_map, hentries.length_eq] at hlength
    rw [hlength, ← hbecomes.commands.length_eq]
    simp [issuedBy]
  · intro i answer hi
    obtain ⟨row, hrow, -, heffect⟩ := getElem?_of_forall₂ hentries.flip hi
    have hname : (issuedBy σ ref job)[i]? = some (row.1, row.2.1) := by
      rw [← hrows, List.getElem?_map, hrow]
      rfl
    have hposition : row.1 = (ref, i) := by
      simp only [issuedBy, List.getElem?_map, List.getElem?_zipIdx,
        Option.map_map, Option.map_eq_some_iff] at hname
      obtain ⟨command, -, hcommand⟩ := hname
      simpa using (Prod.mk.inj hcommand).1.symm
    rw [hposition] at heffect
    exact heffect

/-! ## Linearizability -/

theorem justified (hrun : Run (sharedMachine σ bucket) trace s) :
    Justified SharedEvent.action SharedEvent.effect trace := by
  intro before label after ref i entry htrace heffect
  subst htrace
  obtain ⟨s₁, s₂, hrun₁, hstep⟩ := hrun.exists_step
  cases hstep with
  | @served ref' i' command _ _ fresh hpending hfirst =>
      obtain ⟨hname, -⟩ := Prod.mk.inj (Option.some.inj heffect)
      obtain ⟨rfl, rfl⟩ := Prod.mk.inj hname
      obtain ⟨call, single, hcall, -⟩ :=
        call_of_ledger hrun₁ (mem_ledger_of_pending hpending)
      exact List.mem_filterMap.mpr ⟨_, hcall, rfl⟩
  | _ => cases heffect

omit [LcbTypes] in
/-- The body of a response without an error comes from an operation that did
not fail. -/
theorem status_of_succeeded (h : succeeded outcome.replyTerm = true) :
    outcome.schedule.or outcome.wait = none := by
  cases hstatus : outcome.schedule.or outcome.wait with
  | none => rfl
  | some err =>
      rw [Outcome.replyTerm, hstatus] at h
      simp [succeeded, LcbError.toTerm] at h

/-- An execution is never quiet. -/
theorem executed_of_events (hrun : Run (sharedMachine σ bucket) trace s)
    {body : Term} (h : .executed v ref job body ∈ events trace) :
    SharedEvent.executed v ref job body ∈ trace := by
  obtain ⟨label, hlabel, hevent, s₁, s₂, hstep⟩ := exists_step_of_event hrun h
  cases hstep with
  | executed lcb hstep hreports =>
      cases hevent
      exact hlabel
  | quiet hquiet hstep =>
      obtain rfl := Option.some.inj hevent
      exact hquiet.elim
  | _ => cases hevent

/-- An executed operation whose response is not an error has answered all of
its commands. -/
theorem answers_of_executed (hstate : σ.Represents bucket state)
    (hrun : Run (sharedMachine σ bucket) trace s)
    (hrefs : RefsUnique (events trace)) {body : Term}
    (h : SharedEvent.executed v ref job body ∈ trace)
    (hsucceeded : succeeded body = true) :
    ∃ call answers, .invoke ref call ∈ trace.filterMap SharedEvent.action ∧
      σ.Reply call body answers ∧
      answers.length = (σ.singles call).length ∧
      ∀ i answer, answers[i]? = some answer →
        ((ref, i), answer) ∈ trace.filterMap SharedEvent.effect := by
  obtain ⟨before, after, rfl⟩ := List.append_of_mem h
  obtain ⟨s₁, s₂, hrun₁, hstep⟩ := hrun.exists_step
  have hrefs₁ : RefsUnique (events before) := by
    rw [events, List.filterMap_append] at hrefs
    exact hrefs.of_append
  cases hstep with
  | executed lcb hstep hreports =>
      have hrun₂ := (run_events hrun₁).step hstep
      have hlast : .executed v ref job (job.operation.execute lcb) ∈
          events before ++ [.executed v ref job (job.operation.execute lcb)] := by
        simp
      have hstarted : .started v ref job ∈ events before := by
        simpa using started_of_executed hrun₂ hlast
      obtain ⟨p, call, request, hcalled, hbecomes⟩ :=
        call_of_started hrun₁ hstarted
      obtain ⟨outcome, houtcome⟩ := hbecomes.outcome lcb
      rw [Operation.execute_eq_replyTerm houtcome] at hsucceeded ⊢
      have hstatus := status_of_succeeded hsucceeded
      obtain ⟨answers, hanswers, hlength, heffects⟩ :=
        answers_of_reports hstate hrun₁ hrefs₁
          (started_of_events hrun₁ hstarted) hbecomes hstatus
          (hreports outcome houtcome hstatus)
      refine ⟨call, answers, ?_, hanswers, hlength, ?_⟩
      · rw [List.filterMap_append]
        exact List.mem_append_left _
          (List.mem_filterMap.mpr ⟨_, hcalled, rfl⟩)
      · intro i answer hi
        rw [List.filterMap_append]
        exact List.mem_append_left _ (heffects i answer hi)

/-- What a caller gets was returned, without an error. -/
theorem returned_of_respond {label : SharedEvent σ} {body : Term}
    (h : label.action = some (.respond ref body)) :
    ∃ p id tag, label = .quiet (.returned p ref id tag body) ∧
      succeeded body = true := by
  cases label with
  | quiet event =>
      cases event with
      | returned p ref' id tag body' =>
          simp only [SharedEvent.action, Option.ite_none_right_eq_some,
            Option.some.injEq, Action.respond.injEq] at h
          obtain ⟨hsucceeded, rfl, rfl⟩ := h
          exact ⟨p, id, tag, rfl, hsucceeded⟩
      | _ => cases h
  | _ => cases h

theorem fulfilled (hstate : σ.Represents bucket state)
    (hrun : Run (sharedMachine σ bucket) trace s)
    (hrefs : RefsUnique (events trace)) (hids : IdsDistinct (events trace)) :
    Fulfilled σ.singles σ.Reply
      SharedEvent.action SharedEvent.effect trace := by
  intro before label after ref body htrace haction
  obtain ⟨p, id, tag, rfl, hsucceeded⟩ := returned_of_respond haction
  subst htrace
  obtain ⟨s₁, s₂, hrun₁, hstep⟩ := hrun.exists_step
  have hrun₂ := run_events (hrun₁.step hstep)
  have hevents : events (before ++
      SharedEvent.quiet (.returned p ref id tag body) :: after) =
      (events before ++ [.returned p ref id tag body]) ++ events after := by
    simp [events, SharedEvent.event]
  rw [hevents] at hids hrefs
  have hreturned : .returned p ref id tag body ∈
      events before ++ [.returned p ref id tag body] := by simp
  have hlast : events
      (before ++ [SharedEvent.quiet (.returned p ref id tag body)]) =
      events before ++ [.returned p ref id tag body] := by
    simp [events, SharedEvent.event]
  rw [hlast] at hrun₂
  obtain ⟨-, v, request, job, lcb, -, -, hexecuted, -⟩ :=
    answered_of_returned hrun₂ (hids.of_append p) hreturned
  have hbefore : .executed v ref job body ∈ events before := by
    simpa using hexecuted
  exact answers_of_executed hstate hrun₁ hrefs.of_append.of_append
    (executed_of_events hrun₁ hbefore) hsucceeded

theorem invokedNames_nodup (hrefs : RefsUnique (events trace)) :
    (invokedNames SharedEvent.action trace).Nodup := by
  refine List.Nodup.sublist ?_ hrefs
  rw [invokedNames, events, List.filterMap_filterMap, List.filterMap_filterMap]
  apply filterMap_sublist_of_imp
  intro label _ ref h
  obtain ⟨action, haction, hinvoked⟩ := Option.bind_eq_some_iff.mp h
  cases label with
  | called p v ref' call request =>
      obtain rfl := Option.some.inj haction
      exact hinvoked
  | quiet event =>
      cases event with
      | returned p ref' id tag body =>
          simp only [SharedEvent.action, Option.ite_none_right_eq_some,
            Option.some.injEq] at haction
          obtain ⟨-, rfl⟩ := haction
          cases hinvoked
      | _ => cases haction
  | _ => cases haction

/-- The history of all calls on the bucket is linearizable, command by
command. -/
theorem linearizes (hstate : σ.Represents bucket state)
    (hrun : Run (sharedMachine σ bucket) trace s)
    (hrefs : RefsUnique (events trace)) (hids : IdsDistinct (events trace)) :
    ∃ state', σ.Represents s.bucket state' ∧
      Linearizes σ.Apply σ.singles σ.Reply
        (trace.filterMap SharedEvent.action) state
        (trace.filterMap SharedEvent.effect) state' := by
  obtain ⟨state', hstate', hlegal⟩ := shared_legal hstate hrun
  exact ⟨state', hstate', linearizes_of_points (invokedNames_nodup hrefs)
    hlegal (effects_nodup hrun hrefs) (justified hrun)
    (fulfilled hstate hrun hrefs hids)⟩

/-- The same store for the key `[2]`. -/
def storeSeven₂ : Api.StoreRequest :=
  { storeSeven with key := [2] }

def carriedSeven₂ : StoreRequest :=
  { carriedSeven with key := [2] }

def storeCast : Cast where
  ref := 1
  sender := 0
  request := .store (.list (([[1], [2]] : List Bytes).map fun key => .tuple
    [.int (getStoreOperationId .set), .binary key,
      .binary (Codec.digits.termToBinary (.int 7)), .int (Api.encoderFlags .raw),
      .int 0, .int 0]))

def storeJob : Job where
  ctx := { reqPid := 0, reqId := (1, 0, 0) }
  connection := 0
  operation := .store [carriedSeven, carriedSeven₂]

def getCast : Cast where
  ref := 2
  sender := 1
  request := .get (.list (([[1], [2]] : List Bytes).map fun key => .tuple
    [.binary key, .int 0, .atom "false"]))

def getJob : Job where
  ctx := { reqPid := 1, reqId := (2, 0, 0) }
  connection := 0
  operation := .get (([[1], [2]] : List Bytes).map fun key =>
    ⟨key, ⟨(0 : ℕ), time_contains_zero⟩, false⟩)

/-- The key `[1]` is missing and the key `[2]` has the value. -/
def getLcb : Lcb :=
  { Lcb.silent with
    get := fun _ =>
      { schedule := none
        callbacks :=
          [⟨[2], .ok ⟨sevenCas, Api.encoderFlags .raw,
              Codec.digits.termToBinary (.int 7)⟩⟩,
            ⟨[1], .error .keyEnoent⟩]
        wait := none } }

def getBody : Term :=
  getJob.operation.execute getLcb

/-- A get whose argument is no list. -/
def badCast : Cast where
  ref := 3
  sender := 2
  request := .get (.atom "keys")

/-- Process 0 stores under two keys and process 1 gets both.  The server of the
store crashes over a call of process 2 while the worker is inside the store.
The get is executed when only the second store has been, and returns before the
other one is. -/
def overlapTrace : List (SharedEvent (keyValue Codec.digits)) :=
  [.called 0 0 1 (.store [storeSeven, storeSeven₂]) storeCast.request,
    .called 1 1 2 (.get [[1], [2]]) getCast.request,
    .quiet (.arrived 0 0 storeCast),
    .quiet (.arrived 1 1 getCast),
    .quiet (.accepted 0 storeCast storeJob),
    .quiet (.accepted 1 getCast getJob),
    .started 0 1 storeJob,
    .started 1 2 getJob,
    .malformed 2 0 3 badCast.request,
    .quiet (.arrived 2 0 badCast),
    .quiet (.crashed 0 badCast (3, 0, 0)),
    .served 1 1 (.tuple [.binary [2], casTerm sevenCas]),
    .served 2 0 (.tuple [.binary [1], LcbError.keyEnoent.toTerm]),
    .served 2 1 (.tuple [.binary [2], .tuple [.atom "ok", .int 7, .int 7]]),
    .executed 1 2 getJob getBody,
    .quiet (.responded 1 2 getJob getBody),
    .quiet (.delivered 1 (.accepted 2 (2, 0, 0))),
    .quiet (.delivered 1 (.response (2, 0, 0) getBody 2)),
    .quiet (.resumed 1 2 (2, 0, 0)),
    .quiet (.returned 1 2 (2, 0, 0) 2 getBody)]

end Runs

/-- The request id that the NIF issues. -/
def issuedId [LcbTypes] : Event → Option RequestId
  | .accepted _ _ job => some job.ctx.reqId
  | _ => none

/-- Ids that differ altogether differ for every caller. -/
theorem idsDistinct_of_nodup [LcbTypes] {trace : List Event}
    (h : (trace.filterMap issuedId).Nodup) : IdsDistinct trace := by
  intro p
  refine List.Nodup.sublist (filterMap_sublist_of_imp ?_) h
  intro event _ id hid
  cases event with
  | accepted v cast job =>
      simp only [issuedTo, Option.ite_none_right_eq_some] at hid
      exact hid.2
  | _ => cases hid

/-- A command is executed with the bucket and the callback written out. -/
theorem served_to [LcbTypes] {σ : Service} {s : SharedState σ} {ref : Ref}
    {i : ℕ} {command : σ.Command} {before after : List ((Ref × ℕ) × σ.Command)}
    {entry : Term} {bucket : Bucket} {callback : Callback Term} (fresh : LcbCas)
    (hpending : s.pending = before ++ ((ref, i), command) :: after)
    (hfirst : ∀ entry ∈ before, entry.1.1 = ref →
      σ.key entry.2 ≠ σ.key command)
    (hbucket : σ.execute fresh s.bucket command = bucket)
    (hcallback :
      σ.callback fresh (s.bucket (σ.key command)) command = callback)
    (hentry : σ.entry command callback = entry) :
    SharedStep σ s (.served ref i entry)
      { s with
        bucket
        pending := before ++ after
        answered := s.answered ++ [((ref, i), command, callback)] } := by
  subst hentry hcallback hbucket
  exact .served fresh hpending hfirst

theorem served_of_entry [LcbTypes] {σ : Service} {s : SharedState σ} {ref : Ref}
    {i : ℕ} {command : σ.Command} {before after : List ((Ref × ℕ) × σ.Command)}
    {entry : Term} (fresh : LcbCas)
    (hpending : s.pending = before ++ ((ref, i), command) :: after)
    (hfirst : ∀ entry ∈ before, entry.1.1 = ref →
      σ.key entry.2 ≠ σ.key command)
    (hentry : σ.entry command
      (σ.callback fresh (s.bucket (σ.key command)) command) = entry) :
    SharedStep σ s (.served ref i entry)
      { s with
        bucket := σ.execute fresh s.bucket command
        pending := before ++ after
        answered := s.answered ++
          [((ref, i), command,
            σ.callback fresh (s.bucket (σ.key command)) command)] } :=
  served_to fresh hpending hfirst rfl rfl hentry

/-- An operation reports when nothing is pending and its callbacks are those of
its executed commands, in their order. -/
theorem reports_of_callbacks [LcbTypes] {σ : Service} {s : SharedState σ}
    {ref : Ref} {operation : Operation} {lcb : Lcb} {outcome : Outcome Term}
    (houtcome : operation.batchOutcome lcb = some outcome)
    (hpending : s.pending = [])
    (hcallbacks : s.callbacks ref = outcome.callbacks) :
    ∀ outcome, operation.batchOutcome lcb = some outcome →
      outcome.schedule.or outcome.wait = none → Reports s ref outcome := by
  intro outcome' houtcome' _
  obtain rfl := Option.some.inj (houtcome.symm.trans houtcome')
  constructor
  · simp [hpending]
  · rw [hcallbacks]
    exact .refl _ _

theorem getReports [LcbTypes] {s : SharedState (keyValue Codec.digits)}
    {command : Command}
    (hpending : s.pending = [((1, 0), command)])
    (hcallbacks : s.callbacks 2 =
      [⟨[1], .error .keyEnoent⟩,
        ⟨[2], .ok (.tuple [.atom "ok", .int 7, .int 2,
          .binary (Codec.digits.termToBinary (.int 7))])⟩]) :
    ∀ outcome, getJob.operation.batchOutcome getLcb = some outcome →
      outcome.schedule.or outcome.wait = none → Reports s 2 outcome := by
  intro outcome houtcome _
  obtain rfl := Option.some.inj houtcome
  constructor
  · intro entry hentry
    rw [hpending] at hentry
    obtain rfl := List.mem_singleton.mp hentry
    exact Nat.succ_ne_self 1 ∘ Eq.symm
  · rw [hcallbacks]
    refine KeyEquiv.of_perm (r := fun _ _ => False) (fun _ _ h => h.elim)
      (List.Perm.swap _ _ _) ?_ ?_
    · simp [Outcome.render, getLcb, List.pairwise_cons]
    · simp

theorem overlapRun :
    let _ : LcbTypes := ⟨.uint32⟩
    ∃ s, Run (sharedMachine (keyValue Codec.digits) fun _ => none)
      overlapTrace s ∧ s.base.alive 0 = false := by
  intro _
  have hstore : Call.Plain Codec.digits (.store [storeSeven, storeSeven₂]) := by
    rw [Call.Plain, List.forall_mem_cons, List.forall_mem_singleton]
    exact ⟨⟨by decide, rfl, by decide, by decide⟩,
      ⟨by decide, rfl, by decide, by decide⟩⟩
  have h₀ : Run (sharedMachine (keyValue Codec.digits) fun _ => none) []
      { base := quietState, bucket := fun _ => none, pending := []
        answered := [] } :=
    .start ⟨initial_quietState, rfl, rfl, rfl⟩
  have h₁ : Run _ (overlapTrace.take 1) _ :=
    h₀.step (.called hstore rfl (.called rfl))
  have h₂ : Run _ (overlapTrace.take 2) _ :=
    h₁.step (.called trivial rfl (.called rfl))
  have h₃ : Run _ (overlapTrace.take 3) _ :=
    h₂.step (.quiet trivial (.arrived rfl rfl))
  have h₄ : Run _ (overlapTrace.take 4) _ :=
    h₃.step (.quiet trivial (.arrived rfl rfl))
  have h₅ : Run _ (overlapTrace.take 5) _ :=
    h₄.step (.quiet trivial (.accepted rfl rfl rfl))
  have h₆ : Run _ (overlapTrace.take 6) _ :=
    h₅.step (.quiet trivial (.accepted rfl rfl rfl))
  have h₇ : Run _ (overlapTrace.take 7) _ := h₆.step (.started (.started rfl rfl))
  have h₈ : Run _ (overlapTrace.take 8) _ := h₇.step (.started (.started rfl rfl))
  have h₉ : Run _ (overlapTrace.take 9) _ :=
    h₈.step (.malformed rfl (.called rfl))
  have h₁₀ : Run _ (overlapTrace.take 10) _ :=
    h₉.step (.quiet trivial (.arrived rfl rfl))
  have h₁₁ : Run _ (overlapTrace.take 11) _ :=
    h₁₀.step (.quiet trivial (@Step.crashed _ _ _ _ [] _ _ rfl rfl rfl))
  have h₁₂ : Run _ (overlapTrace.take 12) _ :=
    h₁₁.step (@served_of_entry _ _ _ _ _ _ [_] _ _ sevenCas rfl (by decide) rfl)
  have h₁₃ : Run _ (overlapTrace.take 13) _ :=
    h₁₂.step (@served_of_entry _ _ _ _ _ _ [_] _ _ sevenCas rfl (by decide) rfl)
  have h₁₄ : Run _ (overlapTrace.take 14) _ :=
    h₁₃.step (@served_of_entry _ _ _ _ _ _ [_] _ _ sevenCas rfl (by decide) rfl)
  have h₁₅ : Run _ (overlapTrace.take 15) _ :=
    h₁₄.step (.executed getLcb (.executed getLcb rfl) (getReports rfl rfl))
  have h₁₆ : Run _ (overlapTrace.take 16) _ :=
    h₁₅.step (.quiet trivial (.responded rfl))
  have h₁₇ : Run _ (overlapTrace.take 17) _ :=
    h₁₆.step (.quiet trivial (@Step.delivered _ _ _ _ [_] [_] rfl))
  have h₁₈ : Run _ (overlapTrace.take 18) _ :=
    h₁₇.step (.quiet trivial (@Step.delivered _ _ _ _ [_] [] rfl))
  have h₁₉ : Run _ (overlapTrace.take 19) _ :=
    h₁₈.step (.quiet trivial (.resumed rfl rfl))
  exact ⟨_, h₁₉.step (.quiet trivial (.returned rfl rfl)), rfl⟩

end Cberl.System
