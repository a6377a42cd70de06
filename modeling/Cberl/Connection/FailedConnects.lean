import Cberl.Connection.Ownership

/-!
# Failed connects

A connect that fails in `lcb_create` leaves the libcouchbase instances alone;
one that fails later leaves an instance behind that nobody owns.
-/

namespace Cberl.Ownership

open Cberl Cberl.Support Cberl.Support.CallProgram

section Runs

variable {trace : List Event} {s : State}

/-! ## The instances around a failed connect -/

/-- The worker whose handler an event belongs to. -/
def Event.worker : Event → Option WorkerId
  | .began w _ => some w
  | .created w _ => some w
  | .called w _ _ => some w
  | .constructed w _ => some w
  | .threw w _ _ => some w
  | _ => none

/-- An event that may change whether the instance `i` is held. -/
def Event.Changes (i : InstanceId) (event : Event) : Prop :=
  (∃ w, event = .created w i) ∨ event = .destroyed i

/-- A failed connect leaves the held instances as they were before it, except
for those that others create or destroy meanwhile. -/
def FailedConnectsKeep (trace : List Event) : Prop :=
  ∀ before w request middle m_instance err s₁ s₂,
    before ++ (.began w request :: middle) ++ [.threw w m_instance err] <+: trace →
    (∀ request', .began w request' ∉ middle) →
    Run machine before s₁ →
    Run machine
      (before ++ (.began w request :: middle) ++ [.threw w m_instance err]) s₂ →
    ∀ i, (∀ event ∈ middle, event.worker ≠ some w → ¬ event.Changes i) →
      (Held s₂ i ↔ Held s₁ i)

theorem eq_of_update_worker {s : State} {w w' : WorkerId}
    {state state' : WorkerState}
    (h : Function.update s.worker w' state' w = state) :
    w = w' ∧ state' = state ∨ w ≠ w' ∧ s.worker w = state := by
  by_cases hw : w = w'
  · subst hw
    exact Or.inl ⟨rfl, by simpa using h⟩
  · rw [Function.update_of_ne hw] at h
    exact Or.inr ⟨hw, h⟩

/-- A constructor without an instance has just begun or had none before. -/
theorem Step.of_constructing_none {s s' : State} {event : Event} {w : WorkerId}
    {rest : Rest} (h : Step s event s')
    (hworker : s'.worker w = .constructing none rest) :
    (∃ request, event = .began w request) ∨
      (∃ rest', s.worker w = .constructing none rest') ∧
        ∀ i, event ≠ .created w i := by
  cases h with
  | @began w' request _ =>
      rcases eq_of_update_worker hworker with ⟨rfl, -⟩ | ⟨-, hsame⟩
      · exact Or.inl ⟨request, rfl⟩
      · exact Or.inr ⟨⟨rest, hsame⟩, by simp⟩
  | created _ =>
      rcases eq_of_update_worker hworker with ⟨-, hstate⟩ | ⟨hw, hsame⟩
      · cases hstate
      · exact Or.inr ⟨⟨rest, hsame⟩, by simp [Ne.symm hw]⟩
  | createFailed hbefore =>
      rcases eq_of_update_worker hworker with ⟨rfl, -⟩ | ⟨-, hsame⟩
      · exact Or.inr ⟨⟨_, hbefore⟩, by simp⟩
      · exact Or.inr ⟨⟨rest, hsame⟩, by simp⟩
  | called _ =>
      rcases eq_of_update_worker hworker with ⟨-, hstate⟩ | ⟨-, hsame⟩
      · cases hstate
      · exact Or.inr ⟨⟨rest, hsame⟩, by simp⟩
  | constructed _ =>
      rcases eq_of_update_worker hworker with ⟨-, hstate⟩ | ⟨-, hsame⟩
      · cases hstate
      · exact Or.inr ⟨⟨rest, hsame⟩, by simp⟩
  | threw _ =>
      rcases eq_of_update_worker hworker with ⟨-, hstate⟩ | ⟨-, hsame⟩
      · cases hstate
      · exact Or.inr ⟨⟨rest, hsame⟩, by simp⟩
  | copied _ => exact Or.inr ⟨⟨rest, hworker⟩, by simp⟩
  | dropped _ => exact Or.inr ⟨⟨rest, hworker⟩, by simp⟩
  | destroyed _ => exact Or.inr ⟨⟨rest, hworker⟩, by simp⟩

/-- A constructor that has got an instance keeps it until the connect ends. -/
theorem ne_none_of_created {before middle : List Event} {w : WorkerId}
    {request : ConnectRequest} {i : InstanceId}
    (hrun : Run machine (before ++ (.began w request :: middle)) s)
    (hbegan : ∀ request', .began w request' ∉ middle)
    (hcreated : .created w i ∈ middle) (rest : Rest) :
    s.worker w ≠ .constructing none rest := by
  induction middle using List.reverseRecOn generalizing s rest with
  | nil => cases hcreated
  | append_singleton middle event ih =>
      rw [← List.cons_append, ← List.append_assoc] at hrun
      obtain ⟨s₁, hrun₁, hstep⟩ := hrun.exists_last
      have hbegan₁ : ∀ request', .began w request' ∉ middle :=
        fun request' hmem => hbegan request' (List.mem_append_left _ hmem)
      intro hworker
      rcases hstep.of_constructing_none hworker with
        ⟨request', rfl⟩ | ⟨⟨rest', hworker₁⟩, hevent⟩
      · exact hbegan request' (by simp)
      · rcases List.mem_append.mp hcreated with hcreated | hcreated
        · exact ih hrun₁ hbegan₁ hcreated rest' hworker₁
        · exact hevent i (List.mem_singleton.mp hcreated).symm

/-- A connect whose `lcb_create` fails leaves the held instances alone. -/
theorem failedConnectsKeep_of_not_lost
    (hlost : ∀ w i err, .threw w (some i) err ∉ trace) :
    FailedConnectsKeep trace := by
  intro before w request middle m_instance err s₁ s₂ hprefix hbegan hrun₁ hrun₂
    i hothers
  obtain ⟨after, rfl⟩ := hprefix
  obtain ⟨s', hrun', hstep⟩ := hrun₂.exists_last
  cases hstep with
  | @threw _ m_instance _ hworker =>
      cases m_instance with
      | some j => exact absurd (by simp) (hlost w j err)
      | none =>
          have hcreated : ∀ w', .created w' i ∉ middle := by
            intro w' hmem
            by_cases hw : w' = w
            · subst hw
              exact ne_none_of_created hrun' hbegan hmem _ hworker
            · exact hothers _ hmem (by simpa [Event.worker] using hw)
                (Or.inl ⟨w', rfl⟩)
          have hdestroyed : .destroyed i ∉ middle :=
            fun hmem => hothers _ hmem (by simp [Event.worker]) (Or.inr rfl)
          rw [held_iff_mem hrun₁, held_iff_mem hrun₂]
          simp [hcreated, hdestroyed]

/-! ## The connect handler as a run -/

/-- A constructor with an instance runs to its end, one event per exchange. -/
theorem exists_run_of_calls {w : WorkerId} {i : InstanceId} {rest : Rest}
    (lcb : Environment LcbCall LcbStatus) (log : List (LcbCall × LcbStatus))
    (hrun : Run machine trace s)
    (hworker : s.worker w = .constructing (some i) rest) :
    ∃ s' exchanges,
      (run lcb log rest).2 = log ++ exchanges ∧
      Run machine (trace ++ exchanges.map fun e => .called w e.1 e.2) s' ∧
      s'.worker w = .constructing (some i) (.done (run lcb log rest).1) := by
  induction rest generalizing log trace s with
  | done result => exact ⟨s, [], by simp [run], by simpa using hrun, hworker⟩
  | call c next ih =>
      obtain ⟨s', exchanges, hlog, hrun', hworker'⟩ :=
        ih (lcb log c) (log ++ [(c, lcb log c)])
          (hrun.step (@Step.called _ _ _ _ _ (lcb log c) hworker)) (by simp)
      refine ⟨s', (c, lcb log c) :: exchanges, ?_, ?_, hworker'⟩
      · rw [run, hlog, List.append_assoc, List.singleton_append]
      · rw [List.append_assoc] at hrun'
        exact hrun'

/-- A connect whose `lcb_create` succeeds is a run of the machine that ends as
the handler does. -/
theorem exists_run_of_connect (lcb : Environment LcbCall LcbStatus)
    (request : ConnectRequest) (w : WorkerId)
    (hcreate : lcb [] (.create (CreateOpts.ofRequest request)) = none)
    (connection : ℕ) (hrun : Run machine trace s) (hidle : s.worker w = .idle) :
    ∃ s' exchanges,
      (Client.connect lcb connection request).2 =
        (.create (CreateOpts.ofRequest request), none) :: exchanges ∧
      Run machine
        (trace ++ [.began w request, .created w s.next] ++
          exchanges.map (fun e => .called w e.1 e.2) ++
          [match (Client.connect lcb connection request).1.result with
            | .ok _ => .constructed w s.next
            | .error err => .threw w (some s.next) err]) s' := by
  obtain ⟨next, hconstruct, hnext⟩ : ∃ next : LcbStatus → Rest,
      (Connection.construct request).run =
        .call (.create (CreateOpts.ofRequest request)) next ∧
      next none = (script request.calls : Constructor Unit).run :=
    ⟨_, by rw [Connection.construct_eq_script, script_cons_run], rfl⟩
  have hbegan := hrun.step (@Step.began s w request hidle)
  rw [hconstruct] at hbegan
  have hcreated := hbegan.step (Step.created (Function.update_self ..))
  rw [hnext] at hcreated
  obtain ⟨s', exchanges, hlog, hrun', hworker'⟩ :=
    exists_run_of_calls lcb [(.create (CreateOpts.ofRequest request), none)]
      hcreated (Function.update_self ..)
  rw [Client.connect_of_created hcreate connection]
  rw [List.append_assoc trace, List.singleton_append] at hrun'
  rcases hresult : run lcb [(.create (CreateOpts.ofRequest request), none)]
    (script request.calls : Constructor Unit).run with ⟨result, log⟩
  rw [hresult] at hlog hworker'
  cases result with
  | ok value => exact ⟨_, exchanges, hlog, hrun'.step (Step.constructed hworker')⟩
  | error err => exact ⟨_, exchanges, hlog, hrun'.step (Step.threw hworker')⟩

/-! ## Failing calls -/

/-- The worker whose library call fails after its `lcb_create`. -/
def Event.failure : Event → Option WorkerId
  | .called _ (.create _) _ => none
  | .called w _ (some _) => some w
  | _ => none

/-- A library call after `lcb_create` has failed, and its connect is over: the
worker has gone on. -/
def FailedConnectOver (trace : List Event) : Prop :=
  ∃ w event later, [event, later].Sublist trace ∧ event.failure = some w ∧
    later.worker = some w

/-- The constructor has an instance and is about to throw. -/
def WorkerState.Doomed (state : WorkerState) : Prop :=
  ∃ i err, state = .constructing (some i) (.done (.error err))

/-- What one worker does in a step. -/
inductive WorkerStep (w : WorkerId) : WorkerState → Event → WorkerState → Prop
  | began {request : ConnectRequest} :
      WorkerStep w .idle (.began w request)
        (.constructing none (Connection.construct request).run)
  | created {opts : CreateOpts} {next : LcbStatus → Rest} {i : InstanceId} :
      WorkerStep w (.constructing none (.call (.create opts) next))
        (.created w i) (.constructing (some i) (next none))
  | createFailed {opts : CreateOpts} {next : LcbStatus → Rest}
      {err : LcbError} :
      WorkerStep w (.constructing none (.call (.create opts) next))
        (.called w (.create opts) (some err))
        (.constructing none (next (some err)))
  | called {i : InstanceId} {call : LcbCall} {next : LcbStatus → Rest}
      {status : LcbStatus} :
      WorkerStep w (.constructing (some i) (.call call next))
        (.called w call status) (.constructing (some i) (next status))
  | constructed {i : InstanceId} :
      WorkerStep w (.constructing (some i) (.done (.ok ())))
        (.constructed w i) .idle
  | threw {m_instance : Option InstanceId} {err : LcbError} :
      WorkerStep w (.constructing m_instance (.done (.error err)))
        (.threw w m_instance err) .idle

/-- A step leaves the worker `w` alone or is a step of it. -/
theorem Step.workerStep {s s' : State} {event : Event} (h : Step s event s')
    (w : WorkerId) :
    event.worker ≠ some w ∧ s'.worker w = s.worker w ∨
      event.worker = some w ∧ WorkerStep w (s.worker w) event (s'.worker w) := by
  have hstep : ∀ {w' state}, event.worker = some w' →
      s'.worker = Function.update s.worker w' state →
      WorkerStep w' (s.worker w') event state →
      event.worker ≠ some w ∧ s'.worker w = s.worker w ∨
        event.worker = some w ∧
          WorkerStep w (s.worker w) event (s'.worker w) := by
    intro w' state hevent hworker hstate
    by_cases hw : w = w'
    · subst hw
      rw [hworker, Function.update_self]
      exact Or.inr ⟨hevent, hstate⟩
    · rw [hworker, Function.update_of_ne hw, hevent]
      exact Or.inl ⟨by simpa using Ne.symm hw, rfl⟩
  cases h with
  | began hworker => exact hstep rfl rfl (hworker ▸ .began)
  | created hworker => exact hstep rfl rfl (hworker ▸ .created)
  | createFailed hworker => exact hstep rfl rfl (hworker ▸ .createFailed)
  | called hworker => exact hstep rfl rfl (hworker ▸ .called)
  | constructed hworker => exact hstep rfl rfl (hworker ▸ .constructed)
  | threw hworker => exact hstep rfl rfl (hworker ▸ .threw)
  | _ => exact Or.inl ⟨by simp [Event.worker], rfl⟩

/-- What is left of a constructor: all of it, a script of calls other than
`lcb_create`, or the exception. -/
inductive WorkerState.Regular : WorkerState → Prop
  | idle : Regular .idle
  | fresh {rest : Rest} (request : ConnectRequest)
      (h : rest = (Connection.construct request).run) :
      Regular (.constructing none rest)
  | script {i : InstanceId} {rest : Rest} (calls : List LcbCall)
      (hcreate : ∀ opts, .create opts ∉ calls)
      (h : rest = (CallProgram.script calls : Constructor Unit).run) :
      Regular (.constructing (some i) rest)
  | failed {m_instance : Option InstanceId} {rest : Rest} (err : LcbError)
      (h : rest = .done (.error err)) : Regular (.constructing m_instance rest)

theorem create_not_mem_calls (request : ConnectRequest) (opts : CreateOpts) :
    .create opts ∉ request.calls := by
  intro hmem
  rcases List.mem_append.mp hmem with hoption | hlast
  · obtain ⟨option, -, hcall⟩ := List.mem_filterMap.mp hoption
    obtain ⟨setting, -, hcntl⟩ := Option.map_eq_some_iff.mp hcall
    cases hcntl
  · simp at hlast

/-- A constructor that is at a call goes on with the rest of its script, or
throws if the call fails. -/
theorem of_call_eq_script {call : LcbCall} {next : LcbStatus → Rest}
    {calls : List LcbCall}
    (h : .call call next = (script calls : Constructor Unit).run) :
    ∃ rest, calls = call :: rest ∧
      next none = (script rest : Constructor Unit).run ∧
      ∀ err, next (some err) = .done (.error err) := by
  cases calls with
  | nil => cases h
  | cons c rest =>
      rw [script_cons_run] at h
      cases h
      exact ⟨rest, rfl, rfl, fun _ => rfl⟩

theorem not_doomed_script (i : InstanceId) (calls : List LcbCall) :
    ¬ (WorkerState.constructing (some i)
      (script calls : Constructor Unit).run).Doomed := by
  rintro ⟨_, err, h⟩
  cases calls with
  | nil => cases h
  | cons c rest =>
      rw [script_cons_run] at h
      cases h

/-- A regular worker stays regular, and is doomed after the step exactly when
the step is a failing call. -/
theorem WorkerStep.regular {w : WorkerId} {state state' : WorkerState}
    {event : Event} (h : WorkerStep w state event state')
    (hregular : state.Regular) :
    state'.Regular ∧ (state'.Doomed ↔ event.failure = some w) := by
  cases h with
  | began => exact ⟨.fresh _ rfl, by simp [WorkerState.Doomed, Event.failure]⟩
  | @created opts next i =>
      cases hregular with
      | failed err h => cases h
      | fresh request h =>
          rw [Connection.construct_eq_script] at h
          obtain ⟨rest, hcalls, hnone, -⟩ := of_call_eq_script h
          obtain ⟨-, rfl⟩ := List.cons.inj hcalls
          refine ⟨.script _ (create_not_mem_calls request) hnone, ?_⟩
          rw [hnone]
          exact iff_of_false (not_doomed_script i _) (by simp [Event.failure])
  | createFailed =>
      cases hregular with
      | failed err h => cases h
      | fresh request h =>
          rw [Connection.construct_eq_script] at h
          obtain ⟨rest, -, -, hsome⟩ := of_call_eq_script h
          exact ⟨.failed _ (hsome _),
            by simp [WorkerState.Doomed, Event.failure]⟩
  | @called i call next status =>
      cases hregular with
      | failed err h => cases h
      | script calls hcreate h =>
          obtain ⟨rest, rfl, hnone, hsome⟩ := of_call_eq_script h
          cases status with
          | none =>
              rw [hnone]
              exact ⟨.script rest
                  (fun opts hmem => hcreate opts (List.mem_cons_of_mem _ hmem))
                  rfl,
                iff_of_false (not_doomed_script i rest)
                  (by cases call <;> simp [Event.failure])⟩
          | some err =>
              refine ⟨.failed err (hsome err),
                iff_of_true ⟨i, err, by rw [hsome]⟩ ?_⟩
              cases call with
              | create opts => exact absurd List.mem_cons_self (hcreate opts)
              | _ => rfl
  | constructed => exact ⟨.idle, by simp [WorkerState.Doomed, Event.failure]⟩
  | threw => exact ⟨.idle, by simp [WorkerState.Doomed, Event.failure]⟩

/-- A doomed worker throws next. -/
theorem WorkerStep.threw_of_doomed {w : WorkerId} {state state' : WorkerState}
    {event : Event} (h : WorkerStep w state event state')
    (hdoomed : state.Doomed) : ∃ i err, event = .threw w (some i) err := by
  obtain ⟨i, err, rfl⟩ := hdoomed
  cases h
  exact ⟨i, err, rfl⟩

theorem Event.worker_of_failure {event : Event} {w : WorkerId}
    (h : event.failure = some w) : event.worker = some w := by
  cases event with
  | called w' call status =>
      cases call <;> cases status <;> first | exact h | cases h
  | _ => cases h

theorem regular_of_run (hrun : Run machine trace s) (w : WorkerId) :
    (s.worker w).Regular := by
  refine hrun.invariant (P := fun _ s => (s.worker w).Regular) ?_ ?_
  · intro s hs
    rw [hs.worker w]
    exact .idle
  · intro trace s event s' _ ih hstep
    rcases Step.workerStep hstep w with ⟨-, hsame⟩ | ⟨-, hw⟩
    · rwa [hsame]
    · exact (hw.regular ih).1

/-- A constructor is doomed by a failing call only. -/
theorem exists_failure_of_doomed (hrun : Run machine trace s) {w : WorkerId}
    (hdoomed : (s.worker w).Doomed) :
    ∃ event ∈ trace, event.failure = some w := by
  revert hdoomed
  refine hrun.invariant (P := fun trace s =>
    (s.worker w).Doomed → ∃ event ∈ trace, event.failure = some w) ?_ ?_
  · intro s hs
    simp [hs.worker w, WorkerState.Doomed]
  · intro trace s event s' hrun ih hstep hdoomed
    rcases Step.workerStep hstep w with ⟨-, hsame⟩ | ⟨-, hw⟩
    · rw [hsame] at hdoomed
      obtain ⟨failing, hmem, hfailing⟩ := ih hdoomed
      exact ⟨failing, List.mem_append_left _ hmem, hfailing⟩
    · have hiff := (hw.regular (regular_of_run hrun w)).2
      exact ⟨event, by simp, hiff.mp hdoomed⟩

/-- A failing call of `w` dooms its constructor until it throws. -/
theorem doomed_or_threw_of_failure (hrun : Run machine trace s) {w : WorkerId}
    (hfailure : ∃ event ∈ trace, event.failure = some w) :
    (s.worker w).Doomed ∨ ∃ i err, .threw w (some i) err ∈ trace := by
  revert hfailure
  refine hrun.invariant (P := fun trace s =>
    (∃ event ∈ trace, event.failure = some w) →
      (s.worker w).Doomed ∨ ∃ i err, .threw w (some i) err ∈ trace) ?_ ?_
  · rintro s - ⟨event, hmem, -⟩
    cases hmem
  · rintro trace s event s' hrun ih hstep ⟨failing, hmem, hfailing⟩
    have hthrew : (∃ i err, .threw w (some i) err ∈ trace) →
        ∃ i err, .threw w (some i) err ∈ trace ++ [event] :=
      fun ⟨i, err, h⟩ => ⟨i, err, List.mem_append_left _ h⟩
    rcases Step.workerStep hstep w with ⟨hother, hsame⟩ | ⟨-, hw⟩
    · rcases List.mem_append.mp hmem with hmem | hmem
      · rw [hsame]
        exact (ih ⟨failing, hmem, hfailing⟩).imp_right hthrew
      · obtain rfl := List.mem_singleton.mp hmem
        exact absurd (Event.worker_of_failure hfailing) hother
    · rcases List.mem_append.mp hmem with hmem | hmem
      · rcases ih ⟨failing, hmem, hfailing⟩ with hdoomed | hthrew'
        · obtain ⟨i, err, rfl⟩ := hw.threw_of_doomed hdoomed
          exact Or.inr ⟨i, err, by simp⟩
        · exact Or.inr (hthrew hthrew')
      · obtain rfl := List.mem_singleton.mp hmem
        have hiff := (hw.regular (regular_of_run hrun w)).2
        exact Or.inl (hiff.mpr hfailing)

/-- The connects that leave an instance behind are those that are over after a
failing call. -/
theorem failedConnectOver_iff (hrun : Run machine trace s) :
    FailedConnectOver trace ↔ ∃ w i err, .threw w (some i) err ∈ trace := by
  constructor
  · rintro ⟨w, failing, later, hsublist, hfailure, hlater⟩
    obtain ⟨front, back, rfl, hfailing, hback⟩ := List.cons_sublist_iff.mp hsublist
    obtain ⟨between, after, rfl⟩ :=
      List.append_of_mem (List.singleton_sublist.mp hback)
    rw [← List.append_assoc] at hrun ⊢
    obtain ⟨s₁, s₂, hrun₁, hstep⟩ := hrun.exists_step
    rcases doomed_or_threw_of_failure hrun₁
        ⟨failing, List.mem_append_left _ hfailing, hfailure⟩ with
      hdoomed | ⟨i, err, hthrew⟩
    · rcases Step.workerStep hstep w with ⟨hother, -⟩ | ⟨-, hw⟩
      · exact absurd hlater hother
      · obtain ⟨i, err, rfl⟩ := hw.threw_of_doomed hdoomed
        exact ⟨w, i, err, by simp⟩
    · exact ⟨w, i, err, List.mem_append_left _ hthrew⟩
  · rintro ⟨w, i, err, hmem⟩
    obtain ⟨before, after, rfl⟩ := List.append_of_mem hmem
    obtain ⟨s₁, s₂, hrun₁, hstep⟩ := hrun.exists_step
    cases hstep with
    | threw hworker =>
        obtain ⟨failing, hfailing, hfailure⟩ :=
          exists_failure_of_doomed hrun₁ ⟨i, err, hworker⟩
        refine ⟨w, failing, .threw w (some i) err, ?_, hfailure, rfl⟩
        exact (List.singleton_sublist.mpr hfailing).append
          (List.singleton_sublist.mpr List.mem_cons_self)

/-- Along every run, the instances created and not destroyed are those owned by
a live object or a running constructor, no instance is destroyed twice and
failed connects leave the set as it was, if and only if no connect is over in
which a library call failed after `lcb_create`. -/
theorem instances_owned_iff (hrun : Run machine trace s) :
    ((∀ i, Held s i ↔ Owned s i) ∧ s.destroyed.Nodup ∧
        FailedConnectsKeep trace) ↔
      ¬ FailedConnectOver trace := by
  rw [failedConnectOver_iff hrun]
  constructor
  · rintro ⟨howned, -, -⟩ ⟨w, i, err, hmem⟩
    have hlost : i ∈ trace.filterMap Event.lost :=
      List.mem_filterMap.mpr ⟨_, hmem, rfl⟩
    have hheld := (held_iff hrun i).mpr (Or.inr hlost)
    exact not_owned_of_lost hrun hlost ((howned i).mp hheld)
  · intro hthrew
    refine ⟨?_, destroyed_nodup hrun, failedConnectsKeep_of_not_lost
      fun w i err hmem => hthrew ⟨w, i, err, hmem⟩⟩
    intro i
    rw [held_iff hrun, or_iff_left]
    intro hmem
    obtain ⟨event, hevent, hlost⟩ := List.mem_filterMap.mp hmem
    cases event with
    | threw w m_instance err =>
        obtain rfl : m_instance = some i := hlost
        exact hthrew ⟨w, i, err, hevent⟩
    | _ => cases hlost

end Runs

/-- The state before the first connect. -/
def start : State :=
  { worker := fun _ => .idle, owners := fun _ => 0, next := 0, destroyed := [] }

theorem start_run : Run machine [] start :=
  .start ⟨fun _ => rfl, fun _ => rfl, rfl, rfl⟩

def plainRequest : ConnectRequest :=
  { host := [], username := [], password := [], bucket := [], options := [] }

/-- A connect whose every call succeeds. -/
def ownedTrace : List Event :=
  [.began 0 plainRequest, .created 0 0, .called 0 .connect none,
    .called 0 .wait none, .constructed 0 0]

theorem ownedTrace_not_over : ¬ FailedConnectOver ownedTrace := by
  rintro ⟨w, failing, later, hsublist, hfailure, -⟩
  have hmem : failing ∈ ownedTrace := hsublist.subset List.mem_cons_self
  have hnone : ∀ event ∈ ownedTrace, event.failure = none := by
    simp [ownedTrace, Event.failure]
  rw [hnone failing hmem] at hfailure
  cases hfailure

theorem ownedTrace_owned :
    ∃ s, Run machine ownedTrace s ∧ Held s 0 ∧ Owned s 0 := by
  obtain ⟨s, exchanges, hlog, hrun⟩ :=
    exists_run_of_connect (fun _ _ => none) plainRequest 0 rfl 0 start_run rfl
  obtain rfl := (List.cons.inj hlog).2
  have howned : Run machine ownedTrace s := hrun
  obtain ⟨hproperty, -, -⟩ :=
    (instances_owned_iff howned).mpr ownedTrace_not_over
  have hheld : Held s 0 :=
    (held_iff_mem howned 0).mpr ⟨⟨0, by simp [ownedTrace]⟩, by simp [ownedTrace]⟩
  exact ⟨s, howned, hheld, (hproperty 0).mp hheld⟩

/-- A connect that fails in `lcb_connect`. -/
def lostTrace : List Event :=
  [.began 0 plainRequest, .created 0 0, .called 0 .connect (some .connectError),
    .threw 0 (some 0) .connectError]

/-- Its instance is left to nobody. -/
theorem lostTrace_not_owned :
    ∃ s, Run machine lostTrace s ∧ Held s 0 ∧ ¬ Owned s 0 := by
  let lcb : Environment LcbCall LcbStatus := fun _ call =>
    match call with
    | .connect => some .connectError
    | _ => none
  obtain ⟨s, exchanges, hlog, hrun⟩ :=
    exists_run_of_connect lcb plainRequest 0 rfl 0 start_run rfl
  obtain rfl := (List.cons.inj hlog).2
  have hfailed : Run machine lostTrace s := hrun
  have hlost : 0 ∈ lostTrace.filterMap Event.lost := by
    simp [lostTrace, Event.lost]
  exact ⟨s, hfailed, (held_iff hfailed 0).mpr (Or.inr hlost),
    not_owned_of_lost hfailed hlost⟩

end Cberl.Ownership
