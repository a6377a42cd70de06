import Cberl.Client.Progress
import Cberl.Support.Observation

/-!
# What the event loop does with the posted operations

Operations are executed in the order in which their posts took the mutex, one at
a time and each at most once.  After `stop` no operation is started; what is
left then is destroyed, so that in the end every posted operation was either
executed or destroyed, once.
-/

namespace Cberl.Client

open Cberl.Support

variable {α : Type*}

/-! ## Readings of a trace -/

namespace Label

def entered : Label α → Option α
  | enter op => some op
  | _ => none

def pushed : Label α → Option α
  | push op => some op
  | _ => none

def popped : Label α → Option α
  | pop op => some op
  | _ => none

def finished : Label α → Option α
  | finish op => some op
  | _ => none

def destroyed : Label α → List α
  | destroy ops => ops
  | _ => []

/-- The labels that say nothing about an operation. -/
def Silent : Label α → Prop
  | internal => True
  | wakeup => True
  | stop => True
  | _ => False

end Label

/-- The operation that is not in the queue yet. -/
def Post.op : Post α → Option α
  | counting op => some op
  | locking op => some op
  | pushing op => some op
  | signalling => none

/-- The operation that the worker is inside. -/
def Worker.current : Worker α → List α
  | executing op => [op]
  | _ => []

variable {s s' : State α} {label : Label α} {trace trace₁ trace₂ : List (Label α)}

/-! ## One step -/

/-- What one step does to the operations: those that have not entered the queue,
the queue, and the one in execution. -/
structure Account (s : State α) (label : Label α) (s' : State α) : Prop where
  posts : (s.posts.filterMap Post.op ++ label.entered.toList).Perm
    (label.pushed.toList ++ s'.posts.filterMap Post.op)
  queue : s.opQueue ++ label.pushed.toList =
    label.popped.toList ++ label.destroyed ++ s'.opQueue
  current : s.worker.current ++ label.popped.toList =
    label.finished.toList ++ s'.worker.current

theorem current_signal (worker : Worker α) :
    worker.signal.current = worker.current := by
  cases worker <;> rfl

theorem Step.account (hstep : Step s label s') : Account s label s' := by
  cases hstep with
  | pushSignal hposts hwaiters =>
      constructor
      · simp [hposts, List.filterMap_cons, Post.op, Label.entered, Label.pushed]
      · simp [Label.pushed, Label.popped, Label.destroyed]
      · simp [Label.popped, Label.finished]
  | pushOnly hposts hwaiters =>
      constructor
      · simp [hposts, Post.op, Label.entered, Label.pushed]
      · simp [Label.pushed, Label.popped, Label.destroyed]
      · simp [Label.popped, Label.finished]
  | condSignal hposts =>
      constructor
      · simp [hposts, List.filterMap_cons, Post.op, Label.entered, Label.pushed]
      · simp [Label.pushed, Label.popped, Label.destroyed]
      · simp [Label.popped, Label.finished, current_signal]
  | stop howner =>
      constructor
      · simp [Label.entered, Label.pushed, State.stopAllThreads]
      · simp [Label.pushed, Label.popped, Label.destroyed, State.stopAllThreads]
      · simp [Label.popped, Label.finished, State.stopAllThreads, current_signal]
  | releaseLast howner hwork hfree =>
      constructor
      · simp [Label.entered, Label.pushed, State.stopAllThreads]
      · simp [Label.pushed, Label.popped, Label.destroyed, State.stopAllThreads]
      · simp [Label.popped, Label.finished, State.stopAllThreads, current_signal]
  | @workerStop inRun hworker hfree =>
      constructor
      · simp [Label.entered, Label.pushed, State.stopAllThreads]
      · simp [Label.pushed, Label.popped, Label.destroyed, State.stopAllThreads]
      · cases inRun <;>
          simp [hworker, Worker.current, Label.popped, Label.finished]
  | _ =>
      constructor
      · simp_all [Post.op, Label.entered, Label.pushed]
      · simp_all [Label.pushed, Label.popped, Label.destroyed]
      · simp_all [Label.popped, Label.finished, Worker.current]

/-- Only taking an operation and finishing it change what the worker executes. -/
theorem Step.current_eq (hstep : Step s label s') (hpopped : label.popped = none)
    (hfinished : label.finished = none) : s'.worker.current = s.worker.current := by
  have hcurrent := hstep.account.current
  rw [hpopped, hfinished] at hcurrent
  simpa using hcurrent.symm

/-- The `Client` stays in use until `close`. -/
theorem Step.live_iff (hstep : Step s label s') (hlabel : label ≠ .close) :
    s'.owner = .live ↔ s.owner = .live := by
  cases hstep with
  | close howner hposts => exact absurd rfl hlabel
  | stopLock howner hfree => simp [howner]
  | stop howner => simp [howner]
  | join howner hworker => simp [howner]
  | release howner hwork => simp [howner]
  | releaseLast howner hwork hfree => simp [howner]
  | shutdown howner => simp [howner]
  | _ => exact Iff.rfl

/-! ## Laws -/

/-- What was posted is underway or in the queue, or was. -/
theorem entered_perm (hrun : Run (machine α) trace s) :
    (trace.filterMap Label.entered).Perm
      (trace.filterMap Label.pushed ++ s.posts.filterMap Post.op) := by
  refine @Run.invariant _ _ (machine α) (fun trace s =>
    (trace.filterMap Label.entered).Perm
      (trace.filterMap Label.pushed ++ s.posts.filterMap Post.op)) ?_ ?_ _ _ hrun
  · rintro s rfl
    exact List.Perm.refl _
  · intro trace s label s' _ ih hstep
    rw [List.filterMap_append, List.filterMap_append, filterMap_singleton,
      filterMap_singleton]
    refine (ih.append_right _).trans ?_
    rw [List.append_assoc, List.append_assoc]
    exact (Step.account hstep).posts.append_left _

/-- Nothing is destroyed before the end. -/
theorem destroyed_eq_nil (hrun : Run (machine α) trace s)
    (howner : s.owner ≠ .destroyed) : trace.flatMap Label.destroyed = [] := by
  revert howner
  refine @Run.invariant _ _ (machine α) (fun trace s => s.owner ≠ .destroyed →
    trace.flatMap Label.destroyed = []) ?_ ?_ _ _ hrun
  · intro s _ _
    rfl
  · intro trace s label s' _ ih hstep howner
    rw [List.flatMap_append, List.flatMap_singleton]
    cases hstep with
    | shutdown howner' => exact absurd rfl howner
    | close howner' hposts => simpa [Label.destroyed] using ih (by simp [howner'])
    | stopLock howner' hfree => simpa [Label.destroyed] using ih (by simp [howner'])
    | stop howner' => simpa [Label.destroyed] using ih (by simp [howner'])
    | join howner' hworker => simpa [Label.destroyed] using ih (by simp [howner'])
    | release howner' hwork => simpa [Label.destroyed] using ih (by simp [howner'])
    | releaseLast howner' hwork hfree =>
        simpa [Label.destroyed] using ih (by simp [howner'])
    | workerStop hworker hfree =>
        simpa [Label.destroyed] using ih (by simpa [State.stopAllThreads] using howner)
    | _ => simpa [Label.destroyed] using ih howner

/-- What entered the queue has been taken from it, in this order, or was
destroyed, or is there. -/
theorem pushed_eq (hrun : Run (machine α) trace s) :
    trace.filterMap Label.pushed =
      trace.filterMap Label.popped ++ trace.flatMap Label.destroyed ++
        s.opQueue := by
  refine @Run.invariant _ _ (machine α) (fun trace s =>
    trace.filterMap Label.pushed =
      trace.filterMap Label.popped ++ trace.flatMap Label.destroyed ++
        s.opQueue) ?_ ?_ _ _ hrun
  · rintro s rfl
    rfl
  · intro trace s label s' hrun ih hstep
    -- Nothing is taken from the queue once something was destroyed.
    have hcomm : trace.flatMap Label.destroyed ++ label.popped.toList =
        label.popped.toList ++ trace.flatMap Label.destroyed := by
      cases hpopped : label.popped with
      | none => simp
      | some op =>
          have howner : s.owner ≠ .destroyed := by
            intro howner
            have hstopped := (sound_of_run hrun).stopped
            rw [howner] at hstopped
            cases hstep with
            | pop hworker hstopped' hqueue =>
                rw [hstopped'] at hstopped
                cases hstopped
            | _ => cases hpopped
          rw [destroyed_eq_nil hrun howner, List.append_nil, List.nil_append]
    rw [List.filterMap_append, List.filterMap_append, filterMap_singleton,
      filterMap_singleton, List.flatMap_append, List.flatMap_singleton, ih,
      List.append_assoc, (Step.account hstep).queue]
    simp only [List.append_assoc, List.append_cancel_left_eq]
    rw [← List.append_assoc, hcomm, List.append_assoc]

/-- The worker finishes what it takes, one after the other. -/
theorem popped_eq (hrun : Run (machine α) trace s) :
    trace.filterMap Label.popped =
      trace.filterMap Label.finished ++ s.worker.current := by
  refine @Run.invariant _ _ (machine α) (fun trace s =>
    trace.filterMap Label.popped =
      trace.filterMap Label.finished ++ s.worker.current) ?_ ?_ _ _ hrun
  · rintro s rfl
    rfl
  · intro trace s label s' _ ih hstep
    rw [List.filterMap_append, List.filterMap_append, filterMap_singleton,
      filterMap_singleton, ih, List.append_assoc, List.append_assoc,
      (Step.account hstep).current]

theorem stopped_of_mem (hrun : Run (machine α) trace s)
    (h : Label.stop ∈ trace) : s.stopped = true := by
  revert h
  refine @Run.invariant _ _ (machine α) (fun trace s => Label.stop ∈ trace →
    s.stopped = true) ?_ ?_ _ _ hrun
  · intro s _ h
    cases h
  · intro trace s label s' _ ih hstep h
    rw [List.mem_append, List.mem_singleton] at h
    cases hstep with
    | stop howner => rfl
    | releaseLast howner hwork hfree => rfl
    | workerStop hworker hfree => rfl
    | _ => exact ih (h.resolve_right (by simp))

/-- Only `~Client` stops the loop. -/
theorem stop_of_stopped (hrun : Run (machine α) trace s)
    (hstopped : s.stopped = true) : Label.stop ∈ trace := by
  revert hstopped
  refine @Run.invariant _ _ (machine α) (fun trace s => s.stopped = true →
    Label.stop ∈ trace) ?_ ?_ _ _ hrun
  · rintro s rfl hstopped
    cases hstopped
  · intro trace s label s' hrun ih hstep hstopped
    rw [List.mem_append, List.mem_singleton]
    have h := sound_of_run hrun
    cases hstep with
    | stop howner => exact .inr rfl
    | releaseLast howner hwork hfree =>
        refine .inl (ih ?_)
        rw [h.stopped, howner]
        rfl
    | workerStop hworker hfree => exact absurd hworker (h.running _)
    | _ => exact .inl (ih hstopped)

/-- After `stop` no operation is started. -/
theorem popped_after_stop (hrun : Run (machine α) (trace₁ ++ .stop :: trace₂) s) :
    trace₂.filterMap Label.popped = [] := by
  rw [List.filterMap_eq_nil_iff]
  intro label hlabel
  obtain ⟨before, after, rfl⟩ := List.append_of_mem hlabel
  have hsplit : trace₁ ++ .stop :: (before ++ label :: after) =
      (trace₁ ++ .stop :: before) ++ label :: after := by simp
  rw [hsplit] at hrun
  obtain ⟨s₁, s₂, hrun₁, hstep⟩ := hrun.exists_step
  have hstopped := stopped_of_mem hrun₁ (by simp)
  cases hstep with
  | pop hworker hstopped' hqueue =>
      rw [hstopped'] at hstopped
      cases hstopped
  | _ => rfl

/-! ## Every operation -/

/-- The operations of a client along a run. -/
structure Accounted (trace : List (Label α)) (s : State α) : Prop where
  /-- Every post brings its operation into the queue once, or is not over. -/
  posted : (trace.filterMap Label.entered).Perm
    (trace.filterMap Label.pushed ++ s.posts.filterMap Post.op)
  /-- Executions follow the order of the queue and do not overlap. -/
  executed : trace.filterMap Label.pushed =
    trace.filterMap Label.finished ++ s.worker.current ++
      trace.flatMap Label.destroyed ++ s.opQueue
  current : s.worker.current.length ≤ 1
  /-- The worker does not leave the loop before `~Client` stops it. -/
  running : s.worker = .returned → Label.stop ∈ trace
  /-- `stop` lets at most the current operation finish. -/
  stopped : ∀ {before after}, trace = before ++ .stop :: after →
    after.filterMap Label.popped = []
  /-- At rest a client in use has executed everything, and one that is gone has
  destroyed what it has not executed. -/
  rest : AtRest (machine α) Label.Own s →
    s.owner = .live ∧
        (trace.filterMap Label.entered).Perm (trace.filterMap Label.finished) ∨
      s.owner = .destroyed ∧
        (trace.filterMap Label.entered).Perm
          (trace.filterMap Label.finished ++ trace.flatMap Label.destroyed)

/-- Every posted operation is executed or destroyed, in order and once. -/
theorem accounted_of_run (hrun : Run (machine α) trace s) :
    Accounted trace s where
  posted := entered_perm hrun
  executed := by rw [pushed_eq hrun, popped_eq hrun]
  current := by cases s.worker <;> simp [Worker.current]
  running := fun hworker =>
    stop_of_stopped hrun ((sound_of_run hrun).returned hworker)
  stopped := by
    rintro before after rfl
    exact popped_after_stop hrun
  rest := by
    intro hrest
    have hposted := entered_perm hrun
    rw [pushed_eq hrun, popped_eq hrun] at hposted
    cases settled_of_rest hrun hrest with
    | idle howner hworker hqueue hposts hmutex =>
        refine .inl ⟨howner, ?_⟩
        simpa [hworker, hqueue, hposts, Worker.current,
          destroyed_eq_nil hrun (by simp [howner])] using hposted
    | gone howner hworker hqueue hposts hmutex =>
        refine .inr ⟨howner, ?_⟩
        simpa [hworker, hqueue, hposts, Worker.current] using hposted

theorem life_accounted : ∃ s, Run (machine ℕ) lifeTrace s ∧
    Accounted lifeTrace s := by
  obtain ⟨s, hrun⟩ := lifeRun
  exact ⟨s, hrun, accounted_of_run hrun⟩

end Cberl.Client
