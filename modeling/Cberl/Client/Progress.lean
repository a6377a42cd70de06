import Cberl.Client.Invariant
import Cberl.Support.Settling
import Mathlib.Algebra.BigOperators.Group.List.Basic

/-!
# The event loop comes to rest

Left alone, without further posts, wakeups out of nothing or the end of the
`Client`, the threads of a client stop after finitely many steps.  At rest there
is nothing in the queue: no signal is lost, no thread waits for the mutex for
ever, and `~Client` returns.
-/

namespace Cberl.Client

open Cberl.Support

variable {α : Type*}

/-- A step that needs nothing from outside. -/
def Label.Own : Label α → Prop
  | enter _ => False
  | wakeup => False
  | close => False
  | _ => True

/-! ## The cost of a state -/

/-- An operation in the queue will be popped, run and cleaned up after. -/
def queueCost : ℕ := 10

def Post.cost : Post α → ℕ
  | counting _ => queueCost + 10
  | locking _ => queueCost + 9
  | pushing _ => queueCost + 8
  | signalling => 5

/-- What the worker does before it sleeps, given the bit of the event. -/
def Worker.cost (bit : ℕ) : Worker α → ℕ
  | entering => 5
  | executing _ => 6
  | cleaning => 5
  | stopping _ => 4
  | locking => 3
  | deciding => 2
  | testing => 1 + 2 * bit
  | sleeping true => 2 + 2 * bit
  | sleeping false => 0
  | returned => 0

def Owner.cost : Owner → ℕ
  | live => 0
  | stopping => 10
  | stopLocked => 9
  | joining => 3
  | releasing => 2
  | shuttingDown => 1
  | destroyed => 0

def State.cost (s : State α) : ℕ :=
  (s.posts.map Post.cost).sum + queueCost * s.opQueue.length +
    s.worker.cost (s.event % 2) + s.owner.cost

variable {s s' : State α} {label : Label α}

/-- A signal makes at most one more turn of the worker. -/
theorem cost_signal_le (worker : Worker α) (bit : ℕ) {bit' : ℕ}
    (hbit : bit' < 2) :
    worker.signal.cost bit' ≤ worker.cost bit + 4 := by
  cases worker with
  | sleeping signalled =>
      cases signalled <;> (simp only [Worker.signal, Worker.cost]; omega)
  | _ =>
      simp only [Worker.signal, Worker.cost]
      omega

theorem cost_le (worker : Worker α) (bit : ℕ) {bit' : ℕ} (hbit : bit' < 2) :
    worker.cost bit' ≤ worker.cost bit + 2 := by
  cases worker with
  | sleeping signalled =>
      cases signalled <;> (simp only [Worker.cost]; omega)
  | _ =>
      simp only [Worker.cost]
      omega

/-- Every own step lowers the cost. -/
theorem cost_lt (h : Sound s) (hown : label.Own) (hstep : Step s label s') :
    s'.cost < s.cost := by
  have hbit : s.event % 2 < 2 := Nat.mod_lt _ (by decide)
  have hone : 1 < 2 := by decide
  cases hstep with
  | enter howner => exact hown.elim
  | wakeup hworker hfree => exact hown.elim
  | close howner hposts => exact hown.elim
  | workStarted hposts => simp [State.cost, hposts, Post.cost]
  | postLock hposts hfree => simp [State.cost, hposts, Post.cost]
  | pushSignal hposts hwaiters =>
      have hworker := cost_le s.worker (s.event % 2) hone
      simp [State.cost, hposts, Post.cost, signal_mod, queueCost]
      omega
  | pushOnly hposts hwaiters =>
      have hworker := cost_le s.worker (s.event % 2) hone
      simp [State.cost, hposts, Post.cost, signal_mod, queueCost]
      omega
  | condSignal hposts =>
      have hworker := cost_signal_le s.worker (s.event % 2) hbit
      simp [State.cost, hposts, Post.cost]
      omega
  | runEmpty hworker hwork =>
      simp [State.cost, hworker, Worker.cost]
  | workFinished hworker hwork =>
      simp [State.cost, hworker, Worker.cost]
  | workExhausted hworker hwork =>
      simp [State.cost, hworker, Worker.cost]
  | workerStop hworker hfree => exact absurd hworker (h.running _)
  | pop hworker hstopped hqueue =>
      simp [State.cost, hworker, hqueue, Worker.cost, queueCost]
      omega
  | clear hworker hstopped hqueue =>
      simp [State.cost, hworker, hqueue, Worker.cost, PosixEvent.clear_eq]
  | waitDone hworker hsignalled =>
      rw [PosixEvent.IsSignalled] at hsignalled
      simp [State.cost, hworker, Worker.cost, hsignalled]
  | sleep hworker hsignalled => simp [State.cost, hworker, Worker.cost]
  | wake hworker hfree =>
      have hwaiters := h.waiters
      rw [hworker] at hwaiters
      simp [Worker.waiters] at hwaiters
      simp [State.cost, hworker, Worker.cost]
      omega
  | stop howner =>
      have hworker := cost_signal_le s.worker (s.event % 2) hone
      simp [State.cost, howner, Owner.cost, State.stopAllThreads, signal_mod]
      omega
  | releaseLast howner hwork hfree =>
      have hreturned := h.joined (by simp [howner, Owner.hasJoined])
      simp [State.cost, howner, Owner.cost, State.stopAllThreads, hreturned,
        Worker.signal, Worker.cost]
  | shutdown howner =>
      simp only [State.cost, howner, Owner.cost, List.length_nil]
      omega
  | stopLock howner hfree => simp [State.cost, howner, Owner.cost]
  | join howner hworker => simp [State.cost, howner, Owner.cost]
  | release howner hwork => simp [State.cost, howner, Owner.cost]
  | runEntry hworker hwork => simp [State.cost, hworker, Worker.cost]
  | runLock hworker hfree => simp [State.cost, hworker, Worker.cost]
  | runReturn hworker hstopped => simp [State.cost, hworker, Worker.cost]
  | finish hworker => simp [State.cost, hworker, Worker.cost]

theorem settling (α : Type*) :
    Settling (machine α) Label.Own Sound State.cost where
  keep := fun h _ hstep => h.step hstep
  lower := fun h hown hstep => cost_lt h hown hstep

/-! ## Rest -/

/-- Nobody waits: either the worker sleeps before an empty queue, or the
`Client` is gone and its worker and queue with it. -/
inductive Settled (s : State α) : Prop
  | idle (howner : s.owner = .live) (hworker : s.worker = .sleeping false)
      (hqueue : s.opQueue = []) (hposts : s.posts = []) (hmutex : s.mutex = none)
  | gone (howner : s.owner = .destroyed) (hworker : s.worker = .returned)
      (hqueue : s.opQueue = []) (hposts : s.posts = []) (hmutex : s.mutex = none)

/-- At rest nobody holds the mutex. -/
theorem mutex_of_rest (h : Sound s) (hrest : AtRest (machine α) Label.Own s) :
    s.mutex = none := by
  cases hmutex : s.mutex with
  | none => rfl
  | some holder =>
      cases holder with
      | post =>
          have hholds := h.postHolds
          rw [hmutex, if_pos rfl] at hholds
          obtain ⟨post, hpost, hpushing⟩ :=
            List.countP_pos_iff.mp (hholds ▸ Nat.one_pos)
          obtain ⟨before, after, hposts⟩ := List.append_of_mem hpost
          cases post with
          | pushing op =>
              by_cases hwaiters :
                  PosixEvent.HasWaiters (PosixEvent.signal s.event)
              · exact (hrest.elim (.pushSignal hposts hwaiters) trivial).elim
              · exact (hrest.elim (.pushOnly hposts hwaiters) trivial).elim
          | _ => cases hpushing
      | worker =>
          have hholds := h.workerHolds.mpr hmutex
          cases hworker : s.worker with
          | deciding =>
              cases hstopped : s.stopped with
              | true => exact (hrest.elim (.runReturn hworker hstopped) trivial).elim
              | false =>
                  cases hqueue : s.opQueue with
                  | nil =>
                      exact (hrest.elim (.clear hworker hstopped hqueue) trivial).elim
                  | cons op rest =>
                      exact (hrest.elim (.pop hworker hstopped hqueue) trivial).elim
          | testing =>
              by_cases hsignalled : PosixEvent.IsSignalled s.event
              · exact (hrest.elim (.waitDone hworker hsignalled) trivial).elim
              · exact (hrest.elim (.sleep hworker hsignalled) trivial).elim
          | _ =>
              rw [hworker] at hholds
              cases hholds
      | owner =>
          have howner := h.ownerHolds.mpr hmutex
          exact (hrest.elim (.stop howner) trivial).elim

theorem posts_of_rest (hfree : s.mutex = none)
    (h : Sound s) (hrest : AtRest (machine α) Label.Own s) : s.posts = [] := by
  cases hposts : s.posts with
  | nil => rfl
  | cons post rest =>
      have hsplit : s.posts = [] ++ post :: rest := hposts
      cases post with
      | counting op => exact (hrest.elim (.workStarted hsplit) trivial).elim
      | locking op => exact (hrest.elim (.postLock hsplit hfree) trivial).elim
      | signalling => exact (hrest.elim (.condSignal hsplit) trivial).elim
      | pushing op =>
          have hholds := h.postHolds
          rw [hfree, hposts] at hholds
          simp [Post.holds] at hholds

theorem worker_of_rest (hfree : s.mutex = none) (h : Sound s)
    (hrest : AtRest (machine α) Label.Own s) :
    s.worker = .sleeping false ∨ s.worker = .returned := by
  cases hworker : s.worker with
  | entering =>
      by_cases hwork : s.outstandingWork = 0
      · exact (hrest.elim (.runEmpty hworker hwork) trivial).elim
      · exact (hrest.elim (.runEntry hworker hwork) trivial).elim
  | locking => exact (hrest.elim (.runLock hworker hfree) trivial).elim
  | sleeping signalled =>
      cases signalled with
      | false => exact .inl rfl
      | true => exact (hrest.elim (.wake hworker hfree) trivial).elim
  | executing op => exact (hrest.elim (.finish hworker) trivial).elim
  | cleaning =>
      by_cases hwork : s.outstandingWork - 1 = 0
      · exact (hrest.elim (.workExhausted hworker hwork) trivial).elim
      · exact (hrest.elim (.workFinished hworker hwork) trivial).elim
  | stopping inRun => exact absurd hworker (h.running _)
  | returned => exact .inr rfl
  | _ =>
      have hholds := h.workerHolds
      rw [hworker, hfree] at hholds
      simp [Worker.holds] at hholds

/-- A sleeping worker has nothing to do. -/
theorem idle_of_sleeping (h : Sound s) (hworker : s.worker = .sleeping false)
    (hposts : s.posts = []) : s.opQueue = [] ∧ s.stopped = false := by
  have hbit : s.event % 2 ≠ 1 := by
    intro hbit
    have hsignals := h.asleep hworker hbit
    rw [hposts] at hsignals
    cases hsignals
  have hwork := mt (h.signalled (by simp [hworker, Worker.attends])) hbit
  simpa using hwork

/-- `~Client` leaves nothing in the queue. -/
theorem opQueue_of_destroyed (hrun : Run (machine α) trace s)
    (howner : s.owner = .destroyed) : s.opQueue = [] := by
  revert howner
  refine @Run.invariant _ _ (machine α) (fun _ s => s.owner = .destroyed →
    s.opQueue = []) ?_ ?_ _ _ hrun
  · rintro s rfl _
    rfl
  · intro trace s label s' hrun ih hstep howner
    have h := sound_of_run hrun
    cases hstep with
    | shutdown howner' => rfl
    | pushSignal hposts hwaiters =>
        rw [h.live hposts] at howner
        cases howner
    | pushOnly hposts hwaiters =>
        rw [h.live hposts] at howner
        cases howner
    | pop hworker hstopped hqueue =>
        have hempty := ih howner
        rw [hqueue] at hempty
        cases hempty
    | close howner' hposts => cases howner
    | stopLock howner' hfree => cases howner
    | stop howner' => cases howner
    | join howner' hworker => cases howner
    | release howner' hwork => cases howner
    | releaseLast howner' hwork hfree => cases howner
    | _ => exact ih howner

theorem settled_of_rest {trace : List (Label α)} (hrun : Run (machine α) trace s)
    (hrest : AtRest (machine α) Label.Own s) : Settled s := by
  have h := sound_of_run hrun
  have hfree := mutex_of_rest h hrest
  have hposts := posts_of_rest hfree h hrest
  have hstopped := h.stopped
  rcases worker_of_rest hfree h hrest with hworker | hworker
  · obtain ⟨hqueue, hstopped'⟩ := idle_of_sleeping h hworker hposts
    refine .idle ?_ hworker hqueue hposts hfree
    rw [hstopped'] at hstopped
    cases howner : s.owner with
    | live => rfl
    | stopping => exact (hrest.elim (.stopLock howner hfree) trivial).elim
    | stopLocked => exact (hrest.elim (.stop howner) trivial).elim
    | _ =>
        rw [howner] at hstopped
        cases hstopped
  · rw [h.returned hworker] at hstopped
    have hdestroyed : s.owner = .destroyed := by
      cases howner : s.owner with
      | joining => exact (hrest.elim (.join howner hworker) trivial).elim
      | releasing =>
          by_cases hwork : s.outstandingWork - 1 = 0
          · exact (hrest.elim (.releaseLast howner hwork hfree) trivial).elim
          · exact (hrest.elim (.release howner hwork) trivial).elim
      | shuttingDown => exact (hrest.elim (.shutdown howner) trivial).elim
      | destroyed => rfl
      | _ =>
          rw [howner] at hstopped
          cases hstopped
    exact .gone hdestroyed hworker (opQueue_of_destroyed hrun hdestroyed) hposts
      hfree

/-- Left alone, a client comes to rest in every way its threads may be
scheduled, and at rest nobody waits. -/
theorem comes_to_rest {trace : List (Label α)} (hrun : Run (machine α) trace s) :
    (∀ {labels s'}, Path (machine α) Label.Own labels s s' →
      labels.length ≤ s.cost) ∧
    (∃ labels s', Path (machine α) Label.Own labels s s' ∧
      AtRest (machine α) Label.Own s') ∧
    (∀ {labels s'}, Path (machine α) Label.Own labels s s' →
      AtRest (machine α) Label.Own s' → Settled s') := by
  have h := sound_of_run hrun
  refine ⟨?_, (settling α).exists_rest h, ?_⟩
  · intro labels s' hpath
    have hlength := (settling α).length_le hpath h
    omega
  · intro labels s' hpath hrest
    exact settled_of_rest (hrun.append_path hpath) hrest

/-! ## The life of a client -/

/-- The worker falls asleep, an operation is posted, the signal wakes the worker
and it executes the operation; another one is posted and the `Client` goes away
before the worker takes it. -/
def lifeTrace : List (Label ℕ) :=
  [.internal, .internal, .internal, .internal,
    .enter 7, .internal, .internal, .push 7, .internal,
    .internal, .internal, .pop 7,
    .enter 8, .internal, .internal, .push 8,
    .close, .internal, .stop,
    .finish 7, .internal, .internal, .internal,
    .internal, .internal, .destroy [8]]

/-- The first operation is in execution, the second one in the queue, and
`~Client` is about to stop the loop. -/
def stoppingState : State ℕ where
  opQueue := [8]
  outstandingWork := 3
  stopped := false
  event := 1
  mutex := none
  posts := []
  worker := .executing 7
  owner := .stopping

theorem stoppingRun : Run (machine ℕ) (lifeTrace.take 17) stoppingState := by
  have h₀ : Run (machine ℕ) [] State.new := .start rfl
  have h₁ : Run (machine ℕ) (lifeTrace.take 1) _ :=
    h₀.step (.runEntry rfl (by decide))
  have h₂ : Run (machine ℕ) (lifeTrace.take 2) _ := h₁.step (.runLock rfl rfl)
  have h₃ : Run (machine ℕ) (lifeTrace.take 3) _ := h₂.step (.clear rfl rfl rfl)
  have h₄ : Run (machine ℕ) (lifeTrace.take 4) _ :=
    h₃.step (.sleep rfl (by decide))
  have h₅ : Run (machine ℕ) (lifeTrace.take 5) _ := h₄.step (.enter rfl)
  have h₆ : Run (machine ℕ) (lifeTrace.take 6) _ :=
    h₅.step (@Step.workStarted _ _ _ [] [] rfl)
  have h₇ : Run (machine ℕ) (lifeTrace.take 7) _ :=
    h₆.step (@Step.postLock _ _ _ [] [] rfl rfl)
  have h₈ : Run (machine ℕ) (lifeTrace.take 8) _ :=
    h₇.step (@Step.pushSignal _ _ _ [] [] rfl (by decide))
  have h₉ : Run (machine ℕ) (lifeTrace.take 9) _ :=
    h₈.step (@Step.condSignal _ _ [] [] rfl)
  have h₁₀ : Run (machine ℕ) (lifeTrace.take 10) _ := h₉.step (.wake rfl rfl)
  have h₁₁ : Run (machine ℕ) (lifeTrace.take 11) _ :=
    h₁₀.step (.waitDone rfl (by decide))
  have h₁₂ : Run (machine ℕ) (lifeTrace.take 12) _ := h₁₁.step (.pop rfl rfl rfl)
  have h₁₃ : Run (machine ℕ) (lifeTrace.take 13) _ := h₁₂.step (.enter rfl)
  have h₁₄ : Run (machine ℕ) (lifeTrace.take 14) _ :=
    h₁₃.step (@Step.workStarted _ _ _ [] [] rfl)
  have h₁₅ : Run (machine ℕ) (lifeTrace.take 15) _ :=
    h₁₄.step (@Step.postLock _ _ _ [] [] rfl rfl)
  have h₁₆ : Run (machine ℕ) (lifeTrace.take 16) _ :=
    h₁₅.step (@Step.pushOnly _ _ _ [] [] rfl (by decide))
  exact h₁₆.step (.close rfl rfl)

theorem lifeRun : ∃ s, Run (machine ℕ) lifeTrace s := by
  have h₁₇ : Run (machine ℕ) (lifeTrace.take 17) stoppingState := stoppingRun
  have h₁₈ : Run (machine ℕ) (lifeTrace.take 18) _ := h₁₇.step (.stopLock rfl rfl)
  have h₁₉ : Run (machine ℕ) (lifeTrace.take 19) _ := h₁₈.step (.stop rfl)
  have h₂₀ : Run (machine ℕ) (lifeTrace.take 20) _ := h₁₉.step (.finish rfl)
  have h₂₁ : Run (machine ℕ) (lifeTrace.take 21) _ :=
    h₂₀.step (.workFinished rfl (by decide))
  have h₂₂ : Run (machine ℕ) (lifeTrace.take 22) _ := h₂₁.step (.runLock rfl rfl)
  have h₂₃ : Run (machine ℕ) (lifeTrace.take 23) _ :=
    h₂₂.step (.runReturn rfl rfl)
  have h₂₄ : Run (machine ℕ) (lifeTrace.take 24) _ := h₂₃.step (.join rfl rfl)
  have h₂₅ : Run (machine ℕ) (lifeTrace.take 25) _ :=
    h₂₄.step (.release rfl (by decide))
  exact ⟨_, h₂₅.step (.shutdown rfl)⟩

/-- From there the threads come to rest. -/
theorem life_comes_to_rest :
    Run (machine ℕ) (lifeTrace.take 17) stoppingState ∧
      ∃ labels s', Path (machine ℕ) Label.Own labels stoppingState s' ∧
        labels.length ≤ stoppingState.cost ∧
        AtRest (machine ℕ) Label.Own s' ∧ Settled s' := by
  obtain ⟨hbounded, ⟨labels, s', hpath, hrest⟩, hsettled⟩ :=
    comes_to_rest stoppingRun
  exact ⟨stoppingRun, labels, s', hpath, hbounded hpath, hrest,
    hsettled hpath hrest⟩

end Cberl.Client
