import Cberl.Client.Scheduler
import Mathlib.Data.List.Count
import Mathlib.Tactic.Ring

/-!
# What holds of the event loop at any time

The mutex has one holder, the counter of outstanding work counts what is left to
do, and a worker that sleeps has nothing to do, or will be signalled.
-/

namespace Cberl.Client

open Cberl.Support

variable {α : Type*}

/-! ## Readings of a state -/

namespace Post

/-- Counted as outstanding work, and not in the queue yet. -/
def counted : Post α → Bool
  | locking _ => true
  | pushing _ => true
  | _ => false

def holds : Post α → Bool
  | pushing _ => true
  | _ => false

def signals : Post α → Bool
  | signalling => true
  | _ => false

end Post

namespace Worker

def holds : Worker α → Bool
  | deciding => true
  | testing => true
  | _ => false

/-- The operation that is still counted as outstanding work. -/
def work : Worker α → ℕ
  | executing _ => 1
  | cleaning => 1
  | _ => 0

/-- The worker as a waiter of the event. -/
def waiters : Worker α → ℕ
  | sleeping _ => 1
  | _ => 0

/-- Between `clear` and the end of `wait`. -/
def attends : Worker α → Bool
  | testing => true
  | sleeping _ => true
  | _ => false

end Worker

namespace Owner

/-- The work guard. -/
def guard : Owner → ℕ
  | shuttingDown => 0
  | destroyed => 0
  | _ => 1

/-- `stop` is over. -/
def hasStopped : Owner → Bool
  | joining => true
  | releasing => true
  | shuttingDown => true
  | destroyed => true
  | _ => false

/-- `join` is over. -/
def hasJoined : Owner → Bool
  | releasing => true
  | shuttingDown => true
  | destroyed => true
  | _ => false

end Owner

/-! ## The invariant -/

structure Sound (s : State α) : Prop where
  postHolds : s.posts.countP Post.holds =
    if s.mutex = some .post then 1 else 0
  workerHolds : s.worker.holds = true ↔ s.mutex = some .worker
  ownerHolds : s.owner = .stopLocked ↔ s.mutex = some .owner
  /-- The guard, the queue, the posts on their way to it and the operation that
  is not finished. -/
  work : s.owner ≠ .destroyed →
    s.outstandingWork = (s.owner.guard + s.opQueue.length +
      s.posts.countP Post.counted + s.worker.work : ℕ)
  waiters : s.event / 2 = s.worker.waiters
  /-- Whoever has signalled the event and not the worker is about to. -/
  asleep : s.worker = .sleeping false → s.event % 2 = 1 →
    0 < s.posts.countP Post.signals
  signalled : s.worker.attends = true →
    s.opQueue ≠ [] ∨ s.stopped = true → s.event % 2 = 1
  stopped : s.stopped = s.owner.hasStopped
  closed : s.owner ≠ .live → s.posts = []
  /-- The worker never stops the loop by itself. -/
  running : ∀ inRun, s.worker ≠ .stopping inRun
  returned : s.worker = .returned → s.stopped = true
  joined : s.owner.hasJoined = true → s.worker = .returned

theorem sound_new : Sound (State.new : State α) := by
  constructor <;>
    simp [State.new, State.service, State.makeWorkGuard, State.startWorker,
      Worker.holds, Worker.work, Worker.waiters, Worker.attends, Owner.guard,
      Owner.hasStopped, Owner.hasJoined]

variable {s s' : State α} {label : Label α}

/-- A thread inside a post keeps the `Client` alive. -/
theorem Sound.live (h : Sound s) {before after : List (Post α)} {post : Post α}
    (hposts : s.posts = before ++ post :: after) : s.owner = .live := by
  by_contra howner
  have hnone := h.closed howner
  rw [hposts] at hnone
  simp at hnone

/-- The event is signalled and its waiters stay. -/
theorem signal_mod (event : ℕ) : PosixEvent.signal event % 2 = 1 := by
  rw [PosixEvent.signal_eq]
  omega

theorem signal_div (event : ℕ) : PosixEvent.signal event / 2 = event / 2 := by
  rw [PosixEvent.signal_eq]
  omega

@[simp] theorem waiters_signal (worker : Worker α) :
    worker.signal.waiters = worker.waiters := by
  cases worker <;> rfl

@[simp] theorem holds_signal (worker : Worker α) :
    worker.signal.holds = worker.holds := by
  cases worker <;> rfl

@[simp] theorem work_signal (worker : Worker α) :
    worker.signal.work = worker.work := by
  cases worker <;> rfl

@[simp] theorem attends_signal (worker : Worker α) :
    worker.signal.attends = worker.attends := by
  cases worker <;> rfl

theorem signal_ne_sleeping (worker : Worker α) :
    worker.signal ≠ .sleeping false := by
  cases worker <;> simp [Worker.signal]

@[simp] theorem signal_eq_stopping {worker : Worker α} {inRun : Bool} :
    worker.signal = .stopping inRun ↔ worker = .stopping inRun := by
  cases worker <;> simp [Worker.signal]

@[simp] theorem signal_eq_returned {worker : Worker α} :
    worker.signal = .returned ↔ worker = .returned := by
  cases worker <;> simp [Worker.signal]

/-- The queue, the event and the mutex after a push. -/
theorem Sound.push (h : Sound s) {op : α} {before after rest : List (Post α)}
    (hposts : s.posts = before ++ .pushing op :: after)
    (hrest : rest.countP Post.holds + 1 = s.posts.countP Post.holds)
    (hcounted : rest.countP Post.counted + 1 = s.posts.countP Post.counted)
    (hsignals : PosixEvent.HasWaiters (PosixEvent.signal s.event) →
      0 < rest.countP Post.signals) :
    Sound
      { s with
        posts := rest
        opQueue := s.opQueue ++ [op]
        event := PosixEvent.signal s.event
        mutex := none } := by
  have howner := h.live hposts
  have hholds := h.postHolds
  have hmutex : s.mutex = some .post := by
    by_contra hmutex
    rw [if_neg hmutex] at hholds
    omega
  rw [if_pos hmutex] at hholds
  have hworker := h.workerHolds
  rw [hmutex] at hworker
  exact { h with
    postHolds := by
      simp only [reduceCtorEq, if_false]
      omega
    workerHolds := by simpa using hworker
    ownerHolds := by simp [howner]
    work := by
      intro hdestroyed
      have hwork := h.work hdestroyed
      simp only [List.length_append, List.length_singleton]
      rw [hwork, ← hcounted]
      congr 1
      ring
    waiters := by
      rw [signal_div]
      exact h.waiters
    asleep := by
      intro hasleep _
      have hwaiters := h.waiters
      rw [hasleep] at hwaiters
      apply hsignals
      rw [PosixEvent.HasWaiters, PosixEvent.signal_eq, hwaiters]
      simp [Worker.waiters]
    signalled := fun _ _ => signal_mod s.event
    closed := fun hclosed => absurd howner hclosed }

theorem Sound.mutex_ne_post (h : Sound s) {holder : Holder}
    (hmutex : s.mutex = some holder) (hholder : holder ≠ .post) :
    s.posts.countP Post.holds = 0 := by
  rw [h.postHolds, hmutex]
  simp [hholder]

/-- The worker leaves its critical section. -/
theorem Sound.mutex_worker (h : Sound s) (hholds : s.worker.holds = true) :
    s.mutex = some .worker ∧ s.owner ≠ .stopLocked ∧
      s.posts.countP Post.holds = 0 := by
  have hmutex := h.workerHolds.mp hholds
  refine ⟨hmutex, ?_, h.mutex_ne_post hmutex (by decide)⟩
  intro howner
  rw [h.ownerHolds.mp howner] at hmutex
  cases hmutex

/-- The worker comes back from `pthread_cond_wait`. -/
theorem Sound.awake (h : Sound s) {signalled : Bool}
    (hworker : s.worker = .sleeping signalled) (hfree : s.mutex = none) :
    Sound
      { s with
        worker := .testing
        event := s.event - 2
        mutex := some .worker } := by
  have howner := h.ownerHolds
  have hholds := h.postHolds
  have hwaiters := h.waiters
  have hattends := h.signalled
  rw [hfree] at howner hholds
  rw [hworker] at hwaiters hattends
  simp only [Worker.waiters] at hwaiters
  exact { h with
    postHolds := by simpa using hholds
    workerHolds := by simp [Worker.holds]
    ownerHolds := by simpa using howner
    work := by simpa [hworker, Worker.work] using h.work
    waiters := by
      simp only [Worker.waiters]
      omega
    asleep := by simp
    signalled := by
      intro _ hwork
      have hsignalled := hattends rfl hwork
      simp only
      omega
    running := by simp
    returned := by simp
    joined := by simpa [hworker] using h.joined }

/-- What `stop_all_threads` keeps; the flag is up to the caller. -/
theorem Sound.stopAll (h : Sound s) :
    Sound { s.stopAllThreads with stopped := s.stopped } := by
  exact { h with
    workerHolds := by simpa [State.stopAllThreads] using h.workerHolds
    work := by simpa [State.stopAllThreads] using h.work
    waiters := by
      simp only [State.stopAllThreads, waiters_signal]
      rw [signal_div]
      exact h.waiters
    asleep := fun hasleep => absurd hasleep (signal_ne_sleeping s.worker)
    signalled := fun _ _ => signal_mod s.event
    running := by simpa [State.stopAllThreads] using h.running
    returned := by simpa [State.stopAllThreads] using h.returned
    joined := by simpa [State.stopAllThreads] using h.joined }

/-- While the worker runs, the guard counts. -/
theorem Sound.guarded (h : Sound s) (hworker : s.worker ≠ .returned) :
    0 < s.outstandingWork - s.worker.work := by
  have hjoined : s.owner.hasJoined = false := by
    by_contra hjoined
    exact hworker (h.joined (by simpa using hjoined))
  have howner : s.owner.guard = 1 ∧ s.owner ≠ .destroyed := by
    cases hcase : s.owner <;> simp_all [Owner.hasJoined, Owner.guard]
  rw [h.work howner.2, howner.1]
  push_cast
  omega

theorem Sound.step (h : Sound s) (hstep : Step s label s') : Sound s' := by
  cases hstep with
  | enter howner =>
      exact { h with
        postHolds := by
          rw [List.countP_append]
          simpa [Post.holds] using h.postHolds
        work := by
          intro hdestroyed
          rw [List.countP_append]
          simpa [Post.counted] using h.work hdestroyed
        asleep := by
          intro hasleep hsignalled
          rw [List.countP_append]
          exact Nat.lt_add_right _ (h.asleep hasleep hsignalled)
        closed := fun hclosed => absurd howner hclosed }
  | workStarted hposts =>
      have howner := h.live hposts
      exact { h with
        postHolds := by
          simpa [hposts, List.countP_cons, Post.holds] using h.postHolds
        work := by
          intro hdestroyed
          have hwork := h.work hdestroyed
          simp [hposts, List.countP_cons, Post.counted] at hwork ⊢
          omega
        asleep := by
          intro hasleep hsignalled
          simpa [hposts, List.countP_cons, Post.signals] using h.asleep hasleep hsignalled
        closed := fun hclosed => absurd howner hclosed }
  | postLock hposts hfree =>
      have howner := h.live hposts
      have hholds : s.posts.countP Post.holds = 0 := by
        rw [h.postHolds, hfree]
        rfl
      have hworker := h.workerHolds
      rw [hfree] at hworker
      rw [hposts, List.countP_append, List.countP_cons] at hholds
      exact { h with
        postHolds := by
          simp only [List.countP_append, List.countP_cons, Post.holds, if_true]
          omega
        workerHolds := by simpa using hworker
        ownerHolds := by simp [howner]
        work := by
          intro hdestroyed
          simpa [hposts, List.countP_cons, Post.counted] using h.work hdestroyed
        asleep := by
          intro hasleep hsignalled
          simpa [hposts, List.countP_cons, Post.signals] using h.asleep hasleep hsignalled
        closed := fun hclosed => absurd howner hclosed }
  | pushSignal hposts hwaiters =>
      apply h.push hposts
      · simp [hposts, List.countP_cons, Post.holds]
        omega
      · simp [hposts, List.countP_cons, Post.counted]
        omega
      · intro _
        simp [Post.signals]
  | pushOnly hposts hwaiters =>
      apply h.push hposts
      · simp [hposts, List.countP_cons, Post.holds]
        omega
      · simp [hposts, List.countP_cons, Post.counted]
        omega
      · exact fun h => absurd h hwaiters
  | condSignal hposts =>
      have howner := h.live hposts
      exact { h with
        postHolds := by simpa [hposts, List.countP_cons, Post.holds] using h.postHolds
        workerHolds := by simpa using h.workerHolds
        work := by
          intro hdestroyed
          simpa [hposts, List.countP_cons, Post.counted] using h.work hdestroyed
        waiters := by simpa using h.waiters
        asleep := fun hasleep => absurd hasleep (signal_ne_sleeping s.worker)
        signalled := by simpa using h.signalled
        closed := fun hclosed => absurd howner hclosed
        running := by simpa using h.running
        returned := by simpa using h.returned
        joined := by simpa using h.joined }
  | runEntry hworker hwork =>
      exact { h with
        workerHolds := by simpa [hworker, Worker.holds] using h.workerHolds
        work := by simpa [hworker, Worker.work] using h.work
        waiters := by simpa [hworker, Worker.waiters] using h.waiters
        asleep := by simp
        signalled := by simp [Worker.attends]
        running := by simp
        returned := by simp
        joined := by simpa [hworker] using h.joined }
  | runEmpty hworker hwork =>
      have hguarded := h.guarded (by simp [hworker])
      rw [hwork, hworker] at hguarded
      simp [Worker.work] at hguarded
  | runLock hworker hfree =>
      have hfree' := h.ownerHolds
      have hholds := h.postHolds
      rw [hfree] at hfree' hholds
      exact { h with
        postHolds := by simpa using hholds
        workerHolds := by simp [Worker.holds]
        ownerHolds := by simpa using hfree'
        work := by simpa [hworker, Worker.work] using h.work
        waiters := by simpa [hworker, Worker.waiters] using h.waiters
        asleep := by simp
        signalled := by simp [Worker.attends]
        running := by simp
        returned := by simp
        joined := by simpa [hworker] using h.joined }
  | runReturn hworker hstopped =>
      obtain ⟨-, howner, hholds⟩ := h.mutex_worker (by simp [hworker, Worker.holds])
      exact { h with
        postHolds := by simpa using hholds
        workerHolds := by simp [Worker.holds]
        ownerHolds := by simpa using howner
        work := by simpa [hworker, Worker.work] using h.work
        waiters := by simpa [hworker, Worker.waiters] using h.waiters
        asleep := by simp
        signalled := by simp [Worker.attends]
        running := by simp
        returned := fun _ => hstopped
        joined := fun _ => rfl }
  | pop hworker hstopped hqueue =>
      obtain ⟨-, howner, hholds⟩ := h.mutex_worker (by simp [hworker, Worker.holds])
      exact { h with
        postHolds := by simpa using hholds
        workerHolds := by simp [Worker.holds]
        ownerHolds := by simpa using howner
        work := by
          intro hdestroyed
          have hwork := h.work hdestroyed
          rw [hworker, hqueue] at hwork
          rw [hwork]
          simp only [List.length_cons, Worker.work]
          congr 1
          ring
        waiters := by simpa [hworker, Worker.waiters] using h.waiters
        asleep := by simp
        signalled := by simp [Worker.attends]
        running := by simp
        returned := by simp
        joined := by simpa [hworker] using h.joined }
  | clear hworker hstopped hqueue =>
      have hwaiters := h.waiters
      rw [hworker] at hwaiters
      exact { h with
        workerHolds := by simpa [hworker, Worker.holds] using h.workerHolds
        work := by simpa [hworker, Worker.work] using h.work
        waiters := by
          rw [PosixEvent.clear_eq]
          simpa [Worker.waiters] using hwaiters
        asleep := by simp
        signalled := by simp [hqueue, hstopped]
        running := by simp
        returned := by simp
        joined := by simpa [hworker] using h.joined }
  | waitDone hworker hsignalled =>
      exact { h with
        workerHolds := by simpa [hworker, Worker.holds] using h.workerHolds
        work := by simpa [hworker, Worker.work] using h.work
        waiters := by simpa [hworker, Worker.waiters] using h.waiters
        asleep := by simp
        signalled := by simp [Worker.attends]
        running := by simp
        returned := by simp
        joined := by simpa [hworker] using h.joined }
  | sleep hworker hsignalled =>
      obtain ⟨-, howner, hholds⟩ := h.mutex_worker (by simp [hworker, Worker.holds])
      have hwaiters := h.waiters
      have hattends := h.signalled
      rw [hworker] at hwaiters hattends
      simp only [Worker.waiters] at hwaiters
      rw [PosixEvent.IsSignalled] at hsignalled
      exact { h with
        postHolds := by simpa using hholds
        workerHolds := by simp [Worker.holds]
        ownerHolds := by simpa using howner
        work := by simpa [hworker, Worker.work] using h.work
        waiters := by
          simp only [Worker.waiters]
          omega
        asleep := by
          intro _ hsignalled'
          simp only at hsignalled'
          omega
        signalled := fun _ hwork => absurd (hattends rfl hwork) hsignalled
        running := by simp
        returned := by simp
        joined := by simpa [hworker] using h.joined }
  | wake hworker hfree => exact h.awake hworker hfree
  | wakeup hworker hfree => exact h.awake hworker hfree
  | finish hworker =>
      exact { h with
        workerHolds := by simpa [hworker, Worker.holds] using h.workerHolds
        work := by simpa [hworker, Worker.work] using h.work
        waiters := by simpa [hworker, Worker.waiters] using h.waiters
        asleep := by simp
        signalled := by simp [Worker.attends]
        running := by simp
        returned := by simp
        joined := by simpa [hworker] using h.joined }
  | workFinished hworker hwork =>
      exact { h with
        workerHolds := by simpa [hworker, Worker.holds] using h.workerHolds
        work := by
          intro hdestroyed
          have hwork := h.work hdestroyed
          simp [hworker, Worker.work] at hwork ⊢
          omega
        waiters := by simpa [hworker, Worker.waiters] using h.waiters
        asleep := by simp
        signalled := by simp [Worker.attends]
        running := by simp
        returned := by simp
        joined := by simpa [hworker] using h.joined }
  | workExhausted hworker hwork =>
      have hguarded := h.guarded (by simp [hworker])
      rw [hworker] at hguarded
      simp [Worker.work, hwork] at hguarded
  | workerStop hworker hfree => exact absurd hworker (h.running _)
  | close howner hposts =>
      exact { h with
        ownerHolds := by simpa [howner] using h.ownerHolds
        work := by
          intro _
          have hwork := h.work (by simp [howner])
          simpa [howner, Owner.guard] using hwork
        stopped := by simpa [howner, Owner.hasStopped] using h.stopped
        closed := fun _ => hposts
        joined := by simp [Owner.hasJoined] }
  | stopLock howner hfree =>
      have hworker := h.workerHolds
      have hholds := h.postHolds
      rw [hfree] at hworker hholds
      exact { h with
        postHolds := by simpa using hholds
        workerHolds := by simpa using hworker
        ownerHolds := by simp
        work := by
          intro _
          have hwork := h.work (by simp [howner])
          simpa [howner, Owner.guard] using hwork
        stopped := by simpa [howner, Owner.hasStopped] using h.stopped
        closed := fun _ => h.closed (by simp [howner])
        joined := by simp [Owner.hasJoined] }
  | stop howner =>
      have hmutex := h.ownerHolds.mp howner
      have hworker := h.workerHolds
      have hholds := h.mutex_ne_post hmutex (by decide)
      rw [hmutex] at hworker
      exact { h.stopAll with
        postHolds := by simpa [State.stopAllThreads] using hholds
        workerHolds := by simpa [State.stopAllThreads] using hworker
        ownerHolds := by simp
        work := by
          intro _
          have hwork := h.work (by simp [howner])
          simpa [howner, Owner.guard, State.stopAllThreads] using hwork
        signalled := fun _ _ => signal_mod s.event
        stopped := rfl
        returned := fun _ => rfl
        closed := fun _ => h.closed (by simp [howner])
        joined := by simp [Owner.hasJoined] }
  | join howner hworker =>
      exact { h with
        ownerHolds := by simpa [howner] using h.ownerHolds
        work := by
          intro _
          have hwork := h.work (by simp [howner])
          simpa [howner, Owner.guard] using hwork
        stopped := by simpa [howner, Owner.hasStopped] using h.stopped
        closed := fun _ => h.closed (by simp [howner])
        joined := fun _ => hworker }
  | release howner hwork =>
      exact { h with
        ownerHolds := by simpa [howner] using h.ownerHolds
        work := by
          intro _
          have hwork := h.work (by simp [howner])
          simp [howner, Owner.guard] at hwork ⊢
          omega
        stopped := by simpa [howner, Owner.hasStopped] using h.stopped
        closed := fun _ => h.closed (by simp [howner])
        joined := fun _ => h.joined (by simp [howner, Owner.hasJoined]) }
  | releaseLast howner hwork hfree =>
      exact { h.stopAll with
        ownerHolds := by simpa [howner, State.stopAllThreads] using h.ownerHolds
        work := by
          intro _
          have hwork := h.work (by simp [howner])
          simp [howner, Owner.guard, State.stopAllThreads] at hwork ⊢
          omega
        signalled := fun _ _ => signal_mod s.event
        stopped := rfl
        returned := fun _ => rfl
        closed := fun _ => h.closed (by simp [howner])
        joined := fun _ => by
          have hreturned := h.joined (by simp [howner, Owner.hasJoined])
          simp [State.stopAllThreads, hreturned, Worker.signal] }
  | shutdown howner =>
      exact { h with
        ownerHolds := by simpa [howner] using h.ownerHolds
        work := fun hdestroyed => absurd rfl hdestroyed
        signalled := by
          intro hattends
          have hreturned := h.joined (by simp [howner, Owner.hasJoined])
          simp [hreturned, Worker.attends] at hattends
        stopped := by simpa [howner, Owner.hasStopped] using h.stopped
        closed := fun _ => h.closed (by simp [howner])
        joined := fun _ => h.joined (by simp [howner, Owner.hasJoined]) }

/-- The event loop is sound in every reachable state. -/
theorem sound_of_run {trace : List (Label α)} (hrun : Run (machine α) trace s) :
    Sound s := by
  refine @Run.invariant _ _ (machine α) (fun _ s => Sound s) ?_ ?_ _ _ hrun
  · rintro s rfl
    exact sound_new
  · intro trace s label s' _ h hstep
    exact h.step hstep

end Cberl.Client
