import Cberl.Support.LabelledRun
import Mathlib.Data.Int.Notation

/-!
# The event loop of a client

`Client` owns an `asio::io_service` constructed with concurrency hint 1, a work
guard on it and one thread that runs it.  NIF calls post operations from other
threads; nothing posts from inside an operation, and no reactor is ever created.
What remains of asio's scheduler then is below, one step for each access to what
its threads share: the mutex, the atomic counter of outstanding work, the
condition variable, and under the mutex the queue, the flag `stopped_` and the
state word of the event.
-/

namespace Cberl.Client

open Cberl.Support

/-! ## `posix_event` -/

/-! Bit 0 of the state word says that the event is signalled, the rest counts
the waiters. -/

namespace PosixEvent

/-- `state_ |= 1` -/
def signal (state : ℕ) : ℕ :=
  state ||| 1

/-- `state_ &= ~1` -/
def clear (state : ℕ) : ℕ :=
  state - state % 2

/-- `state_ & 1` -/
def IsSignalled (state : ℕ) : Prop :=
  state % 2 = 1

/-- `state_ > 1`, once the event is signalled. -/
def HasWaiters (state : ℕ) : Prop :=
  1 < state

instance (state : ℕ) : Decidable (IsSignalled state) :=
  inferInstanceAs (Decidable (state % 2 = 1))

instance (state : ℕ) : Decidable (HasWaiters state) :=
  inferInstanceAs (Decidable (1 < state))

theorem signal_eq (state : ℕ) : signal state = 2 * (state / 2) + 1 := by
  have hrest : (state ||| 1) / 2 = state / 2 := by simp [Nat.or_div_two]
  have hbit : (state ||| 1) % 2 = 1 := by simp
  rw [signal]
  omega

theorem clear_eq (state : ℕ) : clear state = 2 * (state / 2) := by
  rw [clear]
  omega

end PosixEvent

/-! ## The threads -/

variable {α : Type*}

/-- Where a call of `post_immediate_completion` is: before `work_started`, before
taking the mutex, in possession of it, or before `pthread_cond_signal`. -/
inductive Post (α : Type*) where
  | counting (op : α)
  | locking (op : α)
  | pushing (op : α)
  | signalling

/-- Where the worker thread is in `run`: before the test of the outstanding work,
before taking the mutex, at the head of `do_run_one`'s loop, at the head of the
loop of `wait`, inside `pthread_cond_wait` without or with a signal, inside an
operation, in `~work_cleanup`, in `stop` called from `run` or from there, or at
its end. -/
inductive Worker (α : Type*) where
  | entering
  | locking
  | deciding
  | testing
  | sleeping (signalled : Bool)
  | executing (op : α)
  | cleaning
  | stopping (inRun : Bool)
  | returned

/-- Where the life of the `Client` is: in use, in `~Client` before taking the
mutex, in possession of it, in `join`, in the destructor of the work guard, in
the destructor of the service, or over. -/
inductive Owner where
  | live
  | stopping
  | stopLocked
  | joining
  | releasing
  | shuttingDown
  | destroyed
  deriving DecidableEq

/-- Who holds the mutex. -/
inductive Holder where
  | post
  | worker
  | owner
  deriving DecidableEq

structure State (α : Type*) where
  opQueue : List α
  outstandingWork : ℤ
  stopped : Bool
  event : ℕ
  mutex : Option Holder
  posts : List (Post α)
  worker : Worker α
  owner : Owner

/-- `m_ioService{1}`; no thread runs it yet. -/
def State.service : State α where
  opQueue := []
  outstandingWork := 0
  stopped := false
  event := 0
  mutex := none
  posts := []
  worker := .returned
  owner := .live

/-- `m_work{asio::make_work_guard(m_ioService)}` -/
def State.makeWorkGuard (s : State α) : State α :=
  { s with outstandingWork := s.outstandingWork + 1 }

/-- `m_worker{[=] { m_ioService.run(); }}` -/
def State.startWorker (s : State α) : State α :=
  { s with worker := .entering }

/-- `Client::Client`: the members in the order of their declaration. -/
def State.new : State α :=
  State.service.makeWorkGuard.startWorker

/-- The worker when the condition variable is signalled. -/
def Worker.signal : Worker α → Worker α
  | sleeping _ => sleeping true
  | worker => worker

/-- `stop_all_threads` -/
def State.stopAllThreads (s : State α) : State α :=
  { s with
    stopped := true
    event := PosixEvent.signal s.event
    worker := s.worker.signal }

/-! ## Steps -/

inductive Label (α : Type*) where
  | enter (op : α)
  | push (op : α)
  | pop (op : α)
  | finish (op : α)
  | wakeup
  | close
  | stop
  | destroy (ops : List α)
  | internal

inductive Step : State α → Label α → State α → Prop
  /-- A NIF call holds a `ClientPtr`, so there is none once `~Client` runs. -/
  | enter {s : State α} {op : α} (howner : s.owner = .live) :
      Step s (.enter op) { s with posts := s.posts ++ [.counting op] }
  | workStarted {s : State α} {op : α} {before after : List (Post α)}
      (hposts : s.posts = before ++ .counting op :: after) :
      Step s .internal
        { s with
          posts := before ++ .locking op :: after
          outstandingWork := s.outstandingWork + 1 }
  | postLock {s : State α} {op : α} {before after : List (Post α)}
      (hposts : s.posts = before ++ .locking op :: after)
      (hfree : s.mutex = none) :
      Step s .internal
        { s with
          posts := before ++ .pushing op :: after
          mutex := some .post }
  /-- `maybe_unlock_and_signal_one` finds a waiter. -/
  | pushSignal {s : State α} {op : α} {before after : List (Post α)}
      (hposts : s.posts = before ++ .pushing op :: after)
      (hwaiters : PosixEvent.HasWaiters (PosixEvent.signal s.event)) :
      Step s (.push op)
        { s with
          posts := before ++ .signalling :: after
          opQueue := s.opQueue ++ [op]
          event := PosixEvent.signal s.event
          mutex := none }
  | pushOnly {s : State α} {op : α} {before after : List (Post α)}
      (hposts : s.posts = before ++ .pushing op :: after)
      (hwaiters : ¬ PosixEvent.HasWaiters (PosixEvent.signal s.event)) :
      Step s (.push op)
        { s with
          posts := before ++ after
          opQueue := s.opQueue ++ [op]
          event := PosixEvent.signal s.event
          mutex := none }
  | condSignal {s : State α} {before after : List (Post α)}
      (hposts : s.posts = before ++ .signalling :: after) :
      Step s .internal
        { s with posts := before ++ after, worker := s.worker.signal }
  | runEntry {s : State α} (hworker : s.worker = .entering)
      (hwork : s.outstandingWork ≠ 0) :
      Step s .internal { s with worker := .locking }
  | runEmpty {s : State α} (hworker : s.worker = .entering)
      (hwork : s.outstandingWork = 0) :
      Step s .internal { s with worker := .stopping true }
  | runLock {s : State α} (hworker : s.worker = .locking)
      (hfree : s.mutex = none) :
      Step s .internal { s with worker := .deciding, mutex := some .worker }
  | runReturn {s : State α} (hworker : s.worker = .deciding)
      (hstopped : s.stopped = true) :
      Step s .internal { s with worker := .returned, mutex := none }
  /-- Nobody else is woken, because the hint says that there is one thread. -/
  | pop {s : State α} {op : α} {rest : List α} (hworker : s.worker = .deciding)
      (hstopped : s.stopped = false) (hqueue : s.opQueue = op :: rest) :
      Step s (.pop op)
        { s with opQueue := rest, worker := .executing op, mutex := none }
  | clear {s : State α} (hworker : s.worker = .deciding)
      (hstopped : s.stopped = false) (hqueue : s.opQueue = []) :
      Step s .internal { s with worker := .testing, event := PosixEvent.clear s.event }
  | waitDone {s : State α} (hworker : s.worker = .testing)
      (hsignalled : PosixEvent.IsSignalled s.event) :
      Step s .internal { s with worker := .deciding }
  /-- `pthread_cond_wait` releases the mutex. -/
  | sleep {s : State α} (hworker : s.worker = .testing)
      (hsignalled : ¬ PosixEvent.IsSignalled s.event) :
      Step s .internal
        { s with
          worker := .sleeping false
          event := s.event + 2
          mutex := none }
  | wake {s : State α} (hworker : s.worker = .sleeping true)
      (hfree : s.mutex = none) :
      Step s .internal
        { s with
          worker := .testing
          event := s.event - 2
          mutex := some .worker }
  /-- A wakeup without a signal. -/
  | wakeup {s : State α} (hworker : s.worker = .sleeping false)
      (hfree : s.mutex = none) :
      Step s .wakeup
        { s with
          worker := .testing
          event := s.event - 2
          mutex := some .worker }
  | finish {s : State α} {op : α} (hworker : s.worker = .executing op) :
      Step s (.finish op) { s with worker := .cleaning }
  | workFinished {s : State α} (hworker : s.worker = .cleaning)
      (hwork : s.outstandingWork - 1 ≠ 0) :
      Step s .internal
        { s with
          worker := .locking
          outstandingWork := s.outstandingWork - 1 }
  | workExhausted {s : State α} (hworker : s.worker = .cleaning)
      (hwork : s.outstandingWork - 1 = 0) :
      Step s .internal
        { s with
          worker := .stopping false
          outstandingWork := s.outstandingWork - 1 }
  | workerStop {s : State α} {inRun : Bool}
      (hworker : s.worker = .stopping inRun) (hfree : s.mutex = none) :
      Step s .internal
        { s.stopAllThreads with
          worker := if inRun then .returned else .locking }
  /-- The last `ClientPtr` goes away outside of any call. -/
  | close {s : State α} (howner : s.owner = .live) (hposts : s.posts = []) :
      Step s .close { s with owner := .stopping }
  | stopLock {s : State α} (howner : s.owner = .stopping)
      (hfree : s.mutex = none) :
      Step s .internal { s with owner := .stopLocked, mutex := some .owner }
  | stop {s : State α} (howner : s.owner = .stopLocked) :
      Step s .stop { s.stopAllThreads with owner := .joining, mutex := none }
  | join {s : State α} (howner : s.owner = .joining)
      (hworker : s.worker = .returned) :
      Step s .internal { s with owner := .releasing }
  | release {s : State α} (howner : s.owner = .releasing)
      (hwork : s.outstandingWork - 1 ≠ 0) :
      Step s .internal
        { s with
          owner := .shuttingDown
          outstandingWork := s.outstandingWork - 1 }
  | releaseLast {s : State α} (howner : s.owner = .releasing)
      (hwork : s.outstandingWork - 1 = 0) (hfree : s.mutex = none) :
      Step s .internal
        { s.stopAllThreads with
          owner := .shuttingDown
          outstandingWork := s.outstandingWork - 1 }
  /-- `shutdown` destroys the operations that are left. -/
  | shutdown {s : State α} (howner : s.owner = .shuttingDown) :
      Step s (.destroy s.opQueue) { s with owner := .destroyed, opQueue := [] }

def machine (α : Type*) : TransitionSystem (State α) (Label α) where
  Initial s := s = State.new
  Step := Step

end Cberl.Client
