import Cberl.Connection.Create
import Cberl.Support.Ownership

/-!
# Who owns a libcouchbase instance

Worker threads construct and drop `Connection` objects.  `lcb_create` gives the
constructor an instance; a constructor that returns leaves it to the object,
which lives as long as some `shared_ptr` counts for it, and the last one to go
runs `~Connection`.  C++ runs no destructor for an object whose constructor
threw, so the instance of a connect that fails after `lcb_create` stays behind.
-/

namespace Cberl.Ownership

open Cberl Cberl.Support Cberl.Support.CallProgram

abbrev WorkerId := ℕ
abbrev InstanceId := ℕ

/-- What is left of a constructor. -/
abbrev Rest := CallProgram LcbCall LcbStatus (Except LcbError Unit)

/-- A worker thread: between handlers, or inside the constructor of a connect,
with `m_instance` once `lcb_create` has set it. -/
inductive WorkerState where
  | idle
  | constructing (m_instance : Option InstanceId) (rest : Rest)

/-- The instance of the object under construction. -/
def WorkerState.m_instance : WorkerState → Option InstanceId
  | idle => none
  | constructing m_instance _ => m_instance

/-- `owners` is the use count of the `Connection` object that holds an
instance, zero when there is no such object. -/
structure State where
  worker : WorkerId → WorkerState
  owners : InstanceId → ℕ
  /-- The identity of the next instance. -/
  next : InstanceId
  destroyed : List InstanceId

inductive Event where
  | began (w : WorkerId) (request : ConnectRequest)
  /-- A successful `lcb_create`. -/
  | created (w : WorkerId) (i : InstanceId)
  | called (w : WorkerId) (call : LcbCall) (status : LcbStatus)
  | constructed (w : WorkerId) (i : InstanceId)
  | threw (w : WorkerId) (m_instance : Option InstanceId) (err : LcbError)
  /-- A `ConnectionPtr` is copied: into a response, a resource or a handler. -/
  | copied (i : InstanceId)
  | dropped (i : InstanceId)
  /-- The last `ConnectionPtr` is dropped, and `~Connection` calls
  `lcb_destroy`. -/
  | destroyed (i : InstanceId)

open Function in
inductive Step : State → Event → State → Prop
  | began {s : State} {w : WorkerId} {request : ConnectRequest}
      (hworker : s.worker w = .idle) :
      Step s (.began w request)
        { s with
          worker := update s.worker w
            (.constructing none (Connection.construct request).run) }
  | created {s : State} {w : WorkerId} {opts : CreateOpts}
      {next : LcbStatus → Rest}
      (hworker : s.worker w = .constructing none (.call (.create opts) next)) :
      Step s (.created w s.next)
        { s with
          worker := update s.worker w (.constructing (some s.next) (next none))
          next := s.next + 1 }
  | createFailed {s : State} {w : WorkerId} {opts : CreateOpts}
      {next : LcbStatus → Rest} {err : LcbError}
      (hworker : s.worker w = .constructing none (.call (.create opts) next)) :
      Step s (.called w (.create opts) (some err))
        { s with
          worker := update s.worker w (.constructing none (next (some err))) }
  | called {s : State} {w : WorkerId} {i : InstanceId} {call : LcbCall}
      {next : LcbStatus → Rest} {status : LcbStatus}
      (hworker : s.worker w = .constructing (some i) (.call call next)) :
      Step s (.called w call status)
        { s with
          worker := update s.worker w (.constructing (some i) (next status)) }
  | constructed {s : State} {w : WorkerId} {i : InstanceId}
      (hworker : s.worker w = .constructing (some i) (.done (.ok ()))) :
      Step s (.constructed w i)
        { s with
          worker := update s.worker w .idle
          owners := update s.owners i 1 }
  /-- `Client::connect` catches the exception; no destructor runs. -/
  | threw {s : State} {w : WorkerId} {m_instance : Option InstanceId}
      {err : LcbError}
      (hworker : s.worker w = .constructing m_instance (.done (.error err))) :
      Step s (.threw w m_instance err)
        { s with worker := update s.worker w .idle }
  | copied {s : State} {i : InstanceId} (howners : 0 < s.owners i) :
      Step s (.copied i) { s with owners := update s.owners i (s.owners i + 1) }
  | dropped {s : State} {i : InstanceId} (howners : 1 < s.owners i) :
      Step s (.dropped i) { s with owners := update s.owners i (s.owners i - 1) }
  | destroyed {s : State} {i : InstanceId} (howners : s.owners i = 1) :
      Step s (.destroyed i)
        { s with
          owners := update s.owners i 0
          destroyed := s.destroyed ++ [i] }

structure Initial (s : State) : Prop where
  worker : ∀ w, s.worker w = .idle
  owners : ∀ i, s.owners i = 0
  next : s.next = 0
  destroyed : s.destroyed = []

def machine : TransitionSystem State Event where
  Initial := Initial
  Step := Step

/-- Created by a successful `lcb_create` and not yet passed to `lcb_destroy`. -/
def Held (s : State) (i : InstanceId) : Prop :=
  i < s.next ∧ i ∉ s.destroyed

/-- What can own an instance. -/
inductive Owner where
  | constructor (w : WorkerId)
  | object

def Owns (s : State) : Owner → InstanceId → Prop
  | .constructor w, i => (s.worker w).m_instance = some i
  | .object, i => 0 < s.owners i

/-- Owned by a live `Connection` object or by a constructor still running. -/
def Owned (s : State) (i : InstanceId) : Prop :=
  ∃ o, Owns s o i

/-- The instance an event leaves without an owner. -/
def Event.lost : Event → Option InstanceId
  | .threw _ m_instance _ => m_instance
  | _ => none

/-! ## The account the machine keeps -/

/-- What an event does to the owners of the instances. -/
def Event.dealing : Event → Dealing Owner InstanceId
  | .created w i => .acquired (.constructor w) i
  | .constructed _ i => .passed i .object
  | .threw _ (some i) _ => .abandoned i
  | .destroyed i => .released i
  | _ => .idle

theorem Event.abandonedResource_dealing (event : Event) :
    event.dealing.abandonedResource = event.lost := by
  cases event with
  | threw w m_instance err => cases m_instance <;> rfl
  | _ => rfl

/-- A state and the account of its instances. -/
structure Accounts (s : State) (a : Account Owner InstanceId) : Prop where
  owner : ∀ o i, Owns s o i ↔ a.owner i = some o
  acquired : ∀ i, i ∈ a.acquired ↔ i < s.next
  released : a.released = s.destroyed
  bounded : ∀ o i, Owns s o i → i < s.next

theorem m_instance_update (s : State) (w w' : WorkerId) (state : WorkerState) :
    (Function.update s.worker w state w').m_instance =
      if w' = w then state.m_instance else (s.worker w').m_instance := by
  by_cases hw : w' = w
  · simp [hw]
  · simp [hw]

section Frame

variable {s s' : State} {a : Account Owner InstanceId}

/-- A step that touches no owner leaves the account alone. -/
theorem Accounts.congr (h : Accounts s a)
    (howns : ∀ o i, Owns s' o i ↔ Owns s o i) (hnext : s'.next = s.next)
    (hdestroyed : s'.destroyed = s.destroyed) : Accounts s' a := by
  constructor
  · intro o i
    rw [howns, h.owner]
  · intro i
    rw [h.acquired, hnext]
  · rw [h.released, hdestroyed]
  · intro o i hi
    rw [hnext]
    exact h.bounded o i ((howns o i).mp hi)

/-- A constructor that goes on keeps its instance. -/
theorem owns_of_same_instance {w : WorkerId} {state : WorkerState}
    (h : state.m_instance = (s.worker w).m_instance) (o : Owner) (i : InstanceId) :
    Owns { s with worker := Function.update s.worker w state } o i ↔
      Owns s o i := by
  cases o with
  | object => exact Iff.rfl
  | constructor w' =>
      simp only [Owns, m_instance_update]
      by_cases hw : w' = w
      · rw [if_pos hw, h, hw]
      · rw [if_neg hw]

end Frame

/-- A worker that leaves its constructor owns nothing. -/
theorem owns_idle_iff {s : State} {w : WorkerId} (o : Owner) (i : InstanceId) :
    Owns { s with worker := Function.update s.worker w .idle } o i ↔
      o ≠ .constructor w ∧ Owns s o i := by
  cases o with
  | object => simp [Owns]
  | constructor w' =>
      simp only [Owns, m_instance_update, ne_eq, Owner.constructor.injEq]
      by_cases hw : w' = w
      · simp [hw, WorkerState.m_instance]
      · simp [hw]

/-- A use count that stays positive, or stays zero, leaves the owners alone. -/
theorem owns_of_same_sign {s : State} {i : InstanceId} {n : ℕ}
    (h : 0 < n ↔ 0 < s.owners i) (o : Owner) (j : InstanceId) :
    Owns { s with owners := Function.update s.owners i n } o j ↔ Owns s o j := by
  cases o with
  | constructor w => exact Iff.rfl
  | object =>
      by_cases hj : j = i
      · subst hj
        simpa [Owns] using h
      · simp [Owns, hj]

section Updates

variable {s s' : State} {a : Account Owner InstanceId} {i : InstanceId}

theorem Accounts.unique (ha : Accounts s a) {o o' : Owner}
    (h : Owns s o i) (h' : Owns s o' i) : o = o' := by
  rw [ha.owner] at h h'
  exact Option.some.inj (h.symm.trans h')

/-- The instance `i` gets the owner `o₀`. -/
theorem Accounts.owner_update_some (ha : Accounts s a) {o₀ : Owner}
    (howns : ∀ o j, Owns s' o j ↔ if j = i then o = o₀ else Owns s o j)
    (o : Owner) (j : InstanceId) :
    Owns s' o j ↔ Function.update a.owner i (some o₀) j = some o := by
  rw [howns]
  by_cases hj : j = i
  · simp [hj, eq_comm]
  · simp [hj, ha.owner]

/-- The instance `i` loses its owner. -/
theorem Accounts.owner_update_none (ha : Accounts s a)
    (howns : ∀ o j, Owns s' o j ↔ j ≠ i ∧ Owns s o j)
    (o : Owner) (j : InstanceId) :
    Owns s' o j ↔ Function.update a.owner i none j = some o := by
  rw [howns]
  by_cases hj : j = i
  · simp [hj]
  · simp [hj, ha.owner]

end Updates

/-! ## What each step does to the owners -/

section Owners

variable {s : State} {a : Account Owner InstanceId} {w : WorkerId}
  {i : InstanceId} {rest : Rest}

theorem Accounts.owns_created (ha : Accounts s a) (hworker : s.worker w =
      .constructing none rest) (rest' : Rest) (o : Owner) (j : InstanceId) :
    Owns
        { s with
          worker := Function.update s.worker w (.constructing (some s.next) rest')
          next := s.next + 1 } o j ↔
      if j = s.next then o = .constructor w else Owns s o j := by
  have hfresh : ∀ o, ¬ Owns s o s.next :=
    fun o ho => (ha.bounded o s.next ho).false
  cases o with
  | object =>
      by_cases hj : j = s.next
      · subst hj
        rw [if_pos rfl]
        exact iff_of_false (hfresh .object) (by simp)
      · rw [if_neg hj]
        exact Iff.rfl
  | constructor w' =>
      simp only [Owns, m_instance_update, Owner.constructor.injEq]
      by_cases hw : w' = w
      · subst hw
        by_cases hj : j = s.next
        · simp [hj, WorkerState.m_instance]
        · simp [hj, Ne.symm hj, hworker, WorkerState.m_instance]
      · by_cases hj : j = s.next
        · subst hj
          rw [if_neg hw, if_pos rfl]
          exact iff_of_false (hfresh (.constructor w')) hw
        · simp [hw, hj]

theorem Accounts.owns_constructed (ha : Accounts s a) (hworker : s.worker w =
      .constructing (some i) rest) (o : Owner) (j : InstanceId) :
    Owns
        { s with
          worker := Function.update s.worker w .idle
          owners := Function.update s.owners i 1 } o j ↔
      if j = i then o = .object else Owns s o j := by
  have hown : Owns s (.constructor w) i := by
    simp [Owns, hworker, WorkerState.m_instance]
  cases o with
  | object =>
      by_cases hj : j = i
      · simp [Owns, hj]
      · simp [Owns, hj]
  | constructor w' =>
      have hidle := owns_idle_iff (s := s) (w := w) (.constructor w') j
      by_cases hj : j = i
      · subst hj
        have hnot : ¬ (Owner.constructor w' ≠ .constructor w ∧
            Owns s (.constructor w') j) :=
          fun ⟨hne, howns⟩ => hne (ha.unique howns hown)
        rw [if_pos rfl]
        exact iff_of_false (fun howns => hnot (hidle.mp howns)) (by simp)
      · rw [if_neg hj]
        refine hidle.trans (and_iff_right_of_imp ?_)
        rintro howns heq
        rw [heq, Owns, hworker] at howns
        exact hj (Option.some.inj howns).symm

theorem Accounts.owns_threw (ha : Accounts s a) (hworker : s.worker w =
      .constructing (some i) rest) (o : Owner) (j : InstanceId) :
    Owns { s with worker := Function.update s.worker w .idle } o j ↔
      j ≠ i ∧ Owns s o j := by
  have hown : Owns s (.constructor w) i := by
    simp [Owns, hworker, WorkerState.m_instance]
  rw [owns_idle_iff]
  constructor
  · rintro ⟨hne, howns⟩
    refine ⟨?_, howns⟩
    rintro rfl
    exact hne (ha.unique howns hown)
  · rintro ⟨hj, howns⟩
    refine ⟨?_, howns⟩
    rintro rfl
    rw [Owns, hworker] at howns
    exact hj (Option.some.inj howns).symm

theorem Accounts.owns_destroyed (ha : Accounts s a) (howners : s.owners i = 1)
    (o : Owner) (j : InstanceId) :
    Owns
        { s with
          owners := Function.update s.owners i 0
          destroyed := s.destroyed ++ [i] } o j ↔
      j ≠ i ∧ Owns s o j := by
  have hown : Owns s .object i := by simp [Owns, howners]
  cases o with
  | object =>
      by_cases hj : j = i
      · simp [Owns, hj]
      · simp [Owns, hj]
  | constructor w =>
      change Owns s (.constructor w) j ↔ j ≠ i ∧ Owns s (.constructor w) j
      refine (and_iff_right_of_imp fun howns => ?_).symm
      rintro rfl
      cases ha.unique howns hown

end Owners

/-- Every step is a dealing of the account. -/
theorem Step.accounts {s s' : State} {event : Event}
    {a : Account Owner InstanceId} (h : Step s event s') (ha : Accounts s a) :
    ∃ a', Account.Step a event.dealing a' ∧ Accounts s' a' := by
  cases h with
  | began hworker =>
      refine ⟨a, .idle, ha.congr (owns_of_same_instance ?_) rfl rfl⟩
      rw [hworker]
      rfl
  | @created w opts next hworker =>
      have howns := ha.owns_created hworker (next none)
      refine ⟨_, .acquired fun hmem => ((ha.acquired _).mp hmem).false,
        ha.owner_update_some howns, ?_, ha.released, ?_⟩
      · intro i
        rw [List.mem_append, List.mem_singleton, ha.acquired]
        exact Nat.lt_succ_iff_lt_or_eq.symm
      · intro o i hi
        apply Nat.lt_succ_iff_lt_or_eq.mpr
        rw [howns] at hi
        by_cases hnew : i = s.next
        · exact Or.inr hnew
        · rw [if_neg hnew] at hi
          exact Or.inl (ha.bounded o i hi)
  | createFailed hworker =>
      refine ⟨a, .idle, ha.congr (owns_of_same_instance ?_) rfl rfl⟩
      rw [hworker]
      rfl
  | called hworker =>
      refine ⟨a, .idle, ha.congr (owns_of_same_instance ?_) rfl rfl⟩
      rw [hworker]
      rfl
  | @constructed w i hworker =>
      have hown : Owns s (.constructor w) i := by
        simp [Owns, hworker, WorkerState.m_instance]
      have howns := ha.owns_constructed hworker
      refine ⟨_, .passed ⟨_, (ha.owner _ i).mp hown⟩,
        ha.owner_update_some howns, ha.acquired, ha.released, ?_⟩
      intro o j hj
      rw [howns] at hj
      by_cases hji : j = i
      · rw [hji]
        exact ha.bounded _ i hown
      · rw [if_neg hji] at hj
        exact ha.bounded o j hj
  | @threw w m_instance err hworker =>
      cases m_instance with
      | none =>
          refine ⟨a, .idle, ha.congr (owns_of_same_instance ?_) rfl rfl⟩
          rw [hworker]
          rfl
      | some i =>
          have hown : Owns s (.constructor w) i := by
            simp [Owns, hworker, WorkerState.m_instance]
          have howns := ha.owns_threw hworker
          exact ⟨_, .abandoned ⟨_, (ha.owner _ i).mp hown⟩,
            ha.owner_update_none howns, ha.acquired, ha.released,
            fun o j hj => ha.bounded o j ((howns o j).mp hj).2⟩
  | copied howners =>
      exact ⟨a, .idle, ha.congr (owns_of_same_sign (by omega)) rfl rfl⟩
  | dropped howners =>
      exact ⟨a, .idle, ha.congr (owns_of_same_sign (by omega)) rfl rfl⟩
  | @destroyed i howners =>
      have hown : Owns s .object i := by simp [Owns, howners]
      have howns := ha.owns_destroyed howners
      exact ⟨_, .released ⟨_, (ha.owner _ i).mp hown⟩,
        ha.owner_update_none howns, ha.acquired,
        congrArg (· ++ [i]) ha.released,
        fun o j hj => ha.bounded o j ((howns o j).mp hj).2⟩

/-! ## Runs -/

section Runs

variable {trace : List Event} {s : State}

theorem Initial.not_owns (hs : Initial s) (o : Owner) (i : InstanceId) :
    ¬ Owns s o i := by
  cases o with
  | constructor w => simp [Owns, hs.worker, WorkerState.m_instance]
  | object => simp [Owns, hs.owners]

/-- Every run keeps a balanced account in which what was abandoned is what the
failed connects left behind. -/
theorem exists_account (hrun : Run machine trace s) :
    ∃ a, Account.Balanced (trace.filterMap Event.lost) a ∧ Accounts s a := by
  have hinit : ∀ s, machine.Initial s →
      ∃ a, Account.ledger.Initial a ∧ Accounts s a := by
    intro s hs
    refine ⟨⟨fun _ => none, [], []⟩, ⟨fun _ => rfl, rfl, rfl⟩, ?_⟩
    constructor <;> simp [hs.not_owns, hs.next, hs.destroyed]
  obtain ⟨a, hledger, ha⟩ := hrun.simulate Account.ledger Event.dealing Accounts
    hinit fun _ _ _ _ hstep ha => Step.accounts hstep ha
  have hbalanced := Account.balanced_of_run hledger
  rw [List.filterMap_map] at hbalanced
  have hlost : Dealing.abandonedResource ∘ Event.dealing = Event.lost :=
    funext Event.abandonedResource_dealing
  rw [hlost] at hbalanced
  exact ⟨a, hbalanced, ha⟩

theorem Accounts.held_iff {a : Account Owner InstanceId} (ha : Accounts s a)
    (i : InstanceId) : a.Held i ↔ Held s i := by
  rw [Account.Held, ha.acquired, ha.released, Held]

theorem Accounts.owned_iff {a : Account Owner InstanceId} (ha : Accounts s a)
    (i : InstanceId) : a.Owned i ↔ Owned s i :=
  exists_congr fun o => (ha.owner o i).symm

/-- The instances held are the owned ones and those that failed connects left
behind. -/
theorem held_iff (hrun : Run machine trace s) (i : InstanceId) :
    Held s i ↔ Owned s i ∨ i ∈ trace.filterMap Event.lost := by
  obtain ⟨a, hbalanced, ha⟩ := exists_account hrun
  rw [← ha.held_iff, ← ha.owned_iff]
  exact hbalanced.held_iff i

/-- What a failed connect left behind is never owned again. -/
theorem not_owned_of_lost (hrun : Run machine trace s) {i : InstanceId}
    (hlost : i ∈ trace.filterMap Event.lost) : ¬ Owned s i := by
  obtain ⟨a, hbalanced, ha⟩ := exists_account hrun
  rw [← ha.owned_iff]
  exact fun howned => hbalanced.owned_not_abandoned i howned hlost

/-- No instance is destroyed twice. -/
theorem destroyed_nodup (hrun : Run machine trace s) : s.destroyed.Nodup := by
  obtain ⟨a, hbalanced, ha⟩ := exists_account hrun
  rw [← ha.released]
  exact hbalanced.released_nodup

/-- The trace tells which instances are held. -/
theorem held_iff_mem (hrun : Run machine trace s) (i : InstanceId) :
    Held s i ↔ (∃ w, .created w i ∈ trace) ∧ .destroyed i ∉ trace := by
  have hlaw : ((∃ w, .created w i ∈ trace) ↔ i < s.next) ∧
      (.destroyed i ∈ trace ↔ i ∈ s.destroyed) := by
    refine hrun.invariant (P := fun trace s =>
      ((∃ w, .created w i ∈ trace) ↔ i < s.next) ∧
        (.destroyed i ∈ trace ↔ i ∈ s.destroyed)) ?_ ?_
    · intro s hs
      simp [hs.next, hs.destroyed]
    · rintro trace s event s' - ⟨hcreated, hdestroyed⟩ hstep
      cases hstep with
      | created hworker =>
          simp only [List.mem_append, List.mem_singleton, Event.created.injEq,
            exists_or, hcreated, hdestroyed]
          constructor
          · constructor
            · rintro (hi | ⟨w', rfl, rfl⟩)
              · exact Nat.lt_succ_of_lt hi
              · exact Nat.lt_succ_self _
            · intro hi
              rcases Nat.lt_succ_iff_lt_or_eq.mp hi with hi | hi
              · exact Or.inl hi
              · exact Or.inr ⟨_, rfl, hi⟩
          · simp
      | destroyed howners =>
          simp [hcreated, hdestroyed]
      | _ => simpa using ⟨hcreated, hdestroyed⟩
  rw [Held, hlaw.1, hlaw.2]

end Runs

end Cberl.Ownership
