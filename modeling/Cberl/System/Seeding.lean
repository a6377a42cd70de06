import Cberl.Nif.RequestIds
import Cberl.System.Correlation

/-!
# Ids from seeded engines

The scheduler threads that run the NIFs draw their ids from engines of their
own, each seeded by its own `random_device`.  An id gives away the output of the
engine that was read last for it, so ids differ as long as no engine reads last
for an id what another engine, or itself a period earlier, has read last for one.
-/

namespace Cberl.System

open Cberl Cberl.Support

abbrev Thread := ℕ

section Runs

variable [LcbTypes]

/-! ## The seeded system -/

/-- The id that `NifCTX` draws in this step: it does so before the NIF looks at
the rest of its arguments. -/
def Event.issues : Event → Option RequestId
  | .accepted _ _ job => some job.ctx.reqId
  | .crashed _ _ id => some id
  | _ => none

/-- The system, and how many outputs each thread's engine has produced. -/
structure SeededState where
  base : State
  position : Thread → ℕ

/-- A step of the seeded system; `k` is where it leaves the engine of `t`. -/
inductive SeededEvent where
  | connected (t : Thread) (k : ℕ) (id : RequestId)
  | handled (t : Thread) (k : ℕ) (event : Event)
  | quiet (event : Event)

namespace SeededEvent

/-- The step of the system itself. -/
def event : SeededEvent → Option Event
  | connected _ _ _ => none
  | handled _ _ event => some event
  | quiet event => some event

def issues : SeededEvent → Option RequestId
  | connected _ _ id => some id
  | handled _ _ event => event.issues
  | quiet event => event.issues

/-- The engine an id is drawn from, and the output it reads last. -/
def lastRead : SeededEvent → Option (Thread × ℕ)
  | connected t k _ => some (t, k - 1)
  | handled t k _ => some (t, k - 1)
  | quiet _ => none

end SeededEvent

/-- Any thread may run any NIF call.  `connect_nif` draws an id as well, for
the process that opens a connection. -/
inductive SeededStep (seeds : Thread → ℕ) (order : Equiv.Perm (Fin 3)) :
    SeededState → SeededEvent → SeededState → Prop
  | connected {s : SeededState} {t : Thread} {k : ℕ} {id : RequestId}
      (hissues : Issues (output (seeds t)) order (s.position t) id k) :
      SeededStep seeds order s (.connected t k id)
        { s with position := Function.update s.position t k }
  | handled {s : SeededState} {base : State} {t : Thread} {k : ℕ}
      {id : RequestId} {event : Event}
      (hstep : Step s.base event base) (hid : event.issues = some id)
      (hissues : Issues (output (seeds t)) order (s.position t) id k) :
      SeededStep seeds order s (.handled t k event)
        { base, position := Function.update s.position t k }
  | quiet {s : SeededState} {base : State} {event : Event}
      (hstep : Step s.base event base) (hid : event.issues = none) :
      SeededStep seeds order s (.quiet event) { s with base }

structure SeededInitial (s : SeededState) : Prop where
  base : Initial s.base
  position : ∀ t, s.position t = 0

def seededMachine (seeds : Thread → ℕ) (order : Equiv.Perm (Fin 3)) :
    TransitionSystem SeededState SeededEvent where
  Initial := SeededInitial
  Step := SeededStep seeds order

/-- The outputs that are read last for ids do not coincide: no engine has gone
through more than one period, and no two threads read the same one. -/
structure Apart (seeds : Thread → ℕ) (trace : List SeededEvent) : Prop where
  short : ∀ {t i}, (t, i) ∈ trace.filterMap SeededEvent.lastRead →
    i < 2147483646
  disjoint : ∀ {t t' i j}, (t, i) ∈ trace.filterMap SeededEvent.lastRead →
    (t', j) ∈ trace.filterMap SeededEvent.lastRead → t ≠ t' →
    output (seeds t) i ≠ output (seeds t') j

variable {seeds : Thread → ℕ} {order : Equiv.Perm (Fin 3)}
  {trace : List SeededEvent} {s s' : SeededState} {label : SeededEvent}

/-- A run of the seeded system is a run of the system. -/
theorem base_run (hrun : Run (seededMachine seeds order) trace s) :
    Run machine (trace.filterMap SeededEvent.event) s.base := by
  refine @Run.invariant _ _ (seededMachine seeds order)
    (fun trace s => Run machine (trace.filterMap SeededEvent.event) s.base)
    ?_ ?_ _ _ hrun
  · intro s hs
    exact .start hs.base
  · intro trace s label s' _ ih hstep
    rw [List.filterMap_append]
    cases hstep with
    | connected hissues => simpa [SeededEvent.event] using ih
    | handled hstep hid hissues => exact ih.step hstep
    | quiet hstep hid => exact ih.step hstep

/-! ## What an id gives away -/

/-- A step leaves every engine alone, or it draws one id on one thread. -/
theorem SeededStep.draws (hstep : SeededStep seeds order s label s') :
    (label.issues = none ∧ label.lastRead = none ∧ s'.position = s.position) ∨
      ∃ t k id, label.issues = some id ∧ label.lastRead = some (t, k - 1) ∧
        s'.position = Function.update s.position t k ∧
        Issues (output (seeds t)) order (s.position t) id k := by
  cases hstep with
  | connected hissues => exact Or.inr ⟨_, _, _, rfl, rfl, rfl, hissues⟩
  | handled hstep hid hissues => exact Or.inr ⟨_, _, _, hid, rfl, rfl, hissues⟩
  | quiet hstep hid => exact Or.inl ⟨hid, rfl, rfl⟩

theorem SeededStep.position_le (hstep : SeededStep seeds order s label s')
    (t : Thread) : s.position t ≤ s'.position t := by
  rcases hstep.draws with
    ⟨-, -, hposition⟩ | ⟨t', k, id, -, -, hposition, hissues⟩
  · rw [hposition]
  · rw [hposition]
    by_cases ht : t = t'
    · subst ht
      rw [Function.update_self]
      exact (hissues.last (output_mem_Ioo _)).1.le
    · rw [Function.update_of_ne ht]

/-- An engine is past what it has read. -/
theorem lt_position_of_lastRead (hrun : Run (seededMachine seeds order) trace s)
    {t : Thread} {i : ℕ} (hread : (t, i) ∈ trace.filterMap SeededEvent.lastRead) :
    i < s.position t := by
  revert hread
  refine @Run.invariant _ _ (seededMachine seeds order)
    (fun trace s => (t, i) ∈ trace.filterMap SeededEvent.lastRead →
      i < s.position t) ?_ ?_ _ _ hrun
  · intro s hs hread
    cases hread
  · intro trace s label s' _ ih hstep hread
    rw [List.filterMap_append, List.mem_append] at hread
    rcases hread with hold | hnew
    · exact (ih hold).trans_le (SeededStep.position_le hstep t)
    · rcases SeededStep.draws hstep with
        ⟨-, hnone, -⟩ | ⟨t', k, id, -, hsome, hposition, hissues⟩
      · simp [hnone] at hnew
      · obtain ⟨rfl, rfl⟩ : t = t' ∧ i = k - 1 := by simpa [hsome] using hnew
        have hk := (hissues.last (output_mem_Ioo _)).1
        rw [hposition, Function.update_self]
        omega

/-- An id gives away an output that was read last for an id. -/
theorem exists_lastRead_of_issued (hrun : Run (seededMachine seeds order) trace s)
    {id : RequestId} (hid : id ∈ trace.filterMap SeededEvent.issues) :
    ∃ t i, (t, i) ∈ trace.filterMap SeededEvent.lastRead ∧
      output (seeds t) i = lastOutput (lastDrawn order id).toNat := by
  revert hid
  refine @Run.invariant _ _ (seededMachine seeds order)
    (fun trace _ => id ∈ trace.filterMap SeededEvent.issues →
      ∃ t i, (t, i) ∈ trace.filterMap SeededEvent.lastRead ∧
        output (seeds t) i = lastOutput (lastDrawn order id).toNat)
    ?_ ?_ _ _ hrun
  · intro s hs hid
    cases hid
  · intro trace s label s' _ ih hstep hid
    rw [List.filterMap_append, List.mem_append] at hid
    rw [List.filterMap_append]
    rcases hid with hold | hnew
    · obtain ⟨t, i, hread, hout⟩ := ih hold
      exact ⟨t, i, List.mem_append_left _ hread, hout⟩
    · rcases SeededStep.draws hstep with
        ⟨hnone, -, -⟩ | ⟨t, k, id', hsome, hread, -, hissues⟩
      · simp [hnone] at hnew
      · obtain rfl : id = id' := by simpa [hsome] using hnew
        have hout := (hissues.last (output_mem_Ioo _)).2
        exact ⟨t, k - 1, List.mem_append_right _ (by simp [hread]), hout⟩

theorem lastRead_append {trace₁ trace₂ : List SeededEvent} {read : Thread × ℕ}
    (h : read ∈ trace₁.filterMap SeededEvent.lastRead) :
    read ∈ (trace₁ ++ trace₂).filterMap SeededEvent.lastRead := by
  rw [List.filterMap_append]
  exact List.mem_append_left _ h

theorem Apart.of_append {trace₁ trace₂ : List SeededEvent}
    (h : Apart seeds (trace₁ ++ trace₂)) : Apart seeds trace₁ where
  short hread := h.short (lastRead_append hread)
  disjoint hread hread' :=
    h.disjoint (lastRead_append hread) (lastRead_append hread')

theorem Apart.eq_of_output_eq (h : Apart seeds trace) {t t' : Thread} {i j : ℕ}
    (hi : (t, i) ∈ trace.filterMap SeededEvent.lastRead)
    (hj : (t', j) ∈ trace.filterMap SeededEvent.lastRead)
    (hout : output (seeds t) i = output (seeds t') j) : t = t' ∧ i = j := by
  by_cases ht : t = t'
  · subst ht
    exact ⟨rfl, output_injOn (seeds t) (h.short hi) (h.short hj) hout⟩
  · exact absurd hout (h.disjoint hi hj ht)

/-! ## Freshness -/

/-- No id is issued twice. -/
theorem issued_nodup (hrun : Run (seededMachine seeds order) trace s)
    (hapart : Apart seeds trace) :
    (trace.filterMap SeededEvent.issues).Nodup := by
  revert hapart
  refine @Run.invariant _ _ (seededMachine seeds order)
    (fun trace _ => Apart seeds trace →
      (trace.filterMap SeededEvent.issues).Nodup) ?_ ?_ _ _ hrun
  · intro s hs _
    exact List.nodup_nil
  · intro trace s label s' hrun ih hstep hapart
    apply nodup_filterMap_concat (ih hapart.of_append)
    intro id hnew hold
    obtain ⟨t', i, hread, hout'⟩ := exists_lastRead_of_issued hrun hold
    rcases SeededStep.draws hstep with
      ⟨hnone, -, -⟩ | ⟨t, k, id', hsome, hread', -, hissues⟩
    · rw [hnone] at hnew
      cases hnew
    · obtain rfl : id' = id := Option.some.inj (hsome.symm.trans hnew)
      obtain ⟨hk, hout⟩ := hissues.last (output_mem_Ioo _)
      -- the engine of `t` has only now reached the output of the old id
      have hbehind := lt_position_of_lastRead hrun hread
      obtain ⟨rfl, rfl⟩ := hapart.eq_of_output_eq
        (lastRead_append hread) (by simp [hread']) (hout'.trans hout.symm)
      omega

theorem idsDistinct_of_apart (hrun : Run (seededMachine seeds order) trace s)
    (hapart : Apart seeds trace) :
    IdsDistinct (trace.filterMap SeededEvent.event) := by
  intro p
  apply List.Nodup.sublist _ (issued_nodup hrun hapart)
  rw [List.filterMap_filterMap]
  apply filterMap_sublist_of_imp
  intro label _ id h
  obtain ⟨event, hevent, hissued⟩ := Option.bind_eq_some_iff.mp h
  have hissues : event.issues = some id := by
    cases event with
    | accepted v cast job =>
        simp only [issuedTo, Option.ite_none_right_eq_some] at hissued
        exact hissued.2
    | _ => cases hissued
  cases label with
  | connected t k id' => cases hevent
  | handled t k event' =>
      obtain rfl := Option.some.inj hevent
      exact hissues
  | quiet event' =>
      obtain rfl := Option.some.inj hevent
      exact hissues

/-- Ids name calls: none is issued twice, whatever became of the calls it was
issued for, and a call that returns a response returns its own. -/
structure Fresh (trace : List SeededEvent) : Prop where
  distinct : (trace.filterMap SeededEvent.issues).Nodup
  answered : ∀ {p ref id tag body},
    .returned p ref id tag body ∈ trace.filterMap SeededEvent.event → tag = ref

/-- For every number of threads, every seeds, every assignment of the NIF calls
to threads and every run: ids are fresh while the engines stay apart. -/
theorem fresh_of_apart (hrun : Run (seededMachine seeds order) trace s)
    (hapart : Apart seeds trace) : Fresh trace where
  distinct := issued_nodup hrun hapart
  answered h :=
    (answered_of_returned (base_run hrun)
      (idsDistinct_of_apart hrun hapart _) h).1

/-! ## Two threads with one seed -/

/-- The first id drawn from an engine seeded with 1. -/
def twinId : RequestId := (282475248, 1457850877, 1115438164)

def twinJob : Job :=
  { ctx := { reqPid := 0, reqId := twinId }
    connection := 0
    operation := .remove [] }

/-- The first call of process 0 is handled on thread 0 and times out.  The
second is handled on thread 1, draws the same id, and returns the response of
the first before its own request is executed. -/
def twinTrace : List SeededEvent :=
  [.quiet (.called 0 0 1 (staleCast 1).request),
    .quiet (.arrived 0 0 (staleCast 1)),
    .handled 0 12 (.accepted 0 (staleCast 1) twinJob),
    .quiet (.timedOut 0 1),
    .quiet (.started 0 1 twinJob),
    .quiet (.executed 0 1 twinJob emptyReply),
    .quiet (.responded 0 1 twinJob emptyReply),
    .quiet (.delivered 0 (.response twinId emptyReply 1)),
    .quiet (.called 0 0 2 (staleCast 2).request),
    .quiet (.arrived 0 0 (staleCast 2)),
    .handled 1 12 (.accepted 0 (staleCast 2) twinJob),
    .quiet (.delivered 0 (.accepted 2 twinId)),
    .quiet (.resumed 0 2 twinId),
    .quiet (.returned 0 2 twinId 1 emptyReply)]

def seededQuiet : SeededState where
  base := quietState
  position _ := 0

/-- The machine whose engines are all seeded with 1. -/
def twinMachine : TransitionSystem SeededState SeededEvent :=
  seededMachine (fun _ => 1) (Equiv.refl _)

omit [LcbTypes] in
theorem twinId_issued : Issues (output 1) (Equiv.refl _) 0 twinId 12 :=
  ⟨4, rfl⟩

theorem twinRun : ∃ s, Run twinMachine twinTrace s := by
  have h₀ : Run twinMachine [] seededQuiet :=
    .start ⟨initial_quietState, fun _ => rfl⟩
  have h₁ : Run twinMachine (twinTrace.take 1) _ :=
    h₀.step (SeededStep.quiet (.called rfl) rfl)
  have h₂ : Run twinMachine (twinTrace.take 2) _ :=
    h₁.step (SeededStep.quiet (.arrived rfl rfl) rfl)
  have h₃ : Run twinMachine (twinTrace.take 3) _ :=
    h₂.step (SeededStep.handled (.accepted rfl rfl rfl) rfl twinId_issued)
  have h₄ : Run twinMachine (twinTrace.take 4) _ :=
    h₃.step (SeededStep.quiet (.refTimedOut rfl rfl) rfl)
  have h₅ : Run twinMachine (twinTrace.take 5) _ :=
    h₄.step (SeededStep.quiet (.started rfl rfl) rfl)
  have h₆ : Run twinMachine (twinTrace.take 6) _ :=
    h₅.step (SeededStep.quiet (.executed Lcb.silent rfl) rfl)
  have h₇ : Run twinMachine (twinTrace.take 7) _ :=
    h₆.step (SeededStep.quiet (.responded rfl) rfl)
  have h₈ : Run twinMachine (twinTrace.take 8) _ :=
    h₇.step (SeededStep.quiet (@Step.delivered _ _ _ _ [_] [] rfl) rfl)
  have h₉ : Run twinMachine (twinTrace.take 9) _ :=
    h₈.step (SeededStep.quiet (.called rfl) rfl)
  have h₁₀ : Run twinMachine (twinTrace.take 10) _ :=
    h₉.step (SeededStep.quiet (.arrived rfl rfl) rfl)
  have h₁₁ : Run twinMachine (twinTrace.take 11) _ :=
    h₁₀.step (SeededStep.handled (.accepted rfl rfl rfl) rfl twinId_issued)
  have h₁₂ : Run twinMachine (twinTrace.take 12) _ :=
    h₁₁.step (SeededStep.quiet (@Step.delivered _ _ _ _ [_] [] rfl) rfl)
  have h₁₃ : Run twinMachine (twinTrace.take 13) _ :=
    h₁₂.step (SeededStep.quiet (.resumed rfl rfl) rfl)
  have h₁₄ : Run twinMachine (twinTrace.take 14) _ :=
    h₁₃.step (SeededStep.quiet (.returned rfl rfl) rfl)
  exact ⟨_, h₁₄⟩

/-! ## Two threads with different seeds -/

/-- The first id drawn from an engine seeded with 2. -/
def pairId : RequestId := (564950497, 940422543, 768218108)

def pairJob : Job :=
  { ctx := { reqPid := 0, reqId := pairId }
    connection := 0
    operation := .remove [] }

/-- As before, but thread 1 draws another id.  The second call leaves the
response of the first in the mailbox and waits for its own. -/
def pairTrace : List SeededEvent :=
  [.quiet (.called 0 0 1 (staleCast 1).request),
    .quiet (.arrived 0 0 (staleCast 1)),
    .handled 0 12 (.accepted 0 (staleCast 1) twinJob),
    .quiet (.timedOut 0 1),
    .quiet (.started 0 1 twinJob),
    .quiet (.executed 0 1 twinJob emptyReply),
    .quiet (.responded 0 1 twinJob emptyReply),
    .quiet (.delivered 0 (.response twinId emptyReply 1)),
    .quiet (.called 0 0 2 (staleCast 2).request),
    .quiet (.arrived 0 0 (staleCast 2)),
    .handled 1 8 (.accepted 0 (staleCast 2) pairJob),
    .quiet (.delivered 0 (.accepted 2 pairId)),
    .quiet (.resumed 0 2 pairId),
    .quiet (.started 0 2 pairJob),
    .quiet (.executed 0 2 pairJob emptyReply),
    .quiet (.responded 0 2 pairJob emptyReply),
    .quiet (.delivered 0 (.response pairId emptyReply 2)),
    .quiet (.returned 0 2 pairId 2 emptyReply)]

/-- The machine whose engines are seeded with 1, 2, 3 and so on. -/
def pairMachine : TransitionSystem SeededState SeededEvent :=
  seededMachine Nat.succ (Equiv.refl _)

omit [LcbTypes] in
theorem pairId_issued : Issues (output 2) (Equiv.refl _) 0 pairId 8 :=
  ⟨4, rfl⟩

theorem pairRun : ∃ s, Run pairMachine pairTrace s := by
  have h₀ : Run pairMachine [] seededQuiet :=
    .start ⟨initial_quietState, fun _ => rfl⟩
  have h₁ : Run pairMachine (pairTrace.take 1) _ :=
    h₀.step (SeededStep.quiet (.called rfl) rfl)
  have h₂ : Run pairMachine (pairTrace.take 2) _ :=
    h₁.step (SeededStep.quiet (.arrived rfl rfl) rfl)
  have h₃ : Run pairMachine (pairTrace.take 3) _ :=
    h₂.step (SeededStep.handled (.accepted rfl rfl rfl) rfl twinId_issued)
  have h₄ : Run pairMachine (pairTrace.take 4) _ :=
    h₃.step (SeededStep.quiet (.refTimedOut rfl rfl) rfl)
  have h₅ : Run pairMachine (pairTrace.take 5) _ :=
    h₄.step (SeededStep.quiet (.started rfl rfl) rfl)
  have h₆ : Run pairMachine (pairTrace.take 6) _ :=
    h₅.step (SeededStep.quiet (.executed Lcb.silent rfl) rfl)
  have h₇ : Run pairMachine (pairTrace.take 7) _ :=
    h₆.step (SeededStep.quiet (.responded rfl) rfl)
  have h₈ : Run pairMachine (pairTrace.take 8) _ :=
    h₇.step (SeededStep.quiet (@Step.delivered _ _ _ _ [_] [] rfl) rfl)
  have h₉ : Run pairMachine (pairTrace.take 9) _ :=
    h₈.step (SeededStep.quiet (.called rfl) rfl)
  have h₁₀ : Run pairMachine (pairTrace.take 10) _ :=
    h₉.step (SeededStep.quiet (.arrived rfl rfl) rfl)
  have h₁₁ : Run pairMachine (pairTrace.take 11) _ :=
    h₁₀.step (SeededStep.handled (.accepted rfl rfl rfl) rfl pairId_issued)
  have h₁₂ : Run pairMachine (pairTrace.take 12) _ :=
    h₁₁.step (SeededStep.quiet (@Step.delivered _ _ _ _ [_] [] rfl) rfl)
  have h₁₃ : Run pairMachine (pairTrace.take 13) _ :=
    h₁₂.step (SeededStep.quiet (.resumed rfl rfl) rfl)
  have h₁₄ : Run pairMachine (pairTrace.take 14) _ :=
    h₁₃.step (SeededStep.quiet (.started rfl rfl) rfl)
  have h₁₅ : Run pairMachine (pairTrace.take 15) _ :=
    h₁₄.step (SeededStep.quiet (.executed Lcb.silent rfl) rfl)
  have h₁₆ : Run pairMachine (pairTrace.take 16) _ :=
    h₁₅.step (SeededStep.quiet (.responded rfl) rfl)
  have h₁₇ : Run pairMachine (pairTrace.take 17) _ :=
    h₁₆.step (SeededStep.quiet (@Step.delivered _ _ _ _ [_] [] rfl) rfl)
  have h₁₈ : Run pairMachine (pairTrace.take 18) _ :=
    h₁₇.step (SeededStep.quiet (.returned rfl rfl) rfl)
  exact ⟨_, h₁₈⟩

theorem pairTrace_apart : Apart Nat.succ pairTrace := by
  have hreads : pairTrace.filterMap SeededEvent.lastRead = [(0, 11), (1, 7)] := rfl
  have hne : output 1 11 ≠ output 2 7 := by decide
  constructor
  · intro t i hread
    rw [hreads, List.mem_pair] at hread
    rcases hread with h | h
    · obtain ⟨-, rfl⟩ := Prod.mk.inj h
      decide
    · obtain ⟨-, rfl⟩ := Prod.mk.inj h
      decide
  · intro t t' i j hread hread' ht
    rw [hreads, List.mem_pair] at hread hread'
    rcases hread with h | h
    · obtain ⟨rfl, rfl⟩ := Prod.mk.inj h
      rcases hread' with h' | h'
      · exact absurd (Prod.mk.inj h').1.symm ht
      · obtain ⟨rfl, rfl⟩ := Prod.mk.inj h'
        exact hne
    · obtain ⟨rfl, rfl⟩ := Prod.mk.inj h
      rcases hread' with h' | h'
      · obtain ⟨rfl, rfl⟩ := Prod.mk.inj h'
        exact hne.symm
      · exact absurd (Prod.mk.inj h').1.symm ht

end Runs

/-- With different seeds the second call is issued an id of its own and returns
its own response, although that of the first is in the mailbox. -/
theorem pairTrace_fresh :
    let _ : LcbTypes := ⟨.uint32⟩
    (∃ s, Run pairMachine pairTrace s) ∧ Apart Nat.succ pairTrace ∧
      pairTrace.filterMap SeededEvent.issues = [twinId, pairId] ∧
      .returned 0 2 pairId 2 emptyReply ∈
        pairTrace.filterMap SeededEvent.event ∧
      Fresh pairTrace := by
  intro _
  obtain ⟨s, hrun⟩ := pairRun
  refine ⟨⟨s, hrun⟩, pairTrace_apart, rfl, ?_,
    fresh_of_apart hrun pairTrace_apart⟩
  simp [pairTrace, SeededEvent.event]

/-- With equal seeds on two threads the second call of the run is issued the id
of the first, whose response is in the mailbox, and returns that response. -/
theorem twinTrace_not_fresh :
    let _ : LcbTypes := ⟨.uint32⟩
    (∃ s, Run twinMachine twinTrace s) ∧
      .returned 0 2 twinId 1 emptyReply ∈
        twinTrace.filterMap SeededEvent.event ∧
      ¬ Fresh twinTrace := by
  intro _
  have hreturned : .returned 0 2 twinId 1 emptyReply ∈
      twinTrace.filterMap SeededEvent.event := by
    simp [twinTrace, SeededEvent.event]
  refine ⟨twinRun, hreturned, ?_⟩
  intro hfresh
  have htag := hfresh.answered hreturned
  cases htag

end Cberl.System
