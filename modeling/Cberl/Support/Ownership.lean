import Cberl.Support.LabelledRun
import Cberl.Support.Observation
import Mathlib.Data.List.Basic
import Mathlib.Logic.Function.Basic

/-!
# Ownership of resources

An account of resources that are acquired, passed from owner to owner and
released.  A resource has at most one owner at a time.  An owner may also
abandon a resource; it then stays acquired, and nobody is left to release it.

Along every run the acquired and unreleased resources are the owned ones and
the abandoned ones, and no resource is released twice.
-/

namespace Cberl.Support

variable {Ω ι : Type*}

/-- The owners of the resources, and the resources ever acquired and ever
released. -/
structure Account (Ω ι : Type*) where
  owner : ι → Option Ω
  acquired : List ι
  released : List ι

/-- What may happen to a resource. -/
inductive Dealing (Ω ι : Type*) where
  | idle
  | acquired (o : Ω) (i : ι)
  | passed (i : ι) (o : Ω)
  | abandoned (i : ι)
  | released (i : ι)

/-- The resource a dealing abandons. -/
def Dealing.abandonedResource : Dealing Ω ι → Option ι
  | .abandoned i => some i
  | _ => none

namespace Account

/-- Acquired and not yet released. -/
def Held (a : Account Ω ι) (i : ι) : Prop :=
  i ∈ a.acquired ∧ i ∉ a.released

def Owned (a : Account Ω ι) (i : ι) : Prop :=
  ∃ o, a.owner i = some o

variable [DecidableEq ι]

open Function in
inductive Step : Account Ω ι → Dealing Ω ι → Account Ω ι → Prop
  | idle {a : Account Ω ι} : Step a .idle a
  | acquired {a : Account Ω ι} {o : Ω} {i : ι} (hfresh : i ∉ a.acquired) :
      Step a (.acquired o i)
        { a with
          owner := update a.owner i (some o)
          acquired := a.acquired ++ [i] }
  | passed {a : Account Ω ι} {i : ι} {o : Ω} (howned : a.Owned i) :
      Step a (.passed i o) { a with owner := update a.owner i (some o) }
  | abandoned {a : Account Ω ι} {i : ι} (howned : a.Owned i) :
      Step a (.abandoned i) { a with owner := update a.owner i none }
  | released {a : Account Ω ι} {i : ι} (howned : a.Owned i) :
      Step a (.released i)
        { a with
          owner := update a.owner i none
          released := a.released ++ [i] }

/-- All accounts that start empty. -/
def ledger : TransitionSystem (Account Ω ι) (Dealing Ω ι) where
  Initial a := (∀ i, a.owner i = none) ∧ a.acquired = [] ∧ a.released = []
  Step := Step

/-- Every acquired resource is owned, abandoned or released, and only one of
these. -/
structure Balanced (abandoned : List ι) (a : Account Ω ι) : Prop where
  place : ∀ i, i ∈ a.acquired ↔ a.Owned i ∨ i ∈ abandoned ∨ i ∈ a.released
  owned_not_abandoned : ∀ i, a.Owned i → i ∉ abandoned
  owned_not_released : ∀ i, a.Owned i → i ∉ a.released
  abandoned_not_released : ∀ i ∈ abandoned, i ∉ a.released
  released_nodup : a.released.Nodup

section Updates

variable {a : Account Ω ι} {i j : ι} {o : Ω}

theorem owned_update_some_iff :
    (∃ o', Function.update a.owner i (some o) j = some o') ↔ j = i ∨ a.Owned j := by
  by_cases hj : j = i
  · simp [hj]
  · simp [hj, Owned]

theorem owned_update_none_iff :
    (∃ o', Function.update a.owner i none j = some o') ↔ j ≠ i ∧ a.Owned j := by
  by_cases hj : j = i
  · simp [hj]
  · simp [hj, Owned]

end Updates

/-- One step keeps the account balanced. -/
theorem Step.balanced {abandoned : List ι} {a a' : Account Ω ι}
    {d : Dealing Ω ι} (h : Step a d a') (hbalanced : Balanced abandoned a) :
    Balanced (abandoned ++ d.abandonedResource.toList) a' := by
  cases h with
  | idle => simpa [Dealing.abandonedResource] using hbalanced
  | @acquired o i hfresh =>
      have hnew := (hbalanced.place i).not.mp hfresh
      simp only [not_or] at hnew
      obtain ⟨-, hnotAbandoned, hnotReleased⟩ := hnew
      rw [show (Dealing.acquired o i).abandonedResource.toList = [] from rfl,
        List.append_nil]
      refine ⟨?_, ?_, ?_, hbalanced.abandoned_not_released,
        hbalanced.released_nodup⟩
      · intro j
        rw [Owned, owned_update_some_iff, List.mem_append, List.mem_singleton,
          hbalanced.place j]
        tauto
      · intro j hj
        rcases owned_update_some_iff.mp hj with rfl | hj
        · exact hnotAbandoned
        · exact hbalanced.owned_not_abandoned j hj
      · intro j hj
        rcases owned_update_some_iff.mp hj with rfl | hj
        · exact hnotReleased
        · exact hbalanced.owned_not_released j hj
  | @passed i o howned =>
      rw [show (Dealing.passed i o).abandonedResource.toList = [] from rfl,
        List.append_nil]
      have hsame : ∀ j, (∃ o', Function.update a.owner i (some o) j = some o') ↔
          a.Owned j := by
        intro j
        rw [owned_update_some_iff]
        constructor
        · rintro (rfl | hj)
          · exact howned
          · exact hj
        · exact Or.inr
      refine ⟨?_, ?_, ?_, hbalanced.abandoned_not_released,
        hbalanced.released_nodup⟩
      · intro j
        rw [Owned, hsame, hbalanced.place j]
      · intro j hj
        exact hbalanced.owned_not_abandoned j ((hsame j).mp hj)
      · intro j hj
        exact hbalanced.owned_not_released j ((hsame j).mp hj)
  | @abandoned i howned =>
      rw [show (Dealing.abandoned i : Dealing Ω ι).abandonedResource.toList = [i]
        from rfl]
      refine ⟨?_, ?_, ?_, ?_, hbalanced.released_nodup⟩
      · intro j
        rw [Owned, owned_update_none_iff, hbalanced.place j, List.mem_append,
          List.mem_singleton]
        by_cases hj : j = i
        · subst hj
          simp [howned]
        · simp [hj]
      · intro j hj hmem
        obtain ⟨hne, hj⟩ := owned_update_none_iff.mp hj
        rcases List.mem_append.mp hmem with hmem | hmem
        · exact hbalanced.owned_not_abandoned j hj hmem
        · exact hne (List.mem_singleton.mp hmem)
      · intro j hj
        exact hbalanced.owned_not_released j (owned_update_none_iff.mp hj).2
      · intro j hmem
        rcases List.mem_append.mp hmem with hmem | hmem
        · exact hbalanced.abandoned_not_released j hmem
        · rw [List.mem_singleton.mp hmem]
          exact hbalanced.owned_not_released i howned
  | @released i howned =>
      rw [show (Dealing.released i : Dealing Ω ι).abandonedResource.toList = []
        from rfl, List.append_nil]
      refine ⟨?_, ?_, ?_, ?_, ?_⟩
      · intro j
        rw [Owned, owned_update_none_iff, hbalanced.place j, List.mem_append,
          List.mem_singleton]
        by_cases hj : j = i
        · subst hj
          simp [howned]
        · simp [hj]
      · intro j hj
        exact hbalanced.owned_not_abandoned j (owned_update_none_iff.mp hj).2
      · intro j hj hmem
        obtain ⟨hne, hj⟩ := owned_update_none_iff.mp hj
        rcases List.mem_append.mp hmem with hmem | hmem
        · exact hbalanced.owned_not_released j hj hmem
        · exact hne (List.mem_singleton.mp hmem)
      · intro j hmem hreleased
        rcases List.mem_append.mp hreleased with hreleased | hreleased
        · exact hbalanced.abandoned_not_released j hmem hreleased
        · rw [List.mem_singleton.mp hreleased] at hmem
          exact hbalanced.owned_not_abandoned i howned hmem
      · rw [List.nodup_append]
        refine ⟨hbalanced.released_nodup, List.nodup_singleton i, ?_⟩
        rintro j hj k hk rfl
        rw [List.mem_singleton.mp hk] at hj
        exact hbalanced.owned_not_released i howned hj

/-- Every run leaves a balanced account. -/
theorem balanced_of_run {trace : List (Dealing Ω ι)} {a : Account Ω ι}
    (hrun : Run ledger trace a) :
    Balanced (trace.filterMap Dealing.abandonedResource) a := by
  refine hrun.invariant (P := fun trace a =>
    Balanced (trace.filterMap Dealing.abandonedResource) a) ?_ ?_
  · rintro a ⟨howner, hacquired, hreleased⟩
    have hnone : ∀ i, ¬ a.Owned i := by
      rintro i ⟨o, ho⟩
      rw [howner] at ho
      cases ho
    constructor <;> simp [hnone, hacquired, hreleased]
  · intro trace a d a' _ hbalanced hstep
    rw [List.filterMap_append, filterMap_singleton]
    exact Step.balanced hstep hbalanced

omit [DecidableEq ι] in
/-- The resources held are the owned ones and the abandoned ones. -/
theorem Balanced.held_iff {abandoned : List ι} {a : Account Ω ι}
    (h : Balanced abandoned a) (i : ι) :
    a.Held i ↔ a.Owned i ∨ i ∈ abandoned := by
  rw [Held, h.place i]
  constructor
  · rintro ⟨howned | habandoned | hreleased, hnot⟩
    · exact Or.inl howned
    · exact Or.inr habandoned
    · exact absurd hreleased hnot
  · rintro (howned | habandoned)
    · exact ⟨Or.inl howned, h.owned_not_released i howned⟩
    · exact ⟨Or.inr (Or.inl habandoned), h.abandoned_not_released i habandoned⟩

end Account

end Cberl.Support
