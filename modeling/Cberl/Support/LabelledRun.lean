import Mathlib.Data.List.Induction

/-!
# Runs of a labelled transition system

A transition system is a set of initial states and a labelled step relation.
A run records the labels it passed through, oldest first, so that statements
about what has already happened are statements about one list.
-/

namespace Cberl.Support

/-- Initial states and labelled steps. -/
structure TransitionSystem (σ : Type*) (ℓ : Type*) where
  Initial : σ → Prop
  Step : σ → ℓ → σ → Prop

variable {σ ℓ : Type*}

/-- `Run M trace s`: the labels `trace`, oldest first, lead from some initial
state of `M` to `s`. -/
inductive Run (M : TransitionSystem σ ℓ) : List ℓ → σ → Prop
  | start {s : σ} (hs : M.Initial s) : Run M [] s
  | step {trace : List ℓ} {s s' : σ} {label : ℓ}
      (hrun : Run M trace s) (hstep : M.Step s label s') :
      Run M (trace ++ [label]) s'

/-- Every state some run ends in. -/
def Reachable (M : TransitionSystem σ ℓ) (s : σ) : Prop :=
  ∃ trace, Run M trace s

/-- The invariant rule: what holds initially and is kept by every step of a
run holds along every run. -/
theorem Run.invariant
    {M : TransitionSystem σ ℓ} {P : List ℓ → σ → Prop}
    (hinit : ∀ s, M.Initial s → P [] s)
    (hkeep : ∀ trace s label s', Run M trace s →
      P trace s → M.Step s label s' → P (trace ++ [label]) s')
    {trace : List ℓ} {s : σ} (hrun : Run M trace s) :
    P trace s := by
  induction hrun with
  | start hs => exact hinit _ hs
  | step hrun hstep ih => exact hkeep _ _ _ _ hrun ih hstep

/-- The last step of a run. -/
theorem Run.exists_last
    {M : TransitionSystem σ ℓ} {trace : List ℓ} {label : ℓ} {s : σ}
    (hrun : Run M (trace ++ [label]) s) :
    ∃ s₁, Run M trace s₁ ∧ M.Step s₁ label s := by
  generalize htrace : trace ++ [label] = whole at hrun
  cases hrun with
  | start => simp at htrace
  | step hrun hstep =>
      obtain ⟨rfl, hlabel⟩ := List.append_inj' htrace rfl
      obtain ⟨rfl, -⟩ := List.cons.inj hlabel
      exact ⟨_, hrun, hstep⟩

/-- A run passes through a state after every initial segment of its trace. -/
theorem Run.exists_of_append
    {M : TransitionSystem σ ℓ} {trace₁ trace₂ : List ℓ} {s : σ}
    (hrun : Run M (trace₁ ++ trace₂) s) : ∃ s₁, Run M trace₁ s₁ := by
  induction trace₂ using List.reverseRecOn generalizing s with
  | nil => exact ⟨s, by simpa using hrun⟩
  | append_singleton trace₂ label ih =>
      rw [← List.append_assoc] at hrun
      obtain ⟨s₁, hrun₁, -⟩ := hrun.exists_last
      exact ih hrun₁

/-- Every label of a run was a step from a state the run passed through. -/
theorem Run.exists_step
    {M : TransitionSystem σ ℓ} {trace₁ trace₂ : List ℓ} {label : ℓ} {s : σ}
    (hrun : Run M (trace₁ ++ label :: trace₂) s) :
    ∃ s₁ s₂, Run M trace₁ s₁ ∧ M.Step s₁ label s₂ := by
  have hsplit : trace₁ ++ label :: trace₂ =
      (trace₁ ++ [label]) ++ trace₂ := by simp
  rw [hsplit] at hrun
  obtain ⟨s₂, hrun₂⟩ := hrun.exists_of_append
  obtain ⟨s₁, hrun₁, hstep⟩ := hrun₂.exists_last
  exact ⟨s₁, s₂, hrun₁, hstep⟩

/-- The simulation rule: when every step of `M` is matched by a step of `M'`
with the translated label, every run of `M` is matched by a run of `M'`. -/
theorem Run.simulate
    {σ' ℓ' : Type*} {M : TransitionSystem σ ℓ} (M' : TransitionSystem σ' ℓ')
    (translate : ℓ → ℓ') (R : σ → σ' → Prop)
    (hinit : ∀ s, M.Initial s → ∃ s', M'.Initial s' ∧ R s s')
    (hstep : ∀ s₁ label s₂ s₁', M.Step s₁ label s₂ → R s₁ s₁' →
      ∃ s₂', M'.Step s₁' (translate label) s₂' ∧ R s₂ s₂')
    {trace : List ℓ} {s : σ} (hrun : Run M trace s) :
    ∃ s', Run M' (trace.map translate) s' ∧ R s s' := by
  induction hrun with
  | start hs =>
      obtain ⟨s', hs', hR⟩ := hinit _ hs
      exact ⟨s', .start hs', hR⟩
  | step hrun hstep' ih =>
      obtain ⟨s₁', hrun', hR⟩ := ih
      obtain ⟨s₂', hstep₂, hR₂⟩ := hstep _ _ _ _ hstep' hR
      rw [List.map_append]
      exact ⟨s₂', hrun'.step hstep₂, hR₂⟩

/-- The simulation rule with stuttering: a step of `M` whose label has no
translation is matched by no step of `M'`. -/
theorem Run.simulate_stutter
    {σ' ℓ' : Type*} {M : TransitionSystem σ ℓ} (M' : TransitionSystem σ' ℓ')
    (translate : ℓ → Option ℓ') (R : σ → σ' → Prop)
    (hinit : ∀ s, M.Initial s → ∃ s', M'.Initial s' ∧ R s s')
    (hstep : ∀ s₁ label s₂ s₁' label', M.Step s₁ label s₂ → R s₁ s₁' →
      translate label = some label' →
      ∃ s₂', M'.Step s₁' label' s₂' ∧ R s₂ s₂')
    (hstutter : ∀ s₁ label s₂ s₁', M.Step s₁ label s₂ → R s₁ s₁' →
      translate label = none → R s₂ s₁')
    {trace : List ℓ} {s : σ} (hrun : Run M trace s) :
    ∃ s', Run M' (trace.filterMap translate) s' ∧ R s s' := by
  induction hrun with
  | start hs =>
      obtain ⟨s', hs', hR⟩ := hinit _ hs
      exact ⟨s', .start hs', hR⟩
  | @step trace s₁ s₂ label hrun hstep' ih =>
      obtain ⟨s₁', hrun', hR⟩ := ih
      rw [List.filterMap_append]
      cases hlabel : translate label with
      | some label' =>
          obtain ⟨s₂', hstep₂, hR₂⟩ := hstep _ _ _ _ _ hstep' hR hlabel
          rw [List.filterMap_cons_some hlabel]
          exact ⟨s₂', hrun'.step hstep₂, hR₂⟩
      | none =>
          rw [List.filterMap_cons_none hlabel, List.filterMap_nil,
            List.append_nil]
          exact ⟨s₁', hrun', hstutter _ _ _ _ hstep' hR hlabel⟩

end Cberl.Support
