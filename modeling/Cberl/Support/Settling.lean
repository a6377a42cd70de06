import Cberl.Support.LabelledRun

/-!
# Systems that come to rest

Some steps of a system are its own, the others come from outside.  When every
own step lowers a cost, the system left alone comes to rest, whatever the order
of its steps: a path of own steps is no longer than the cost of its start, and
some path ends at rest.  What holds at rest is then what the system always
achieves.
-/

namespace Cberl.Support

variable {σ ℓ : Type*}

/-- The own steps with the labels `labels` lead from one state to another. -/
inductive Path (M : TransitionSystem σ ℓ) (Own : ℓ → Prop) :
    List ℓ → σ → σ → Prop
  | nil {s : σ} : Path M Own [] s s
  | cons {labels : List ℓ} {label : ℓ} {s s' s'' : σ} (hown : Own label)
      (hstep : M.Step s label s') (hpath : Path M Own labels s' s'') :
      Path M Own (label :: labels) s s''

/-- No own step is possible. -/
def AtRest (M : TransitionSystem σ ℓ) (Own : ℓ → Prop) (s : σ) : Prop :=
  ∀ label s', Own label → ¬ M.Step s label s'

variable {M : TransitionSystem σ ℓ} {Own : ℓ → Prop} {labels trace : List ℓ}
  {label : ℓ} {s s' : σ}

theorem AtRest.elim (h : AtRest M Own s) (hstep : M.Step s label s')
    (hown : Own label) : False :=
  h label s' hown hstep

theorem Path.own (hpath : Path M Own labels s s') : ∀ label ∈ labels, Own label := by
  induction hpath with
  | nil => simp
  | cons hown _ _ ih => exact List.forall_mem_cons.mpr ⟨hown, ih⟩

/-- A path continues a run. -/
theorem Run.append_path (hrun : Run M trace s) (hpath : Path M Own labels s s') :
    Run M (trace ++ labels) s' := by
  induction hpath generalizing trace with
  | nil => rwa [List.append_nil]
  | cons hown hstep _ ih =>
      rw [List.append_cons]
      exact ih (hrun.step hstep)

/-- When no path is longer than some bound, one ends at rest. -/
theorem exists_rest_of_bounded {n : ℕ}
    (hbound : ∀ labels s', Path M Own labels s s' → labels.length ≤ n) :
    ∃ labels s', Path M Own labels s s' ∧ AtRest M Own s' := by
  induction n generalizing s with
  | zero =>
      refine ⟨[], s, .nil, ?_⟩
      intro label s' hown hstep
      have hlength := hbound [label] s' (.cons hown hstep .nil)
      simp at hlength
  | succ n ih =>
      by_cases hrest : AtRest M Own s
      · exact ⟨[], s, .nil, hrest⟩
      · simp only [AtRest, not_forall, not_not] at hrest
        obtain ⟨label, s₁, hown, hstep⟩ := hrest
        obtain ⟨labels, s', hpath, hrest'⟩ := @ih s₁ fun labels s' hpath =>
          Nat.le_of_succ_le_succ (hbound _ s' (.cons hown hstep hpath))
        exact ⟨label :: labels, s', .cons hown hstep hpath, hrest'⟩

/-- Own steps lower the cost in every state with the invariant. -/
structure Settling (M : TransitionSystem σ ℓ) (Own : ℓ → Prop)
    (Inv : σ → Prop) (cost : σ → ℕ) : Prop where
  keep : ∀ {s label s'}, Inv s → Own label → M.Step s label s' → Inv s'
  lower : ∀ {s label s'}, Inv s → Own label → M.Step s label s' →
    cost s' < cost s

variable {Inv : σ → Prop} {cost : σ → ℕ}

/-- A path is no longer than the cost of its start. -/
theorem Settling.length_le (h : Settling M Own Inv cost)
    (hpath : Path M Own labels s s') (hs : Inv s) :
    labels.length + cost s' ≤ cost s := by
  induction hpath with
  | nil => simp
  | cons hown hstep _ ih =>
      have hrest := ih (h.keep hs hown hstep)
      have hlower := h.lower hs hown hstep
      rw [List.length_cons]
      omega

/-- The system can come to rest. -/
theorem Settling.exists_rest (h : Settling M Own Inv cost) (hs : Inv s) :
    ∃ labels s', Path M Own labels s s' ∧ AtRest M Own s' := by
  apply exists_rest_of_bounded (n := cost s)
  intro labels s' hpath
  have hlength := h.length_le hpath hs
  omega

end Cberl.Support
