import Mathlib.Data.List.Perm.Basic

/-!
# Selective receive

A process that executes `receive` takes the first message of its mailbox that
the pattern matches and leaves the others in place.
-/

namespace Cberl.Support

variable {μ α : Type*}

/-- The value of the first message the pattern matches, and the mailbox
without that message. -/
def selectiveReceive (pattern : μ → Option α) : List μ → Option (α × List μ)
  | [] => none
  | message :: mailbox =>
      match pattern message with
      | some value => some (value, mailbox)
      | none =>
          (selectiveReceive pattern mailbox).map fun (value, rest) =>
            (value, message :: rest)

/-- A successful receive takes one matching message and keeps the rest. -/
theorem exists_perm_of_selectiveReceive
    {pattern : μ → Option α} {mailbox rest : List μ} {value : α}
    (h : selectiveReceive pattern mailbox = some (value, rest)) :
    ∃ message, pattern message = some value ∧
      mailbox.Perm (message :: rest) := by
  induction mailbox generalizing rest with
  | nil => cases h
  | cons message mailbox ih =>
      rw [selectiveReceive] at h
      split at h
      next value' hvalue =>
        simp only [Option.some.injEq, Prod.mk.injEq] at h
        obtain ⟨rfl, rfl⟩ := h
        exact ⟨message, hvalue, List.Perm.refl _⟩
      next =>
        rw [Option.map_eq_some_iff] at h
        obtain ⟨⟨value', rest'⟩, hrest, heq⟩ := h
        obtain ⟨rfl, rfl⟩ := Prod.mk.inj heq
        obtain ⟨taken, htaken, hperm⟩ := ih hrest
        exact ⟨taken, htaken, (hperm.cons message).trans (.swap ..)⟩

/-- A receive waits exactly when no message matches. -/
theorem selectiveReceive_eq_none_iff
    {pattern : μ → Option α} {mailbox : List μ} :
    selectiveReceive pattern mailbox = none ↔
      ∀ message ∈ mailbox, pattern message = none := by
  induction mailbox with
  | nil => simp [selectiveReceive]
  | cons message mailbox ih =>
      rw [selectiveReceive, List.forall_mem_cons]
      split
      next value hvalue => simp [hvalue]
      next hnone => simp [hnone, ih]

end Cberl.Support
