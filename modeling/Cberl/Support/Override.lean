import Mathlib.Data.List.Induction
import Mathlib.Logic.Function.Basic
import Mathlib.Tactic.Common

/-!
# Ordered override

Writes applied to a map one after the other: each key ends with the value of
its last write, or keeps its own value when it is not written.
-/

namespace Cberl.Support

variable {κ V : Type*} [DecidableEq κ]

/-- Apply the writes in the order of the list. -/
def override (m : κ → V) (writes : List (κ × V)) : κ → V :=
  writes.foldl (fun m write => Function.update m write.1 write.2) m

/-- The value of the last write to a key, if there is one. -/
def lastWrite (writes : List (κ × V)) (k : κ) : Option V :=
  ((writes.filter fun write => write.1 = k).getLast?).map Prod.snd

theorem override_apply (m : κ → V) (writes : List (κ × V)) (k : κ) :
    override m writes k = (lastWrite writes k).getD (m k) := by
  induction writes using List.reverseRecOn with
  | nil => rfl
  | append_singleton writes write ih =>
      have hstep : override m (writes ++ [write]) =
          Function.update (override m writes) write.1 write.2 := by
        simp [override]
      rw [hstep, lastWrite, List.filter_append]
      by_cases hkey : write.1 = k
      · subst hkey
        simp
      · rw [Function.update_of_ne (Ne.symm hkey), ih, lastWrite]
        simp [hkey]

end Cberl.Support
