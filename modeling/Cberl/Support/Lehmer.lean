import Mathlib.Data.ZMod.Basic
import Mathlib.FieldTheory.Finite.Basic
import Mathlib.GroupTheory.OrderOfElement

/-!
# Lehmer generators

A multiplicative congruential generator with a prime modulus never leaves the
nonzero residues.  When its multiplier generates the whole group of units, it
runs through all of them before it repeats itself.
-/

namespace Cberl.Support

/-- One step of the generator with multiplier `a` and modulus `m`. -/
def lehmer (a m x : ℕ) : ℕ :=
  a * x % m

theorem cast_lehmer_iterate (a m n x : ℕ) :
    (((lehmer a m)^[n] x : ℕ) : ZMod m) = a ^ n * x := by
  induction n generalizing x with
  | zero => simp
  | succ n ih =>
      rw [Function.iterate_succ_apply, ih, lehmer, ZMod.natCast_mod,
        Nat.cast_mul, pow_succ, mul_assoc]

section Prime

variable {a p x : ℕ} [hp : Fact p.Prime]

theorem lehmer_mem_Ioo (ha : (a : ZMod p) ≠ 0) (hx : x ∈ Set.Ioo 0 p) :
    lehmer a p x ∈ Set.Ioo 0 p := by
  refine ⟨?_, Nat.mod_lt _ hp.out.pos⟩
  rw [Nat.pos_iff_ne_zero, lehmer, Ne, ← Nat.dvd_iff_mod_eq_zero,
    hp.out.dvd_mul]
  rintro (hdvd | hdvd)
  · exact ha ((ZMod.natCast_eq_zero_iff a p).mpr hdvd)
  · exact absurd (Nat.le_of_dvd hx.1 hdvd) (not_le.mpr hx.2)

theorem lehmer_iterate_mem_Ioo (ha : (a : ZMod p) ≠ 0)
    (hx : x ∈ Set.Ioo 0 p) (n : ℕ) : (lehmer a p)^[n] x ∈ Set.Ioo 0 p := by
  induction n with
  | zero => exact hx
  | succ n ih =>
      rw [Function.iterate_succ_apply']
      exact lehmer_mem_Ioo ha ih

/-- The generator does not return to a state before a full period. -/
theorem lehmer_iterate_injOn (horder : orderOf (a : ZMod p) = p - 1)
    (hx : x ∈ Set.Ioo 0 p) :
    Set.InjOn (fun n => (lehmer a p)^[n] x) (Set.Iio (p - 1)) := by
  have hunit : (x : ZMod p) ≠ 0 := by
    rw [Ne, ZMod.natCast_eq_zero_iff]
    exact Nat.not_dvd_of_pos_of_lt hx.1 hx.2
  intro n hn k hk heq
  have hcast := congrArg (Nat.cast : ℕ → ZMod p) heq
  simp only [cast_lehmer_iterate] at hcast
  have hpow := mul_right_cancel₀ hunit hcast
  rw [← horder] at hn hk
  exact pow_injOn_Iio_orderOf hn hk hpow

end Prime

end Cberl.Support
