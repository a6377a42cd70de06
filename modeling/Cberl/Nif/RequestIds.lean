import Cberl.Nif.Functions
import Cberl.Support.Lehmer
import Mathlib.Data.Fin.VecNotation
import Mathlib.NumberTheory.LucasPrimality
import Mathlib.Tactic.FinCases
import Mathlib.Tactic.NormNum.Prime
import Mathlib.Tactic.ReduceModChar

/-!
# Request ids

`NifCTX` draws the three integers of an id from the engine of the scheduler
thread it runs on, which is seeded when the thread first needs it.  In
libstdc++ the default engine is `minstd_rand0`; a distribution reads its
outputs one after the other and rejects some of them.
-/

namespace Cberl

open Cberl.Support

/-! ## The engine -/

/-- The state after construction from a seed. -/
def seedState (seed : ℕ) : ℕ :=
  if seed % 2147483647 = 0 then 1 else seed % 2147483647

/-- Output number `k` of `gen`. -/
def output (seed k : ℕ) : ℕ :=
  (lehmer 16807 2147483647)^[k + 1] (seedState seed)

theorem minstd_pow_eq_one : (16807 : ZMod 2147483647) ^ 2147483646 = 1 := by
  reduce_mod_char

theorem minstd_factor {q : ℕ} (hq : q.Prime) (hdvd : q ∣ 2147483646) :
    q = 2 ∨ q = 3 ∨ q = 7 ∨ q = 11 ∨ q = 31 ∨ q = 151 ∨ q = 331 := by
  have hfactors : 2147483646 = 2 * 3 * 3 * 7 * 11 * 31 * 151 * 331 := by
    norm_num
  rw [hfactors] at hdvd
  simp only [hq.dvd_mul, or_assoc] at hdvd
  have heq : ∀ r : ℕ, r.Prime → q ∣ r → q = r :=
    fun r hr h => (Nat.prime_dvd_prime_iff_eq hq hr).mp h
  rcases hdvd with h | h | h | h | h | h | h | h
  all_goals
    have hr := heq _ (by norm_num) h
    omega

theorem minstd_pow_div_ne_one {q : ℕ} (hq : q.Prime) (hdvd : q ∣ 2147483646) :
    (16807 : ZMod 2147483647) ^ (2147483646 / q) ≠ 1 := by
  rcases minstd_factor hq hdvd with rfl | rfl | rfl | rfl | rfl | rfl | rfl
  all_goals
    norm_num only
    reduce_mod_char
    decide

instance fact_prime_minstd : Fact (Nat.Prime 2147483647) :=
  ⟨lucas_primality _ 16807 minstd_pow_eq_one fun _ => minstd_pow_div_ne_one⟩

/-- The multiplier is a primitive root. -/
theorem orderOf_minstd : orderOf (16807 : ZMod 2147483647) = 2147483646 :=
  orderOf_eq_of_pow_and_pow_div_prime (by norm_num) minstd_pow_eq_one
    fun _ => minstd_pow_div_ne_one

theorem output_mem_Ioo (seed k : ℕ) : output seed k ∈ Set.Ioo 0 2147483647 := by
  have ha : ((16807 : ℕ) : ZMod 2147483647) ≠ 0 := by
    decide
  refine lehmer_iterate_mem_Ioo ha ?_ (k + 1)
  have hlt : seed % 2147483647 < 2147483647 := Nat.mod_lt _ (by norm_num)
  rw [seedState, Set.mem_Ioo]
  split_ifs <;> omega

/-- The engine repeats no output within a period. -/
theorem output_injOn (seed : ℕ) :
    Set.InjOn (output seed) (Set.Iio 2147483646) := by
  have horder : orderOf ((16807 : ℕ) : ZMod 2147483647) = 2147483647 - 1 :=
    orderOf_minstd
  exact lehmer_iterate_injOn horder (output_mem_Ioo seed 0)

/-! ## The distribution -/

/-- `urng.max() - urng.min()`. -/
def urngRange : ℕ := 2147483645

/-- The call operator of `uniform_int_distribution` on `[0, range]`: the value
and the position in the engine's outputs behind those it read. -/
def uniform (out : ℕ → ℕ) : (fuel range k : ℕ) → Option (ℕ × ℕ)
  | 0, _, _ => none
  | fuel + 1, range, k =>
      if range < urngRange then
        let scaling := urngRange / (range + 1)
        let past := (range + 1) * scaling
        let ret := out k - 1
        if past ≤ ret then uniform out fuel range (k + 1)
        else some (ret / scaling, k + 1)
      else if urngRange < range then
        match uniform out fuel (range / (urngRange + 1)) k with
        | none => none
        | some (high, k) =>
            let tmp := (urngRange + 1) * high
            let ret := tmp + (out k - 1)
            if range < ret ∨ ret < tmp then uniform out fuel range (k + 1)
            else some (ret, k + 1)
      else some (out k - 1, k + 1)

theorem uniform_one {out : ℕ → ℕ} {fuel k v k' : ℕ}
    (h : uniform out fuel 1 k = some (v, k')) : v ≤ 1 ∧ k < k' := by
  induction fuel generalizing k with
  | zero => cases h
  | succ fuel ih =>
      rw [uniform, if_pos (by decide)] at h
      dsimp only at h
      split at h
      next =>
        obtain ⟨hv, hk⟩ := ih h
        omega
      next hpast =>
        obtain ⟨rfl, rfl⟩ := Prod.mk.inj (Option.some.inj h)
        have hscaling : urngRange / (1 + 1) = 1073741822 := rfl
        rw [hscaling] at hpast ⊢
        omega

/-- The last output read for a value of `[0, 2 ^ 31 - 1]`. -/
def lastOutput (v : ℕ) : ℕ :=
  if v ≤ urngRange then v + 1 else v - urngRange

/-- A drawn integer gives away the output it was made from. -/
theorem uniform_int {out : ℕ → ℕ} {fuel k v k' : ℕ}
    (hout : ∀ n, out n ∈ Set.Ioo 0 2147483647)
    (h : uniform out fuel 2147483647 k = some (v, k')) :
    k < k' ∧ out (k' - 1) = lastOutput v := by
  induction fuel generalizing k with
  | zero => cases h
  | succ fuel ih =>
      rw [uniform, if_neg (by decide), if_pos (by decide)] at h
      cases hhigh : uniform out fuel (2147483647 / (urngRange + 1)) k with
      | none =>
          rw [hhigh] at h
          cases h
      | some result =>
          obtain ⟨high, k₁⟩ := result
          obtain ⟨hle, hlt⟩ := uniform_one hhigh
          rw [hhigh] at h
          dsimp only at h
          split at h
          next =>
            obtain ⟨hk, hlast⟩ := ih h
            exact ⟨hlt.trans (by omega), hlast⟩
          next haccept =>
            obtain ⟨rfl, rfl⟩ := Prod.mk.inj (Option.some.inj h)
            obtain ⟨hpos, hmax⟩ := hout k₁
            refine ⟨by omega, ?_⟩
            rw [Nat.add_sub_cancel, lastOutput]
            split
            next hlow =>
              simp only [urngRange] at hlow ⊢
              omega
            next hlow =>
              simp only [urngRange] at haccept hlow ⊢
              omega

/-! ## Three draws -/

/-- The id that one `NifCTX` draws.  The order in which the three arguments of
`std::make_tuple` are evaluated is left to the compiler: component `i` is draw
number `order i`. -/
def issue (out : ℕ → ℕ) (order : Equiv.Perm (Fin 3)) (fuel k : ℕ) :
    Option (RequestId × ℕ) := do
  let (first, k) ← uniform out fuel 2147483647 k
  let (second, k) ← uniform out fuel 2147483647 k
  let (third, k) ← uniform out fuel 2147483647 k
  let draw : Fin 3 → ℤ := ![first, second, third]
  return ((draw (order 0), draw (order 1), draw (order 2)), k)

/-- From position `k` of the outputs on, `NifCTX` draws `id` and leaves the
engine at position `k'`. -/
def Issues (out : ℕ → ℕ) (order : Equiv.Perm (Fin 3)) (k : ℕ)
    (id : RequestId) (k' : ℕ) : Prop :=
  ∃ fuel, issue out order fuel k = some (id, k')

/-- The component of an id that was drawn last. -/
def lastDrawn (order : Equiv.Perm (Fin 3)) (id : RequestId) : ℤ :=
  ![id.1, id.2.1, id.2.2] (order.symm 2)

theorem lastDrawn_arrange (order : Equiv.Perm (Fin 3)) (draw : Fin 3 → ℤ) :
    lastDrawn order (draw (order 0), draw (order 1), draw (order 2)) =
      draw 2 := by
  have hdraw : ![draw (order 0), draw (order 1), draw (order 2)] =
      fun i => draw (order i) := by
    funext i
    fin_cases i <;> rfl
  rw [lastDrawn, hdraw]
  exact congrArg draw (order.apply_symm_apply 2)

/-- An id gives away the output that was read last for it. -/
theorem Issues.last {out : ℕ → ℕ} {order : Equiv.Perm (Fin 3)} {k k' : ℕ}
    {id : RequestId} (hout : ∀ n, out n ∈ Set.Ioo 0 2147483647)
    (h : Issues out order k id k') :
    k < k' ∧ out (k' - 1) = lastOutput (lastDrawn order id).toNat := by
  obtain ⟨fuel, hissue⟩ := h
  obtain ⟨⟨first, k₁⟩, hfirst, hissue⟩ := Option.bind_eq_some_iff.mp hissue
  obtain ⟨⟨second, k₂⟩, hsecond, hissue⟩ := Option.bind_eq_some_iff.mp hissue
  obtain ⟨⟨third, k₃⟩, hthird, hissue⟩ := Option.bind_eq_some_iff.mp hissue
  obtain ⟨rfl, rfl⟩ := Prod.mk.inj (Option.some.inj hissue)
  obtain ⟨hk₁, -⟩ := uniform_int hout hfirst
  obtain ⟨hk₂, -⟩ := uniform_int hout hsecond
  obtain ⟨hk₃, hlast⟩ := uniform_int hout hthird
  refine ⟨by omega, ?_⟩
  rw [lastDrawn_arrange, hlast]
  rfl

end Cberl
