import Mathlib.Data.Nat.Notation
import Mathlib.Tactic.Common

/-!
# Decimal text

The decimal digits of a natural number as ASCII bytes, and reading them back.
-/

namespace Cberl.Support

/-- The digits, the leading one first. -/
def decimal (n : ℕ) : List UInt8 :=
  (Nat.toDigits 10 n).map fun digit => UInt8.ofNat digit.toNat

def ofDecimal (bytes : List UInt8) : ℕ :=
  Nat.ofDigitChars 10 (bytes.map fun byte => Char.ofNat byte.toNat) 0

def IsDecimal (bytes : List UInt8) : Prop :=
  bytes ≠ [] ∧ ∀ byte ∈ bytes, 48 ≤ byte ∧ byte ≤ 57

instance (bytes : List UInt8) : Decidable (IsDecimal bytes) :=
  inferInstanceAs (Decidable (_ ∧ _))

theorem toNat_of_mem_toDigits {n : ℕ} {digit : Char}
    (h : digit ∈ Nat.toDigits 10 n) :
    48 ≤ digit.toNat ∧ digit.toNat ≤ 57 := by
  have hdigit := Nat.isDigit_of_mem_toDigits (by decide) (by decide) h
  simpa [Char.isDigit, UInt32.le_iff_toNat_le] using hdigit

theorem toNat_ofNat_of_mem_toDigits {n : ℕ} {digit : Char}
    (h : digit ∈ Nat.toDigits 10 n) :
    (UInt8.ofNat digit.toNat).toNat = digit.toNat := by
  obtain ⟨-, hdigit⟩ := toNat_of_mem_toDigits h
  apply UInt8.toNat_ofNat_of_lt'
  exact Nat.lt_of_le_of_lt hdigit (by decide)

theorem isDecimal_decimal (n : ℕ) : IsDecimal (decimal n) := by
  constructor
  · have hpos : 0 < (Nat.toDigits 10 n).length := Nat.length_toDigits_pos
    intro hnil
    rw [decimal, List.map_eq_nil_iff] at hnil
    simp [hnil] at hpos
  · intro byte hbyte
    obtain ⟨digit, hdigit, rfl⟩ := List.mem_map.mp hbyte
    obtain ⟨hleast, hgreatest⟩ := toNat_of_mem_toDigits hdigit
    simp only [UInt8.le_iff_toNat_le, toNat_ofNat_of_mem_toDigits hdigit]
    exact ⟨hleast, hgreatest⟩

theorem ofDecimal_decimal (n : ℕ) : ofDecimal (decimal n) = n := by
  have hdigits : ∀ digit ∈ Nat.toDigits 10 n,
      Char.ofNat (UInt8.ofNat digit.toNat).toNat = digit := by
    intro digit hdigit
    rw [toNat_ofNat_of_mem_toDigits hdigit, Char.ofNat_toNat]
  have hchars : ((Nat.toDigits 10 n).map fun digit =>
      UInt8.ofNat digit.toNat).map (fun byte => Char.ofNat byte.toNat) =
      Nat.toDigits 10 n := by
    rw [List.map_map]
    exact (List.map_congr_left hdigits).trans (List.map_id _)
  rw [ofDecimal, decimal, hchars]
  exact Nat.ofDigitChars_ten_toDigits

end Cberl.Support
