import CredentialSigning.Json.Decimal
import Mathlib.Algebra.Order.Ring.Nat
import Mathlib.Data.List.TakeWhile

/-! Integers of at most fifteen digits as JSON writes them. All their digits are kept, and they are
well within the range of a double, so each one is read as the number it denotes. -/

namespace CredentialSigning.Json

/-- At most fifteen digits, and no zero in front of another digit. -/
structure IsNatural (digits : List Char) : Prop where
  nonempty : digits ≠ []
  decimal : ∀ c ∈ digits, c.isDigit = true
  unpadded : digits.head? = some '0' → digits = ['0']
  short : digits.length ≤ 15

namespace Decimal

theorem digitValue_le {c : Char} (decimal : c.isDigit = true) : digitValue c ≤ 9 := by
  simp only [Char.isDigit, Bool.and_eq_true, decide_eq_true_eq, UInt32.le_iff_toNat_le] at decimal
  have above : c.toNat ≤ 57 := decimal.2
  have zero : '0'.toNat = 48 := rfl
  rw [digitValue, zero]
  omega

/-- Another digit stays below the next number with one more place. -/
theorem next_place_le {c : Char} (decimal : c.isDigit = true) (value count : Nat) :
    (value * 10 + digitValue c + 1) * 10 ^ count ≤ (value + 1) * 10 ^ (count + 1) := by
  have small : digitValue c ≤ 9 := digitValue_le decimal
  rw [Nat.pow_succ', ← Nat.mul_assoc]
  exact Nat.mul_le_mul_right _ (by omega)

section
variable {digits : List Char} (decimal : ∀ c ∈ digits, c.isDigit = true)
include decimal

/-- Digits that fit are all kept. -/
theorem extend_eq {value : Nat} (fits : (value + 1) * 10 ^ digits.length ≤ 1 <<< 64) :
    extend value digits =
      (digits.foldl (fun value digit => value * 10 + digitValue digit) value, digits.length) := by
  induction digits generalizing value with
  | nil => rfl
  | cons c digits hypothesis =>
    have rest : ∀ other ∈ digits, other.isDigit = true :=
      fun other member => decimal other (List.mem_cons_of_mem c member)
    have longer : (value * 10 + digitValue c + 1) * 10 ^ digits.length ≤ 1 <<< 64 :=
      Nat.le_trans (next_place_le (decimal c List.mem_cons_self) value digits.length) fits
    have below : value * 10 + digitValue c < 1 <<< 64 :=
      Nat.le_trans (Nat.le_mul_of_pos_right _ (Nat.pow_pos (by decide))) longer
    simp only [extend, if_pos below, hypothesis rest longer, List.foldl_cons, List.length_cons]

theorem foldl_lt (value : Nat) :
    digits.foldl (fun value digit => value * 10 + digitValue digit) value <
      (value + 1) * 10 ^ digits.length := by
  induction digits generalizing value with
  | nil => simp
  | cons c digits hypothesis =>
    have rest : ∀ other ∈ digits, other.isDigit = true :=
      fun other member => decimal other (List.mem_cons_of_mem c member)
    exact Nat.lt_of_lt_of_le (hypothesis rest _)
      (next_place_le (decimal c List.mem_cons_self) value digits.length)

end

/-- Numbers of at most 53 binary digits need no rounding. -/
theorem nearest_eq {value : Nat} (small : value < 10 ^ 15) : nearest value = value := by
  have places : value.log2 - 52 = 0 := by
    rcases Nat.eq_zero_or_pos value with rfl | positive
    · rfl
    · have log : value.log2 < 52 := (Nat.log2_lt (Nat.ne_of_gt positive)).mpr (by omega)
      omega
  simp [nearest, places, Nat.mod_one]

theorem isFinite_integer {value : Int} (small : value.natAbs < 10 ^ 15) :
    isFinite ⟨value, 0⟩ = true := by
  have one : nearest (Nat.pow 10 (Int.toNat 0)) = 1 := rfl
  have range : nearest value.natAbs * nearest (Nat.pow 10 (Int.toNat 0)) < 1 <<< 1024 - 1 <<< 970 := by
    rw [nearest_eq small, one, Nat.mul_one]
    exact Nat.lt_trans small (by decide +kernel)
  unfold isFinite
  rw [Bool.or_eq_true, Bool.and_eq_true]
  exact .inr ⟨rfl, decide_eq_true range⟩

end Decimal

namespace IsNatural
variable {digits : List Char} (natural : IsNatural digits)
include natural

theorem pow_length_le : 10 ^ digits.length ≤ 10 ^ 15 :=
  Nat.pow_le_pow_right (by decide) natural.short

theorem digits_lt : Decimal.digits digits < 10 ^ 15 := by
  have bound := Decimal.foldl_lt natural.decimal 0
  rw [Nat.zero_add, Nat.one_mul] at bound
  exact Nat.lt_of_lt_of_le bound natural.pow_length_le

theorem readUnsigned?_eq : Decimal.readUnsigned? digits = some ⟨Decimal.digits digits, 0⟩ := by
  have whole : digits.takeWhile Char.isDigit = digits :=
    List.takeWhile_eq_self_iff.mpr natural.decimal
  have rest : digits.dropWhile Char.isDigit = [] := List.dropWhile_eq_nil_iff.mpr natural.decimal
  have unpadded : ¬(digits = [] ∨ digits.head? = some '0' ∧ digits.length > 1) := by
    rintro (empty | ⟨zero, long⟩)
    · exact natural.nonempty empty
    · rw [natural.unpadded zero] at long
      exact absurd long (by decide)
  have fits : (0 + 1) * 10 ^ digits.length ≤ 1 <<< 64 := by
    have bound := natural.pow_length_le
    omega
  simp only [Decimal.readUnsigned?, whole, rest, if_neg unpadded, Decimal.readTail?,
    Decimal.ofParts, Decimal.extend_eq natural.decimal fits, Decimal.extend]
  simp [Decimal.digits]

theorem read?_eq : Decimal.read? digits = some ⟨Decimal.digits digits, 0⟩ := by
  rw [← natural.readUnsigned?_eq]
  unfold Decimal.read?
  split
  · rename_i rest
    exact absurd (natural.decimal '-' List.mem_cons_self) (by decide)
  · rfl

theorem read?_neg : Decimal.read? ('-' :: digits) = some ⟨-(Decimal.digits digits : Int), 0⟩ := by
  simp only [Decimal.read?, natural.readUnsigned?_eq, Option.map_some]

end IsNatural
end CredentialSigning.Json
