import CredentialSigning.Arithmetic.Residue
import Mathlib.FieldTheory.Finite.Basic

/-! Residues as elements of the ring of integers modulo the modulus, which is a field when the modulus
is prime. Every operation on residues is the ring's operation, powers by the ladder included, and the
inverse modulo a prime is the field's. -/

namespace CredentialSigning.Residue

theorem lt_two_pow_bitLength (value : Nat) : value < 2 ^ bitLength value :=
  Nat.lt_log2_self

/-- What the ladder reaches from `start` over `bits` digits, for any reading of values as numbers
under which doubling doubles and a step adds one. -/
theorem ladder_reaches {α : Type} {motive : Nat → α → Prop} (double step : α → α)
    (doubled : ∀ n value, motive n value → motive (2 * n) (double value))
    (stepped : ∀ n value, motive n value → motive (n + 1) (step value)) (scalar : Nat) :
    ∀ bits start value, motive start value →
      motive (start * 2 ^ bits + scalar % 2 ^ bits) (ladder double step scalar bits value)
  | 0, start, value, read => by simpa [ladder, Nat.mod_one] using read
  | bits + 1, start, value, read => by
    have split : scalar % 2 ^ (bits + 1) =
        scalar % 2 ^ bits + 2 ^ bits * (scalar / 2 ^ bits % 2) := by
      rw [Nat.pow_succ, Nat.mod_mul]
    have digit : scalar.testBit bits = (scalar / 2 ^ bits % 2 == 1) := by
      rw [Nat.testBit_eq_decide_div_mod_eq]; rfl
    rw [ladder, digit, split, Nat.pow_succ]
    rcases Nat.mod_two_eq_zero_or_one (scalar / 2 ^ bits) with even | odd
    · rw [if_neg (by simp [even]), even]
      have next := ladder_reaches double step doubled stepped scalar bits _ _ (doubled _ _ read)
      rwa [Nat.mul_comm 2, Nat.mul_assoc, Nat.mul_comm 2] at next
    · rw [if_pos (by simp [odd]), odd]
      have next := ladder_reaches double step doubled stepped scalar bits _ _
        (stepped _ _ (doubled _ _ read))
      rw [Nat.add_mul, Nat.one_mul, Nat.mul_comm 2, Nat.mul_assoc, Nat.mul_comm 2] at next
      rwa [Nat.mul_one, Nat.add_comm (scalar % 2 ^ bits), ← Nat.add_assoc]

theorem power_eq (modulus base exponent : Nat) :
    power modulus base exponent = base ^ exponent % modulus := by
  have reached := ladder_reaches (motive := fun n value => value = base ^ n % modulus)
    (square modulus) (mul modulus base)
    (by rintro n _ rfl; simp only [square]; rw [← Nat.mul_mod, ← Nat.pow_add, Nat.two_mul])
    (by rintro n _ rfl; simp only [mul]; rw [Nat.mul_mod_mod, Nat.pow_succ, Nat.mul_comm])
    exponent (bitLength exponent) 0 (1 % modulus) (by rw [Nat.pow_zero])
  rw [power, reached, Nat.zero_mul, Nat.zero_add,
    Nat.mod_eq_of_lt (lt_two_pow_bitLength exponent)]

variable {modulus : Nat}

@[simp] theorem cast_mul (left right : Nat) :
    (mul modulus left right : ZMod modulus) = left * right := by
  simp [mul]

@[simp] theorem cast_square (value : Nat) : (square modulus value : ZMod modulus) = value ^ 2 := by
  simp [square, sq]

@[simp] theorem cast_sub [NeZero modulus] (left right : Nat) :
    (sub modulus left right : ZMod modulus) = left - right := by
  have below : right % modulus ≤ modulus := (Nat.mod_lt _ (NeZero.pos modulus)).le
  rw [sub, ZMod.natCast_mod, Nat.cast_add, Nat.cast_sub below]
  simp [sub_eq_add_neg]

@[simp] theorem cast_power (base exponent : Nat) :
    (power modulus base exponent : ZMod modulus) = (base : ZMod modulus) ^ exponent := by
  simp [power_eq]

theorem cast_mod_of_dvd {factor : Nat} (divides : factor ∣ modulus) (value : Nat) :
    ((value % modulus : Nat) : ZMod factor) = value := by
  rw [← ZMod.natCast_mod, Nat.mod_mod_of_dvd _ divides, ZMod.natCast_mod]

theorem cast_power_of_dvd {factor : Nat} (divides : factor ∣ modulus) (base exponent : Nat) :
    (power modulus base exponent : ZMod factor) = (base : ZMod factor) ^ exponent := by
  rw [power_eq, cast_mod_of_dvd divides, Nat.cast_pow]

theorem mul_lt [NeZero modulus] (left right : Nat) : mul modulus left right < modulus :=
  Nat.mod_lt _ (NeZero.pos modulus)

theorem sub_lt [NeZero modulus] (left right : Nat) : sub modulus left right < modulus :=
  Nat.mod_lt _ (NeZero.pos modulus)

theorem power_lt [NeZero modulus] (base exponent : Nat) : power modulus base exponent < modulus := by
  rw [power_eq]
  exact Nat.mod_lt _ (NeZero.pos modulus)

theorem cast_eq_zero_iff {value : Nat} (below : value < modulus) :
    (value : ZMod modulus) = 0 ↔ value = 0 := by
  rw [ZMod.natCast_eq_zero_iff]
  exact ⟨fun divides => Nat.eq_zero_of_dvd_of_lt divides below, fun zero => zero ▸ dvd_zero modulus⟩

theorem eq_of_cast_eq {left right : Nat} (leftBelow : left < modulus) (rightBelow : right < modulus)
    (same : (left : ZMod modulus) = right) : left = right := by
  have congruent := (ZMod.natCast_eq_natCast_iff' left right modulus).mp same
  rwa [Nat.mod_eq_of_lt leftBelow, Nat.mod_eq_of_lt rightBelow] at congruent

/-- The power by the prime less two is the inverse in the field. -/
theorem cast_inverse [Fact modulus.Prime] {value : Nat} (nonzero : (value : ZMod modulus) ≠ 0) :
    (inverse modulus value : ZMod modulus) = (value : ZMod modulus)⁻¹ := by
  have large : 2 ≤ modulus := (Fact.out : modulus.Prime).two_le
  rw [inverse, cast_power]
  apply eq_inv_of_mul_eq_one_left
  rw [← pow_succ, show modulus - 2 + 1 = modulus - 1 by omega]
  exact ZMod.pow_card_sub_one_eq_one nonzero

/-- Numbers without a common factor have an inverse, and it is found. -/
theorem inverse?_spec [NeZero modulus] {value : Nat} (coprime : Nat.Coprime value modulus) :
    ∃ found, inverse? modulus value = some found ∧ (value : ZMod modulus) * found = 1 := by
  have divisor : (euclid (value % modulus) modulus 1 0).1 = 1 := by
    rw [euclid_fst, ← Nat.gcd_rec, Nat.gcd_comm]
    exact coprime
  have inverted : inverse? modulus value = some _ := if_pos divisor
  refine ⟨_, inverted, ?_⟩
  have product := (ZMod.natCast_eq_natCast_iff' _ _ modulus).mpr
    (mul_inverse? (NeZero.pos modulus) inverted)
  rwa [Nat.cast_mul, Nat.cast_one] at product

end CredentialSigning.Residue
