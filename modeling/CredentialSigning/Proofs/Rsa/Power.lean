import CredentialSigning.Proofs.Arithmetic.Modular
import CredentialSigning.Rsa.Sign

/-! The power by the secret exponent, which is taken modulo each factor and put together. It is below
the modulus for every key. For a key with two different prime factors it is the plain power, blinding
does not change it, and the public exponent undoes it. -/

namespace CredentialSigning.Rsa.PrivateKey

theorem modulus_pos (key : PrivateKey) : 0 < key.modulus :=
  (Nat.zero_le key.exponent).trans_lt key.admissible.exponent_below_modulus

theorem secretPower_lt (key : PrivateKey) (base : Nat) : key.secretPower base < key.modulus := by
  have first : NeZero key.p := ⟨(Nat.zero_lt_of_lt key.admissible.factor_p).ne'⟩
  have second : NeZero key.q := ⟨(Nat.zero_lt_of_lt key.admissible.factor_q).ne'⟩
  have whole : NeZero key.modulus := ⟨key.modulus_pos.ne'⟩
  unfold secretPower
  split
  · rename_i inverse found
    have low : Residue.power key.q base (key.secret % (key.q - 1)) < key.q :=
      Residue.power_lt _ _
    have high : ∀ value, Residue.mul key.p value inverse < key.p := fun _ => Residue.mul_lt _ _
    have product := key.admissible.product
    calc
      _ < key.q + key.q * Residue.mul key.p _ inverse := Nat.add_lt_add_right low _
      _ = key.q * (Residue.mul key.p _ inverse + 1) := by ring
      _ ≤ key.q * key.p := Nat.mul_le_mul_left _ (high _)
      _ = key.modulus := by rw [mul_comm, product]
  · exact Residue.power_lt _ _

theorem blindedPower_lt (key : PrivateKey) (blinding : Blinding key.modulus) (base : Nat) :
    key.blindedPower blinding base < key.modulus :=
  Nat.mod_lt _ key.modulus_pos

theorem pow_mod_card_sub_one {prime exponent : Nat} [Fact prime.Prime]
    (nonzero : exponent % (prime - 1) ≠ 0) (element : ZMod prime) :
    element ^ (exponent % (prime - 1)) = element ^ exponent := by
  by_cases zero : element = 0
  · have positive : exponent ≠ 0 := by
      rintro rfl
      exact nonzero (Nat.zero_mod _)
    rw [zero, zero_pow nonzero, zero_pow positive]
  · have fermat := ZMod.pow_card_sub_one_eq_one zero
    conv_rhs => rw [← Nat.mod_add_div exponent (prime - 1), pow_add, pow_mul, fermat, one_pow, mul_one]

section Prime

variable {prime exponent secret : Nat} (inverse : secret * exponent % (prime - 1) = 1)
include inverse

theorem secret_mod_ne_zero : secret % (prime - 1) ≠ 0 := by
  intro zero
  rw [Nat.mul_mod, zero, Nat.zero_mul, Nat.zero_mod] at inverse
  exact zero_ne_one inverse

variable [Fact prime.Prime]

/-- Exponents that are inverse to each other modulo the prime less one undo each other. -/
theorem pow_secret_pow_exponent (element : ZMod prime) : (element ^ secret) ^ exponent = element := by
  have nonzero : secret * exponent % (prime - 1) ≠ 0 := by
    rw [inverse]
    exact one_ne_zero
  rw [← pow_mul, ← pow_mod_card_sub_one nonzero, inverse, pow_one]

theorem pow_exponent_injective {first second : ZMod prime}
    (same : first ^ exponent = second ^ exponent) : first = second := by
  have undo := pow_secret_pow_exponent inverse
  rw [← undo first, ← undo second, pow_right_comm first, pow_right_comm second, same]

end Prime

/-- A prime modulo which the power that is put together is the plain one, and modulo which the two
exponents undo each other. -/
structure IsFactor (key : PrivateKey) (factor : Nat) : Prop where
  prime : factor.Prime
  divides : factor ∣ key.modulus
  inverse : key.secret * key.exponent % (factor - 1) = 1
  agrees : ∀ base, (key.secretPower base : ZMod factor) = (base : ZMod factor) ^ key.secret

variable {key : PrivateKey} (primeP : key.p.Prime) (primeQ : key.q.Prime) (different : key.p ≠ key.q)
include primeP primeQ different

theorem isFactor_p : key.IsFactor key.p := by
  have factP : Fact key.p.Prime := ⟨primeP⟩
  have coprime : Nat.Coprime key.q key.p := (Nat.coprime_primes primeQ primeP).mpr different.symm
  obtain ⟨inverse, found, unit⟩ := Residue.inverse?_spec coprime
  refine ⟨primeP, ⟨key.q, key.admissible.product.symm⟩, key.admissible.inverse_p, ?_⟩
  intro base
  have modP := pow_mod_card_sub_one (secret_mod_ne_zero key.admissible.inverse_p) (base : ZMod key.p)
  simp only [secretPower, found, Nat.cast_add, Nat.cast_mul]
  rw [Residue.cast_mul, Residue.cast_sub, Residue.cast_power, modP]
  linear_combination
    ((base : ZMod key.p) ^ key.secret -
      (Residue.power key.q base (key.secret % (key.q - 1)) : ZMod key.p)) * unit

theorem isFactor_q : key.IsFactor key.q := by
  have factP : NeZero key.p := ⟨primeP.ne_zero⟩
  have factQ : Fact key.q.Prime := ⟨primeQ⟩
  have coprime : Nat.Coprime key.q key.p := (Nat.coprime_primes primeQ primeP).mpr different.symm
  obtain ⟨inverse, found, -⟩ := Residue.inverse?_spec coprime
  refine ⟨primeQ, ⟨key.p, ?_⟩, key.admissible.inverse_q, ?_⟩
  · rw [mul_comm, key.admissible.product]
  · intro base
    have modQ := pow_mod_card_sub_one (secret_mod_ne_zero key.admissible.inverse_q) (base : ZMod key.q)
    simp only [secretPower, found, Nat.cast_add, Nat.cast_mul]
    rw [Residue.cast_power, modQ, ZMod.natCast_self, zero_mul, add_zero]

/-- What is equal modulo both factors is equal. -/
theorem eq_of_factors {first second : Nat} (firstBelow : first < key.modulus)
    (secondBelow : second < key.modulus)
    (same : ∀ factor, key.IsFactor factor → (first : ZMod factor) = second) : first = second := by
  have coprime : Nat.Coprime key.p key.q := (Nat.coprime_primes primeP primeQ).mpr different
  have sameP := same key.p (isFactor_p primeP primeQ different)
  have sameQ := same key.q (isFactor_q primeP primeQ different)
  rw [ZMod.natCast_eq_natCast_iff] at sameP sameQ
  have congruent := (Nat.modEq_and_modEq_iff_modEq_mul coprime).mp ⟨sameP, sameQ⟩
  rw [key.admissible.product] at congruent
  exact Nat.ModEq.eq_of_lt_of_lt congruent firstBelow secondBelow

/-- What is put together from the powers modulo the factors is the plain power. -/
theorem secretPower_eq (base : Nat) : key.secretPower base = base ^ key.secret % key.modulus := by
  apply eq_of_factors primeP primeQ different (key.secretPower_lt base) (Nat.mod_lt _ key.modulus_pos)
  intro factor isFactor
  rw [isFactor.agrees, Residue.cast_mod_of_dvd isFactor.divides, Nat.cast_pow]

/-- The public exponent undoes the secret one. -/
theorem power_secretPower {base : Nat} (below : base < key.modulus) :
    Residue.power key.modulus (key.secretPower base) key.exponent = base := by
  have positive : NeZero key.modulus := ⟨key.modulus_pos.ne'⟩
  apply eq_of_factors primeP primeQ different (Residue.power_lt _ _) below
  intro factor isFactor
  have fact : Fact factor.Prime := ⟨isFactor.prime⟩
  rw [Residue.cast_power_of_dvd isFactor.divides, isFactor.agrees,
    pow_secret_pow_exponent isFactor.inverse]

theorem power_injective {first second : Nat} (firstBelow : first < key.modulus)
    (secondBelow : second < key.modulus)
    (same : Residue.power key.modulus first key.exponent =
      Residue.power key.modulus second key.exponent) : first = second := by
  apply eq_of_factors primeP primeQ different firstBelow secondBelow
  intro factor isFactor
  have fact : Fact factor.Prime := ⟨isFactor.prime⟩
  have elements := congrArg (Nat.cast : Nat → ZMod factor) same
  rw [Residue.cast_power_of_dvd isFactor.divides, Residue.cast_power_of_dvd isFactor.divides]
    at elements
  exact pow_exponent_injective isFactor.inverse elements

/-- The blinding leaves no trace in the power. -/
theorem blindedPower_eq (blinding : Blinding key.modulus) (base : Nat) :
    key.blindedPower blinding base = key.secretPower base := by
  apply eq_of_factors primeP primeQ different (key.blindedPower_lt blinding base)
    (key.secretPower_lt base)
  intro factor isFactor
  have fact : Fact factor.Prime := ⟨isFactor.prime⟩
  have undone := congrArg (Nat.cast : Nat → ZMod factor) blinding.undone
  rw [Residue.cast_mod_of_dvd isFactor.divides, Residue.cast_mod_of_dvd isFactor.divides,
    Nat.cast_mul, Nat.cast_one] at undone
  have cancelled := pow_secret_pow_exponent isFactor.inverse (blinding.factor : ZMod factor)
  have hidden : (Residue.mul key.modulus base
      (Residue.power key.modulus blinding.factor key.exponent) : ZMod factor) =
      base * (blinding.factor : ZMod factor) ^ key.exponent := by
    rw [Residue.mul, Residue.cast_mod_of_dvd isFactor.divides, Nat.cast_mul,
      Residue.cast_power_of_dvd isFactor.divides]
  calc
    (key.blindedPower blinding base : ZMod factor)
      = (base * (blinding.factor : ZMod factor) ^ key.exponent) ^ key.secret * blinding.inverse := by
        rw [blindedPower, Residue.mul, Residue.cast_mod_of_dvd isFactor.divides, Nat.cast_mul,
          isFactor.agrees, hidden]
    _ = (base : ZMod factor) ^ key.secret * (blinding.factor * blinding.inverse) := by
        rw [mul_pow, pow_right_comm, cancelled, mul_assoc]
    _ = (base : ZMod factor) ^ key.secret := by rw [undone, mul_one]
    _ = (key.secretPower base : ZMod factor) := (isFactor.agrees base).symm

end CredentialSigning.Rsa.PrivateKey
