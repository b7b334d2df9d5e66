/-! Arithmetic on residues: natural numbers below a modulus. Powers are taken by repeated squaring
over the binary digits of the exponent, most significant first; multiples of a curve point use the
same ladder. -/

namespace CredentialSigning.Residue

/-- Reads the low `bits` binary digits of `scalar` from the top: every digit doubles, and a one also
takes a step. -/
def ladder {α : Type} (double step : α → α) (scalar : Nat) : Nat → α → α
  | 0, reached => reached
  | bits + 1, reached =>
    ladder double step scalar bits
      (if scalar.testBit bits then step (double reached) else double reached)

/-- The number of binary digits; zero has one. -/
def bitLength (value : Nat) : Nat :=
  value.log2 + 1

def sub (modulus left right : Nat) : Nat :=
  (left + (modulus - right % modulus)) % modulus

def mul (modulus left right : Nat) : Nat :=
  left * right % modulus

def square (modulus value : Nat) : Nat :=
  value * value % modulus

def power (modulus base exponent : Nat) : Nat :=
  ladder (square modulus) (mul modulus base) exponent (bitLength exponent) (1 % modulus)

/-- The inverse modulo a prime, as the power by the prime less two. -/
def inverse (prime value : Nat) : Nat :=
  power prime value (prime - 2)

/-- Euclid's algorithm on two remainders, each with its coefficient of one starting value. -/
def euclid (former current : Nat) (formerFactor factor : Int) : Nat × Int :=
  if current = 0 then (former, formerFactor)
  else euclid current (former % current) factor (formerFactor - (former / current : Nat) * factor)
termination_by current
decreasing_by exact Nat.mod_lt _ (by omega)

/-- The inverse modulo any modulus, if the value has no factor in common with it. -/
def inverse? (modulus value : Nat) : Option Nat :=
  let (divisor, factor) := euclid (value % modulus) modulus 1 0
  if divisor = 1 then some (factor % modulus).toNat else none

theorem euclid_fst (former current : Nat) (formerFactor factor : Int) :
    (euclid former current formerFactor factor).1 = Nat.gcd former current := by
  induction former, current, formerFactor, factor using euclid.induct with
  | case1 former formerFactor factor => rw [euclid, if_pos rfl, Nat.gcd_zero_right]
  | case2 former current formerFactor factor positive hypothesis =>
    rw [euclid, if_neg positive, hypothesis, Nat.gcd_comm, ← Nat.gcd_rec, Nat.gcd_comm]

/-- Each remainder stays the multiple of the starting value that its coefficient says, up to a
modulus. -/
theorem dvd_euclid (value modulus : Int) (former current : Nat) (formerFactor factor : Int)
    (formerSays : modulus ∣ formerFactor * value - former)
    (currentSays : modulus ∣ factor * value - current) :
    modulus ∣ (euclid former current formerFactor factor).2 * value -
      (euclid former current formerFactor factor).1 := by
  induction former, current, formerFactor, factor using euclid.induct with
  | case1 former formerFactor factor =>
    rw [euclid, if_pos rfl]
    exact formerSays
  | case2 former current formerFactor factor positive hypothesis =>
    rw [euclid, if_neg positive]
    refine hypothesis currentSays ?_
    have whole : ((former % current : Nat) : Int) =
        former - (former / current : Nat) * current := by
      have := Nat.div_add_mod former current
      rw [Nat.mul_comm] at this
      omega
    have scaled : modulus ∣ (former / current : Nat) * (factor * value - current) :=
      Int.dvd_mul_of_dvd_right currentSays
    have same : (formerFactor - (former / current : Nat) * factor) * value -
        (former - (former / current : Nat) * current) =
        formerFactor * value - former -
          (former / current : Nat) * (factor * value - current) := by
      rw [Int.sub_mul, Int.mul_sub, Int.mul_assoc]
      omega
    rw [whole, same]
    exact Int.dvd_sub formerSays scaled

theorem mul_inverse? {modulus value found : Nat} (positive : 0 < modulus)
    (inverted : inverse? modulus value = some found) : value * found % modulus = 1 % modulus := by
  have combination := dvd_euclid (value % modulus : Nat) modulus (value % modulus) modulus 1 0
    (by simp) (by simp)
  unfold inverse? at inverted
  generalize euclid (value % modulus) modulus 1 0 = last at combination inverted
  obtain ⟨divisor, factor⟩ := last
  simp only at combination inverted
  split at inverted
  · rename_i one
    cases inverted
    have residue : ((factor % modulus).toNat : Int) = factor % modulus :=
      Int.toNat_of_nonneg (Int.emod_nonneg _ (by omega))
    have equal := Int.emod_eq_emod_iff_emod_sub_eq_zero.mpr (Int.emod_eq_zero_of_dvd combination)
    apply Int.ofNat_inj.mp
    rw [one] at equal
    push_cast at equal ⊢
    rw [residue, Int.mul_emod, Int.emod_emod_of_dvd _ (Int.dvd_refl _), Int.mul_comm,
      ← equal, Int.mul_emod factor, Int.emod_emod_of_dvd _ (Int.dvd_refl _)]
  · cases inverted

end CredentialSigning.Residue
