import CredentialSigning.Proofs.Arithmetic.Modular
import Mathlib.Algebra.BigOperators.Associated

/-! Primality of large numbers by Pocklington's criterion. A number is prime if primes whose product
exceeds its square root divide the number less one, and two passes Fermat's test with an order that
every one of these primes divides. A certificate is a list of such steps, each of which may use the
primes of the steps before it. -/

namespace CredentialSigning.Primality

/-- A number and some prime factors of the number less one. -/
structure Step where
  number : Nat
  factors : List Nat

namespace Step

/-- Whether a step proves its number prime, given the primes that are known already. -/
def passes (known : List Nat) (step : Step) : Bool :=
  let power := Residue.power step.number 2
  1 < step.number && step.number < step.factors.prod ^ 2 && decide step.factors.Nodup &&
    power (step.number - 1) = 1 &&
    step.factors.all fun factor =>
      factor ∈ known && factor ∣ step.number - 1 &&
        Nat.Coprime (power ((step.number - 1) / factor) + (step.number - 1)) step.number

end Step

def checks : List Nat → List Step → Bool
  | _, [] => true
  | known, step :: steps => step.passes known && checks (step.number :: known) steps

/-- An exponent that annihilates an element, but no longer does when a prime is taken out of it,
has this prime in common with the element's order. -/
theorem prime_dvd_orderOf {G : Type*} [Monoid G] {element : G} {exponent prime : Nat}
    (isPrime : prime.Prime) (divides : prime ∣ exponent) (annihilated : element ^ exponent = 1)
    (kept : element ^ (exponent / prime) ≠ 1) : prime ∣ orderOf element := by
  by_contra foreign
  apply kept
  apply orderOf_dvd_iff_pow_eq_one.mp
  have order : orderOf element ∣ prime * (exponent / prime) := by
    rw [Nat.mul_div_cancel' divides]
    exact orderOf_dvd_of_pow_eq_one annihilated
  exact ((isPrime.coprime_iff_not_dvd.mpr foreign).symm).dvd_of_dvd_mul_left order

/-- A power that stays coprime to the number when one is subtracted is not one modulo any divisor. -/
theorem pow_ne_one_of_coprime {number divisor base exponent : Nat} (divides : divisor ∣ number)
    (isPrime : divisor.Prime) (positive : 0 < number)
    (coprime : Nat.Coprime (Residue.power number base exponent + (number - 1)) number) :
    (base : ZMod divisor) ^ exponent ≠ 1 := by
  intro isOne
  have vanishes : ((Residue.power number base exponent + (number - 1) : Nat) : ZMod divisor) = 0 := by
    have whole : (number : ZMod divisor) = 0 := (ZMod.natCast_eq_zero_iff _ _).mpr divides
    rw [Nat.cast_add, Residue.cast_power_of_dvd divides, isOne, Nat.cast_sub positive, whole]
    simp
  have common := Nat.dvd_gcd ((ZMod.natCast_eq_zero_iff _ _).mp vanishes) divides
  rw [coprime] at common
  exact isPrime.one_lt.ne' (Nat.dvd_one.mp common)

/-- The primes of a passing step divide every prime divisor of its number, less one. -/
theorem Step.factor_dvd {known : List Nat} {step : Step} (passes : step.passes known = true)
    (primes : ∀ factor ∈ known, factor.Prime) {divisor : Nat} (isPrime : divisor.Prime)
    (divides : divisor ∣ step.number) : ∀ factor ∈ step.factors, factor ∣ divisor - 1 := by
  intro factor member
  simp only [Step.passes, Bool.and_eq_true, decide_eq_true_eq, List.all_eq_true] at passes
  obtain ⟨⟨⟨⟨above, -⟩, -⟩, fermat⟩, each⟩ := passes
  obtain ⟨⟨isKnown, isFactor⟩, coprime⟩ := each factor member
  have : Fact divisor.Prime := ⟨isPrime⟩
  have kept := pow_ne_one_of_coprime divides isPrime (by omega) coprime
  have annihilated : ((2 : Nat) : ZMod divisor) ^ (step.number - 1) = 1 := by
    rw [← Residue.cast_power_of_dvd divides, fermat, Nat.cast_one]
  have order := prime_dvd_orderOf (primes factor isKnown) isFactor annihilated kept
  refine order.trans (ZMod.orderOf_dvd_card_sub_one ?_)
  intro zero
  rw [zero, zero_pow (by omega)] at annihilated
  exact zero_ne_one annihilated

/-- A number that is not prime has a prime divisor up to its square root, and this one would be
larger than the product of the factors. -/
theorem Step.prime {known : List Nat} {step : Step} (passes : step.passes known = true)
    (primes : ∀ factor ∈ known, factor.Prime) : step.number.Prime := by
  have conditions := passes
  simp only [Step.passes, Bool.and_eq_true, decide_eq_true_eq, List.all_eq_true] at conditions
  obtain ⟨⟨⟨⟨above, large⟩, distinct⟩, -⟩, each⟩ := conditions
  by_contra composite
  have least : step.number.minFac.Prime := Nat.minFac_prime (by omega)
  have product : step.factors.prod ∣ step.number.minFac - 1 := by
    have whole := List.prod_toFinset id distinct
    rw [List.map_id] at whole
    rw [← whole]
    apply Finset.prod_primes_dvd
    · intro factor member
      exact (primes factor (each factor (List.mem_toFinset.mp member)).1.1).prime
    · intro factor member
      exact Step.factor_dvd passes primes least (Nat.minFac_dvd _) factor
        (List.mem_toFinset.mp member)
  have bound := Nat.le_of_dvd (by have := least.one_lt; omega) product
  have square := Nat.minFac_sq_le_self (by omega) composite
  have larger : step.factors.prod ^ 2 ≤ step.number.minFac ^ 2 := Nat.pow_le_pow_left (by omega) 2
  omega

theorem prime_of_checks {known : List Nat} {steps : List Step}
    (primes : ∀ factor ∈ known, factor.Prime) (passes : checks known steps = true) :
    ∀ step ∈ steps, step.number.Prime := by
  induction steps generalizing known with
  | nil => simp
  | cons first rest hypothesis =>
    simp only [checks, Bool.and_eq_true] at passes
    have firstPrime := Step.prime passes.1 primes
    intro step member
    rcases List.mem_cons.mp member with same | later
    · rw [same]
      exact firstPrime
    · apply hypothesis ?_ passes.2 step later
      intro factor known
      rcases List.mem_cons.mp known with same | earlier
      · rw [same]
        exact firstPrime
      · exact primes factor earlier

end CredentialSigning.Primality
