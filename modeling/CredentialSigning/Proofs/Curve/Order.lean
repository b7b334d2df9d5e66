import CredentialSigning.Proofs.Curve.Group
import CredentialSigning.Proofs.Curve.Primes
import Mathlib.GroupTheory.OrderOfElement

/-! The base point of each curve has the prime order of its domain, so multiples of the base point
stand for scalars modulo the order. -/

namespace CredentialSigning.Curve

instance (curve : Curve) : curve.domain.IsRegular where
  prime := curve.prime_prime
  odd := by cases curve <;> decide +kernel
  baseX := curve.domain_contains_base.1
  baseY := curve.domain_contains_base.2.1
  positive := by cases curve <;> decide +kernel
  equation := curve.domain_contains_base.2.2

instance (curve : Curve) : Fact curve.domain.order.Prime :=
  ⟨curve.prime_order⟩

theorem Domain.coordinates_injective (d : Domain) [d.IsRegular] :
    Function.Injective d.coordinates := by
  intro first second same
  cases first with
  | zero =>
    cases second with
    | zero => rfl
    | some x y point => simp [coordinates] at same
  | some x₁ y₁ point₁ =>
    cases second with
    | zero => simp [coordinates] at same
    | some x₂ y₂ point₂ =>
      simp only [coordinates, Point.affine.injEq] at same
      have sameX : x₁ = x₂ := ZMod.val_injective _ same.1
      have sameY : y₁ = y₂ := ZMod.val_injective _ same.2
      subst sameX sameY
      rfl

theorem baseMultiple_order (curve : Curve) :
    curve.domain.baseMultiple curve.domain.order = .infinity := by
  cases curve <;> decide +kernel

theorem order_nsmul_generator (curve : Curve) :
    curve.domain.order • curve.domain.generator = 0 := by
  apply curve.domain.coordinates_injective
  rw [← Domain.baseMultiple_eq, baseMultiple_order]
  rfl

theorem addOrderOf_generator (curve : Curve) :
    addOrderOf curve.domain.generator = curve.domain.order :=
  addOrderOf_eq_prime curve.order_nsmul_generator
    (WeierstrassCurve.Affine.Point.some_ne_zero curve.domain.nonsingular_base)

theorem nsmul_generator_eq_iff (curve : Curve) (first second : Nat) :
    first • curve.domain.generator = second • curve.domain.generator ↔
      (first : ZMod curve.domain.order) = second := by
  rw [nsmul_eq_nsmul_iff_modEq, addOrderOf_generator, ZMod.natCast_eq_natCast_iff]

theorem baseMultiple_eq_iff (curve : Curve) (first second : Nat) :
    curve.domain.baseMultiple first = curve.domain.baseMultiple second ↔
      (first : ZMod curve.domain.order) = second := by
  rw [Domain.baseMultiple_eq, Domain.baseMultiple_eq, curve.domain.coordinates_injective.eq_iff,
    nsmul_generator_eq_iff]

/-- Only multiples of the order lead to the neutral element. -/
theorem baseMultiple_eq_infinity_iff (curve : Curve) (scalar : Nat) :
    curve.domain.baseMultiple scalar = .infinity ↔ (scalar : ZMod curve.domain.order) = 0 := by
  rw [← curve.baseMultiple_order, baseMultiple_eq_iff, ZMod.natCast_self]

end CredentialSigning.Curve
