import CredentialSigning.Proofs.Curve.Order
import Mathlib.GroupTheory.Perm.Cycle.Type
import Mathlib.GroupTheory.SpecificGroups.Cyclic.Basic

/-! The points of a curve are the multiples of its base point. Each first coordinate has at most two
points, so there are fewer points than three times the order of the base point, which divides their
number. It does not divide it twice, since no point is its own opposite: its first coordinate would
be a root of the cubic of the curve, and the cubic has none. -/

namespace CredentialSigning.Curve

namespace Domain

variable (d : Domain) [regular : d.IsRegular]

/-- A point by its first coordinate and the parity of its second. -/
def halved : d.Element → Option (ZMod d.prime × Bool)
  | .zero => none
  | .some x y _ => some (x, decide (y.val % 2 = 0))

/-- The modulus is odd, so of two opposite residues one is even and one is odd. -/
theorem val_neg_mod_two {y : ZMod d.prime} (nonzero : y ≠ 0) : (-y).val % 2 ≠ y.val % 2 := by
  have below := ZMod.val_lt y
  have odd := regular.prime.eq_two_or_odd.resolve_left regular.odd.ne'
  rw [ZMod.neg_val, if_neg nonzero]
  omega

theorem halved_injective : Function.Injective d.halved := by
  intro first second same
  cases first with
  | zero =>
    cases second with
    | zero => rfl
    | some x y point => cases same
  | some x₁ y₁ point₁ =>
    cases second with
    | zero => cases same
    | some x₂ y₂ point₂ =>
      simp only [halved, Option.some.injEq, Prod.mk.injEq, decide_eq_decide] at same
      obtain ⟨rfl, parity⟩ := same
      have equal : y₁ = y₂ := by
        by_contra different
        have opposite : y₁ = -y₂ := by
          have either := WeierstrassCurve.Affine.Y_eq_of_X_eq point₁.1 point₂.1 rfl
          simpa [WeierstrassCurve.Affine.negY, weierstrass] using either.resolve_left different
        have nonzero : y₂ ≠ 0 := by
          rintro rfl
          exact different (opposite.trans neg_zero)
        have parities := d.val_neg_mod_two nonzero
        rw [← opposite] at parities
        omega
      subst equal
      rfl

instance : Finite d.Element :=
  Finite.of_injective d.halved d.halved_injective

theorem card_le : Nat.card d.Element ≤ 2 * d.prime + 1 := by
  have two : Nat.card Bool = 2 := Nat.card_eq_fintype_card
  have bound := Nat.card_le_card_of_injective d.halved d.halved_injective
  rwa [Finite.card_option, Nat.card_prod, Nat.card_zmod, two, Nat.mul_comm] at bound

/-- A point that is its own opposite has a root of the cubic as its first coordinate. -/
theorem exists_root_of_two_nsmul {element : d.Element} (nonzero : element ≠ 0)
    (twice : 2 • element = 0) : ∃ x : ZMod d.prime, x ^ 3 + d.a * x + d.b = 0 := by
  cases element with
  | zero => exact absurd rfl nonzero
  | some x y point =>
    have self := eq_neg_of_add_eq_zero_left ((two_nsmul _).symm.trans twice)
    rw [WeierstrassCurve.Affine.Point.neg_some, WeierstrassCurve.Affine.Point.some.injEq] at self
    have vertical : (2 : ZMod d.prime) * y = 0 := by
      have opposite := self.2
      simp only [WeierstrassCurve.Affine.negY, weierstrass] at opposite
      linear_combination opposite
    have zero : y = 0 := (mul_eq_zero.mp vertical).resolve_left d.two_ne_zero
    have equation := (d.equation_iff x y).mp point.1
    rw [zero] at equation
    exact ⟨x, by linear_combination -equation⟩

end Domain

/-- A polynomial over the residues as far as its value at a root of the cubic goes. -/
structure Remainder where
  constant : Nat
  linear : Nat
  square : Nat
  deriving DecidableEq

namespace Remainder

def one : Remainder :=
  ⟨1, 0, 0⟩

def x : Remainder :=
  ⟨0, 1, 0⟩

/-- At a root, x³ has the value of -ax - b. -/
def mul (d : Domain) (left right : Remainder) : Remainder :=
  let third := (left.linear * right.square + left.square * right.linear) % d.prime
  let fourth := left.square * right.square % d.prime
  ⟨Residue.sub d.prime (left.constant * right.constant) (d.b * third),
    Residue.sub d.prime (left.constant * right.linear + left.linear * right.constant)
      (d.a * third + d.b * fourth),
    Residue.sub d.prime (left.constant * right.square + left.linear * right.linear +
      left.square * right.constant) (d.a * fourth)⟩

def sub (d : Domain) (left right : Remainder) : Remainder :=
  ⟨Residue.sub d.prime left.constant right.constant, Residue.sub d.prime left.linear right.linear,
    Residue.sub d.prime left.square right.square⟩

def power (d : Domain) (base : Remainder) (exponent : Nat) : Remainder :=
  Residue.ladder (fun reached => mul d reached reached) (mul d base) exponent
    (Residue.bitLength exponent) one

def value {d : Domain} (root : ZMod d.prime) (remainder : Remainder) : ZMod d.prime :=
  remainder.constant + remainder.linear * root + remainder.square * root ^ 2

section Value

variable {d : Domain} {root : ZMod d.prime}

@[simp] theorem value_one : value root one = 1 := by
  simp [value, one]

@[simp] theorem value_x : value root x = root := by
  simp [value, x]

variable [d.IsRegular]

@[simp] theorem value_sub (left right : Remainder) :
    value root (sub d left right) = value root left - value root right := by
  simp only [value, sub, Residue.cast_sub]
  ring

variable (isRoot : root ^ 3 + d.a * root + d.b = 0)
include isRoot

theorem value_mul (left right : Remainder) :
    value root (mul d left right) = value root left * value root right := by
  simp only [value, mul, Residue.cast_sub, Nat.cast_add, Nat.cast_mul, ZMod.natCast_mod]
  linear_combination -(left.linear * right.square + left.square * right.linear +
    left.square * right.square * root : ZMod d.prime) * isRoot

theorem value_power (base : Remainder) (exponent : Nat) :
    value root (power d base exponent) = value root base ^ exponent := by
  have reached := Residue.ladder_reaches
    (motive := fun count reached => value root reached = value root base ^ count)
    (fun reached => mul d reached reached) (mul d base)
    (fun count reached holds => by rw [value_mul isRoot, holds, ← pow_add, two_mul])
    (fun count reached holds => by rw [value_mul isRoot, holds, pow_succ'])
    exponent (Residue.bitLength exponent) 0 one (by rw [value_one, pow_zero])
  rwa [Nat.zero_mul, Nat.zero_add, Nat.mod_eq_of_lt (Residue.lt_two_pow_bitLength exponent)] at reached

end Value

/-- What every residue is a root of. -/
def fermat (d : Domain) : Remainder :=
  sub d (power d x d.prime) x

/-- Modulo the cubic the polynomials are a field with as many elements as the cube of the prime, and
the inverse is a power. -/
theorem mul_power_fermat (curve : Curve) : mul curve.domain (fermat curve.domain)
    (power curve.domain (fermat curve.domain) (curve.domain.prime ^ 3 - 2)) = one := by
  cases curve <;> decide +kernel

end Remainder

theorem cubic_ne_zero (curve : Curve) (x : ZMod curve.domain.prime) :
    x ^ 3 + curve.domain.a * x + curve.domain.b ≠ 0 := by
  intro isRoot
  have unit := congrArg (Remainder.value x) (Remainder.mul_power_fermat curve)
  rw [Remainder.value_mul isRoot, Remainder.fermat, Remainder.value_sub, Remainder.value_power isRoot,
    Remainder.value_x, ZMod.pow_card, sub_self, zero_mul, Remainder.value_one] at unit
  exact zero_ne_one unit

theorem two_not_dvd_card (curve : Curve) : ¬2 ∣ Nat.card curve.domain.Element := by
  intro even
  obtain ⟨element, order⟩ := exists_prime_addOrderOf_dvd_card' 2 even
  have nonzero : element ≠ 0 := by
    rintro rfl
    simp at order
  have twice : 2 • element = 0 := order ▸ addOrderOf_nsmul_eq_zero element
  obtain ⟨x, isRoot⟩ := curve.domain.exists_root_of_two_nsmul nonzero twice
  exact curve.cubic_ne_zero x isRoot

/-- There are as many points as the order of the base point says. -/
theorem card_element (curve : Curve) : Nat.card curve.domain.Element = curve.domain.order := by
  have few : 2 * curve.domain.prime + 1 < curve.domain.order * 3 := by
    cases curve <;> decide
  obtain ⟨count, card⟩ : curve.domain.order ∣ Nat.card curve.domain.Element := by
    rw [← curve.addOrderOf_generator]
    exact addOrderOf_dvd_natCard curve.domain.generator
  have below : count < 3 := by
    apply Nat.lt_of_mul_lt_mul_left (a := curve.domain.order)
    rw [← card]
    exact curve.domain.card_le.trans_lt few
  have odd := curve.two_not_dvd_card
  rw [card] at odd ⊢
  have one : count = 1 := by
    by_contra other
    apply odd
    apply dvd_mul_of_dvd_right
    omega
  rw [one, Nat.mul_one]

theorem exists_nsmul_generator (curve : Curve) (element : curve.domain.Element) :
    ∃ scalar : Nat, scalar • curve.domain.generator = element :=
  mem_multiples_of_prime_card curve.card_element
    (WeierstrassCurve.Affine.Point.some_ne_zero curve.domain.nonsingular_base)

/-- A point that satisfies the equation of the curve is an element of its group. -/
theorem exists_coordinates {curve : Curve} {point : Point} (onCurve : curve.domain.Contains point) :
    ∃ element, curve.domain.coordinates element = point := by
  cases point with
  | infinity => exact ⟨.zero, rfl⟩
  | affine x y =>
    obtain ⟨xBelow, yBelow, residues⟩ := onCurve
    have equation : (y : ZMod curve.domain.prime) ^ 2 =
        (x : ZMod curve.domain.prime) ^ 3 + curve.domain.a * x + curve.domain.b := by
      have cast := congrArg (Nat.cast (R := ZMod curve.domain.prime)) residues
      simp only [ZMod.natCast_mod, Nat.cast_mul, Nat.cast_add] at cast
      linear_combination cast
    have nonzero : (y : ZMod curve.domain.prime) ≠ 0 := by
      intro zero
      rw [zero] at equation
      exact curve.cubic_ne_zero x (by linear_combination -equation)
    refine ⟨.some x y (curve.domain.nonsingular_of_equation equation nonzero), ?_⟩
    rw [Domain.coordinates, ZMod.val_natCast_of_lt xBelow, ZMod.val_natCast_of_lt yBelow]

theorem exists_baseMultiple {curve : Curve} {point : Point} (onCurve : curve.domain.Contains point) :
    ∃ scalar, curve.domain.baseMultiple scalar = point := by
  obtain ⟨element, rfl⟩ := exists_coordinates onCurve
  obtain ⟨scalar, rfl⟩ := curve.exists_nsmul_generator element
  exact ⟨scalar, curve.domain.baseMultiple_eq scalar⟩

end CredentialSigning.Curve
