import CredentialSigning.Curve.Jacobian
import CredentialSigning.Proofs.Arithmetic.Modular
import Mathlib.AlgebraicGeometry.EllipticCurve.Affine.Point
import Mathlib.Tactic.FieldSimp
import Mathlib.Tactic.LinearCombination

/-! The arithmetic on triples is the group law of the curve. A triple represents an element of the
group of points over the field, and doubling, addition, the ladder and the final division keep what
is represented in step with the group. -/

namespace CredentialSigning.Curve

namespace Domain

/-- The curve over the field of residues. -/
def weierstrass (d : Domain) : WeierstrassCurve.Affine (ZMod d.prime) where
  a₁ := 0
  a₂ := 0
  a₃ := 0
  a₄ := d.a
  a₆ := d.b

/-- The points of the curve with their group law. -/
abbrev Element (d : Domain) : Type :=
  WeierstrassCurve.Affine.Point d.weierstrass

/-- The coordinates of a point as residues. -/
def coordinates (d : Domain) : d.Element → Point
  | .zero => .infinity
  | .some x y _ => .affine x.val y.val

/-- What the arithmetic needs of the field and the base point. -/
class IsRegular (d : Domain) : Prop where
  prime : d.prime.Prime
  odd : 2 < d.prime
  baseX : d.baseX < d.prime
  baseY : d.baseY < d.prime
  positive : 0 < d.baseY
  equation : d.baseY * d.baseY % d.prime =
    (d.baseX * d.baseX * d.baseX + d.a * d.baseX + d.b) % d.prime

variable (d : Domain) [regular : d.IsRegular]

instance : Fact d.prime.Prime :=
  ⟨regular.prime⟩

theorem two_ne_zero : (2 : ZMod d.prime) ≠ 0 := by
  have cast := Residue.cast_eq_zero_iff regular.odd
  rw [Nat.cast_ofNat] at cast
  exact fun zero => absurd (cast.mp zero) (by decide)

theorem equation_iff (x y : ZMod d.prime) :
    d.weierstrass.Equation x y ↔ y ^ 2 = x ^ 3 + d.a * x + d.b := by
  rw [WeierstrassCurve.Affine.equation_iff]
  simp [weierstrass]

/-- Only where y is zero may the tangent have no direction. -/
theorem nonsingular_of_equation {x y : ZMod d.prime} (equation : y ^ 2 = x ^ 3 + d.a * x + d.b)
    (nonzero : y ≠ 0) : d.weierstrass.Nonsingular x y := by
  rw [WeierstrassCurve.Affine.nonsingular_iff, equation_iff]
  refine ⟨equation, .inr ?_⟩
  simp only [weierstrass]
  intro same
  have twice : (2 : ZMod d.prime) * y = 0 := by linear_combination same
  exact nonzero ((mul_eq_zero.mp twice).resolve_left d.two_ne_zero)

theorem nonsingular_base : d.weierstrass.Nonsingular d.baseX d.baseY := by
  have equation := congrArg (Nat.cast (R := ZMod d.prime)) regular.equation
  simp only [ZMod.natCast_mod, Nat.cast_mul, Nat.cast_add] at equation
  apply d.nonsingular_of_equation
  · linear_combination equation
  · rw [Ne, Residue.cast_eq_zero_iff regular.baseY]
    exact regular.positive.ne'

def generator : d.Element :=
  .some d.baseX d.baseY d.nonsingular_base

end Domain

namespace Jacobian

/-- What a triple stands for. Only the last coordinate has to be a residue, since it is compared with
zero as a number. -/
def Represents {d : Domain} (triple : Jacobian) : d.Element → Prop
  | .zero => triple.z = 0
  | .some x y _ => triple.z < d.prime ∧ triple.z ≠ 0 ∧
      (triple.x : ZMod d.prime) = x * triple.z ^ 2 ∧ (triple.y : ZMod d.prime) = y * triple.z ^ 3

theorem represents_infinity (d : Domain) : infinity.Represents (d := d) .zero :=
  rfl

variable {d : Domain} [regular : d.IsRegular]

theorem represents_ofPoint (element : d.Element) :
    Represents (.ofPoint (d.coordinates element)) element := by
  cases element with
  | zero => rfl
  | some x y point =>
    have large := regular.odd
    refine ⟨?_, one_ne_zero, ?_, ?_⟩
    · change 1 < d.prime
      omega
    · simp [Domain.coordinates, ofPoint]
    · simp [Domain.coordinates, ofPoint]

theorem cast_z_ne_zero {triple : Jacobian} (below : triple.z < d.prime) (nonzero : triple.z ≠ 0) :
    (triple.z : ZMod d.prime) ≠ 0 := by
  rwa [Ne, Residue.cast_eq_zero_iff below]

/-- Reading off the coordinates divides by the powers of the last one. -/
theorem toPoint_of_represents {triple : Jacobian} {element : d.Element}
    (represents : triple.Represents element) : triple.toPoint d = d.coordinates element := by
  cases element with
  | zero =>
    have zero : triple.z = 0 := represents
    rw [toPoint, if_pos zero]
    rfl
  | some x y point =>
    obtain ⟨below, nonzero, first, second⟩ := represents
    have unit := cast_z_ne_zero below nonzero
    have scale := Residue.cast_inverse unit
    rw [toPoint, if_neg nonzero]
    simp only [Domain.coordinates, Point.affine.injEq]
    constructor
    · apply Residue.eq_of_cast_eq (Residue.mul_lt _ _) (ZMod.val_lt x)
      rw [Residue.cast_mul, Residue.cast_square, scale, first, ZMod.natCast_zmod_val]
      field_simp
    · apply Residue.eq_of_cast_eq (Residue.mul_lt _ _) (ZMod.val_lt y)
      rw [Residue.cast_mul, Residue.cast_mul, Residue.cast_square, scale, second,
        ZMod.natCast_zmod_val]
      field_simp

theorem cast_double_x (triple : Jacobian) :
    ((double d triple).x : ZMod d.prime) =
      (3 * triple.x ^ 2 + d.a * triple.z ^ 4) ^ 2 - 8 * triple.x * triple.y ^ 2 := by
  simp only [double, Residue.cast_sub, Residue.cast_square, Residue.cast_mul, ZMod.natCast_mod,
    Nat.cast_mul, Nat.cast_add, Nat.cast_ofNat]
  ring

theorem cast_double_y (triple : Jacobian) :
    ((double d triple).y : ZMod d.prime) =
      (3 * triple.x ^ 2 + d.a * triple.z ^ 4) *
        (4 * triple.x * triple.y ^ 2 - (double d triple).x) - 8 * triple.y ^ 4 := by
  rw [cast_double_x]
  simp only [double, Residue.cast_sub, Residue.cast_square, Residue.cast_mul, ZMod.natCast_mod,
    Nat.cast_mul, Nat.cast_add, Nat.cast_ofNat]
  ring

theorem cast_double_z (triple : Jacobian) :
    ((double d triple).z : ZMod d.prime) = 2 * triple.y * triple.z := by
  simp only [double, Residue.cast_mul, Nat.cast_mul, Nat.cast_ofNat]

theorem double_z_lt (triple : Jacobian) : (double d triple).z < d.prime :=
  Residue.mul_lt _ _

/-- Doubling a triple doubles what it represents. A point with y = 0 is its own negative. -/
theorem represents_double {triple : Jacobian} {element : d.Element}
    (represents : triple.Represents element) :
    (double d triple).Represents (element + element) := by
  cases element with
  | zero =>
    have zero : triple.z = 0 := represents
    change (double d triple).z = 0
    rw [← Residue.cast_eq_zero_iff (double_z_lt (d := d) triple), cast_double_z, zero]
    simp
  | some x y point =>
    obtain ⟨below, nonzero, first, second⟩ := represents
    have unit := cast_z_ne_zero below nonzero
    have last := cast_double_z (d := d) triple
    rw [second] at last
    by_cases vertical : y = 0
    · have opposite : y = d.weierstrass.negY x y := by
        simp [WeierstrassCurve.Affine.negY, Domain.weierstrass, vertical]
      rw [WeierstrassCurve.Affine.Point.add_self_of_Y_eq opposite]
      change (double d triple).z = 0
      rw [← Residue.cast_eq_zero_iff (double_z_lt (d := d) triple), last, vertical]
      ring
    · have two := d.two_ne_zero
      have twice : 2 * y ≠ 0 := mul_ne_zero two vertical
      have distinct : y ≠ d.weierstrass.negY x y := by
        intro same
        simp only [WeierstrassCurve.Affine.negY, Domain.weierstrass] at same
        exact twice (by linear_combination same)
      have slope : d.weierstrass.slope x x y y = (3 * x ^ 2 + d.a) / (2 * y) := by
        rw [WeierstrassCurve.Affine.slope_of_Y_ne rfl distinct]
        simp only [WeierstrassCurve.Affine.negY, Domain.weierstrass]
        congr 1 <;> ring
      have lastNonzero : ((double d triple).z : ZMod d.prime) ≠ 0 := by
        rw [last, show 2 * (y * (triple.z : ZMod d.prime) ^ 3) * triple.z =
          2 * y * (triple.z : ZMod d.prime) ^ 4 by ring]
        exact mul_ne_zero twice (pow_ne_zero 4 unit)
      rw [WeierstrassCurve.Affine.Point.add_self_of_Y_ne distinct]
      refine ⟨double_z_lt triple, ?_, ?_, ?_⟩
      · exact fun zero => lastNonzero (by rw [zero, Nat.cast_zero])
      · rw [cast_double_x, last, first, second, slope]
        simp only [WeierstrassCurve.Affine.addX, Domain.weierstrass]
        field_simp
        ring
      · rw [cast_double_y, cast_double_x, last, first, second, slope]
        simp only [WeierstrassCurve.Affine.addX, WeierstrassCurve.Affine.addY,
          WeierstrassCurve.Affine.negAddY, WeierstrassCurve.Affine.negY, Domain.weierstrass]
        field_simp
        ring

/-- The difference of the first coordinates, brought to a common denominator. -/
def crossX (d : Domain) (left right : Jacobian) : Nat :=
  Residue.sub d.prime (Residue.mul d.prime right.x (Residue.square d.prime left.z))
    (Residue.mul d.prime left.x (Residue.square d.prime right.z))

def crossY (d : Domain) (left right : Jacobian) : Nat :=
  Residue.sub d.prime
    (Residue.mul d.prime right.y
      (Residue.mul d.prime (Residue.square d.prime left.z) left.z))
    (Residue.mul d.prime left.y
      (Residue.mul d.prime (Residue.square d.prime right.z) right.z))

/-- The sum of points with different first coordinates. -/
def chord (d : Domain) (left right : Jacobian) : Jacobian :=
  let p := d.prime
  let h := crossX d left right
  let r := crossY d left right
  let hh := Residue.square p h
  let hhh := Residue.mul p hh h
  let v := Residue.mul p (Residue.mul p left.x (Residue.square p right.z)) hh
  let s := Residue.mul p left.y (Residue.mul p (Residue.square p right.z) right.z)
  let x := Residue.sub p (Residue.square p r) (hhh + 2 * v)
  ⟨x, Residue.sub p (Residue.mul p r (Residue.sub p v x)) (Residue.mul p s hhh),
    Residue.mul p h (Residue.mul p left.z right.z)⟩

theorem add_eq (d : Domain) (left right : Jacobian) : add d left right =
    if left.z = 0 then right
    else if right.z = 0 then left
    else if crossX d left right = 0 then
      if crossY d left right = 0 then double d left else infinity
    else chord d left right :=
  rfl

theorem crossX_lt (left right : Jacobian) : crossX d left right < d.prime :=
  Residue.sub_lt _ _

theorem crossY_lt (left right : Jacobian) : crossY d left right < d.prime :=
  Residue.sub_lt _ _

theorem cast_crossX (left right : Jacobian) : (crossX d left right : ZMod d.prime) =
    right.x * left.z ^ 2 - left.x * right.z ^ 2 := by
  simp only [crossX, Residue.cast_sub, Residue.cast_mul, Residue.cast_square]

theorem cast_crossY (left right : Jacobian) : (crossY d left right : ZMod d.prime) =
    right.y * left.z ^ 3 - left.y * right.z ^ 3 := by
  simp only [crossY, Residue.cast_sub, Residue.cast_mul, Residue.cast_square]
  ring

theorem cast_chord_x (left right : Jacobian) : ((chord d left right).x : ZMod d.prime) =
    crossY d left right ^ 2 - crossX d left right ^ 3 -
      2 * left.x * right.z ^ 2 * crossX d left right ^ 2 := by
  simp only [chord, Residue.cast_sub, Residue.cast_mul, Residue.cast_square, Nat.cast_add,
    Nat.cast_mul, Nat.cast_ofNat]
  ring

theorem cast_chord_y (left right : Jacobian) : ((chord d left right).y : ZMod d.prime) =
    crossY d left right *
        (left.x * right.z ^ 2 * crossX d left right ^ 2 - (chord d left right).x) -
      left.y * right.z ^ 3 * crossX d left right ^ 3 := by
  rw [cast_chord_x]
  simp only [chord, Residue.cast_sub, Residue.cast_mul, Residue.cast_square, Nat.cast_add,
    Nat.cast_mul, Nat.cast_ofNat]
  ring

theorem cast_chord_z (left right : Jacobian) : ((chord d left right).z : ZMod d.prime) =
    crossX d left right * (left.z * right.z) := by
  simp only [chord, Residue.cast_mul]

section Sum

variable {left right : Jacobian} {x₁ y₁ x₂ y₂ : ZMod d.prime}
  {point₁ : d.weierstrass.Nonsingular x₁ y₁} {point₂ : d.weierstrass.Nonsingular x₂ y₂}

theorem cast_crossX_of_represents (leftRepresents : left.Represents (.some x₁ y₁ point₁))
    (rightRepresents : right.Represents (.some x₂ y₂ point₂)) :
    (crossX d left right : ZMod d.prime) = (x₂ - x₁) * (left.z * right.z) ^ 2 := by
  rw [cast_crossX, leftRepresents.2.2.1, rightRepresents.2.2.1]
  ring

theorem cast_crossY_of_represents (leftRepresents : left.Represents (.some x₁ y₁ point₁))
    (rightRepresents : right.Represents (.some x₂ y₂ point₂)) :
    (crossY d left right : ZMod d.prime) = (y₂ - y₁) * (left.z * right.z) ^ 3 := by
  rw [cast_crossY, leftRepresents.2.2.2, rightRepresents.2.2.2]
  ring

theorem denominators_ne_zero (leftRepresents : left.Represents (.some x₁ y₁ point₁))
    (rightRepresents : right.Represents (.some x₂ y₂ point₂)) :
    (left.z : ZMod d.prime) * right.z ≠ 0 :=
  mul_ne_zero (cast_z_ne_zero leftRepresents.1 leftRepresents.2.1)
    (cast_z_ne_zero rightRepresents.1 rightRepresents.2.1)

theorem crossX_eq_zero_iff (leftRepresents : left.Represents (.some x₁ y₁ point₁))
    (rightRepresents : right.Represents (.some x₂ y₂ point₂)) :
    crossX d left right = 0 ↔ x₁ = x₂ := by
  have units := denominators_ne_zero leftRepresents rightRepresents
  rw [← Residue.cast_eq_zero_iff (crossX_lt left right),
    cast_crossX_of_represents leftRepresents rightRepresents, mul_eq_zero,
    or_iff_left (pow_ne_zero 2 units), sub_eq_zero, eq_comm]

theorem crossY_eq_zero_iff (leftRepresents : left.Represents (.some x₁ y₁ point₁))
    (rightRepresents : right.Represents (.some x₂ y₂ point₂)) :
    crossY d left right = 0 ↔ y₁ = y₂ := by
  have units := denominators_ne_zero leftRepresents rightRepresents
  rw [← Residue.cast_eq_zero_iff (crossY_lt left right),
    cast_crossY_of_represents leftRepresents rightRepresents, mul_eq_zero,
    or_iff_left (pow_ne_zero 3 units), sub_eq_zero, eq_comm]

theorem represents_chord (leftRepresents : left.Represents (.some x₁ y₁ point₁))
    (rightRepresents : right.Represents (.some x₂ y₂ point₂)) (different : x₁ ≠ x₂) :
    (chord d left right).Represents (.some x₁ y₁ point₁ + .some x₂ y₂ point₂ : d.Element) := by
  have differenceX := cast_crossX_of_represents leftRepresents rightRepresents
  have differenceY := cast_crossY_of_represents leftRepresents rightRepresents
  have units := denominators_ne_zero leftRepresents rightRepresents
  obtain ⟨below₁, nonzero₁, first₁, second₁⟩ := leftRepresents
  have unit₁ := cast_z_ne_zero below₁ nonzero₁
  have unit₂ := right_ne_zero_of_mul units
  have run : x₁ - x₂ ≠ 0 := sub_ne_zero.mpr different
  have back : x₂ - x₁ ≠ 0 := sub_ne_zero.mpr different.symm
  have slope : d.weierstrass.slope x₁ x₂ y₁ y₂ = (y₁ - y₂) / (x₁ - x₂) :=
    WeierstrassCurve.Affine.slope_of_X_ne different
  have lastNonzero : ((chord d left right).z : ZMod d.prime) ≠ 0 := by
    rw [cast_chord_z, differenceX]
    exact mul_ne_zero (mul_ne_zero back (pow_ne_zero 2 units)) units
  rw [WeierstrassCurve.Affine.Point.add_of_X_ne different]
  refine ⟨Residue.mul_lt _ _, ?_, ?_, ?_⟩
  · exact fun zero => lastNonzero (by rw [zero, Nat.cast_zero])
  · rw [cast_chord_x, cast_chord_z, differenceX, differenceY, first₁, slope]
    simp only [WeierstrassCurve.Affine.addX, Domain.weierstrass]
    field_simp
    ring
  · rw [cast_chord_y, cast_chord_x, cast_chord_z, differenceX, differenceY, first₁, second₁, slope]
    simp only [WeierstrassCurve.Affine.addX, WeierstrassCurve.Affine.addY,
      WeierstrassCurve.Affine.negAddY, WeierstrassCurve.Affine.negY, Domain.weierstrass]
    field_simp
    ring

end Sum

/-- Adding triples adds what they represent. Points with equal first coordinates are equal, and then
the sum is the double, or opposite. -/
theorem represents_add {left right : Jacobian} {first second : d.Element}
    (leftRepresents : left.Represents first) (rightRepresents : right.Represents second) :
    (add d left right).Represents (first + second) := by
  cases first with
  | zero =>
    have zero : left.z = 0 := leftRepresents
    rw [add_eq, if_pos zero]
    exact (zero_add second).symm ▸ rightRepresents
  | some x₁ y₁ point₁ =>
    cases second with
    | zero =>
      have zero : right.z = 0 := rightRepresents
      rw [add_eq, if_neg leftRepresents.2.1, if_pos zero]
      exact (add_zero (.some x₁ y₁ point₁ : d.Element)).symm ▸ leftRepresents
    | some x₂ y₂ point₂ =>
      have sameX := crossX_eq_zero_iff leftRepresents rightRepresents
      have sameY := crossY_eq_zero_iff leftRepresents rightRepresents
      rw [add_eq, if_neg leftRepresents.2.1, if_neg rightRepresents.2.1]
      by_cases vertical : x₁ = x₂
      · rw [if_pos (sameX.mpr vertical)]
        subst vertical
        by_cases equal : y₁ = y₂
        · rw [if_pos (sameY.mpr equal)]
          subst equal
          exact represents_double leftRepresents
        · rw [if_neg (mt sameY.mp equal)]
          have opposite : y₁ = d.weierstrass.negY x₁ y₂ :=
            (WeierstrassCurve.Affine.Y_eq_of_X_eq point₁.1 point₂.1 rfl).resolve_left equal
          rw [WeierstrassCurve.Affine.Point.add_of_Y_eq rfl opposite]
          exact represents_infinity d
      · rw [if_neg (mt sameX.mp vertical)]
        exact represents_chord leftRepresents rightRepresents vertical

/-- The ladder takes the multiple of what the triple represents. -/
theorem represents_multiple {triple : Jacobian} {element : d.Element}
    (represents : triple.Represents element) (scalar : Nat) :
    (multiple d scalar triple).Represents (scalar • element) := by
  have reached := Residue.ladder_reaches
    (motive := fun count value => value.Represents (count • element))
    (double d) (fun reached => add d reached triple)
    (fun count value holds => by
      rw [two_mul, add_nsmul]
      exact represents_double holds)
    (fun count value holds => by
      rw [succ_nsmul]
      exact represents_add holds represents)
    scalar (Residue.bitLength scalar) 0 infinity
    (by rw [zero_nsmul]; exact represents_infinity d)
  rwa [Nat.zero_mul, Nat.zero_add, Nat.mod_eq_of_lt (Residue.lt_two_pow_bitLength scalar)] at reached

end Jacobian

namespace Domain

variable (d : Domain) [regular : d.IsRegular]

theorem coordinates_generator : d.coordinates d.generator = d.base := by
  simp only [coordinates, generator, base, Point.affine.injEq]
  exact ⟨ZMod.val_natCast_of_lt regular.baseX, ZMod.val_natCast_of_lt regular.baseY⟩

theorem represents_base : (Jacobian.ofPoint d.base).Represents d.generator := by
  rw [← coordinates_generator]
  exact Jacobian.represents_ofPoint d.generator

/-- Multiples of the base point are taken in the group. -/
theorem baseMultiple_eq (scalar : Nat) :
    d.baseMultiple scalar = d.coordinates (scalar • d.generator) :=
  Jacobian.toPoint_of_represents (Jacobian.represents_multiple d.represents_base scalar)

theorem combination_eq (baseScalar scalar : Nat) (element : d.Element) :
    d.combination baseScalar scalar (d.coordinates element) =
      d.coordinates (baseScalar • d.generator + scalar • element) :=
  Jacobian.toPoint_of_represents (Jacobian.represents_add
    (Jacobian.represents_multiple d.represents_base baseScalar)
    (Jacobian.represents_multiple (Jacobian.represents_ofPoint element) scalar))

end Domain
end CredentialSigning.Curve
