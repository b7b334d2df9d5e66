import CredentialSigning.Curve.Domain

/-! Points as triples (x, y, z) that stand for (x / z², y / z³); z = 0 is the neutral element. Sums
and multiples of points need no division until the coordinates are read off. -/

namespace CredentialSigning.Curve

structure Jacobian where
  x : Nat
  y : Nat
  z : Nat
  deriving DecidableEq, Repr

namespace Jacobian

def infinity : Jacobian :=
  ⟨1, 1, 0⟩

def ofPoint : Point → Jacobian
  | .infinity => infinity
  | .affine x y => ⟨x, y, 1⟩

def toPoint (d : Domain) (point : Jacobian) : Point :=
  if point.z = 0 then .infinity
  else
    let scale := Residue.inverse d.prime point.z
    let scale2 := Residue.square d.prime scale
    .affine (Residue.mul d.prime point.x scale2)
      (Residue.mul d.prime point.y (Residue.mul d.prime scale2 scale))

/-- Twice a point. The double of a point with y = 0 gets z = 0. -/
def double (d : Domain) (point : Jacobian) : Jacobian :=
  let p := d.prime
  let yy := Residue.square p point.y
  let s := Residue.mul p (4 * point.x) yy
  let zz := Residue.square p point.z
  let m := (3 * point.x * point.x + d.a * Residue.square p zz) % p
  let x := Residue.sub p (Residue.square p m) (2 * s)
  ⟨x, Residue.sub p (Residue.mul p m (Residue.sub p s x)) (8 * Residue.square p yy),
    Residue.mul p (2 * point.y) point.z⟩

/-- The sum of two points. Points with equal x are equal, or negatives of each other. -/
def add (d : Domain) (left right : Jacobian) : Jacobian :=
  if left.z = 0 then right
  else if right.z = 0 then left
  else
    let p := d.prime
    let zz1 := Residue.square p left.z
    let zz2 := Residue.square p right.z
    let u1 := Residue.mul p left.x zz2
    let u2 := Residue.mul p right.x zz1
    let s1 := Residue.mul p left.y (Residue.mul p zz2 right.z)
    let s2 := Residue.mul p right.y (Residue.mul p zz1 left.z)
    let h := Residue.sub p u2 u1
    let r := Residue.sub p s2 s1
    if h = 0 then
      if r = 0 then double d left else infinity
    else
      let hh := Residue.square p h
      let hhh := Residue.mul p hh h
      let v := Residue.mul p u1 hh
      let x := Residue.sub p (Residue.square p r) (hhh + 2 * v)
      ⟨x, Residue.sub p (Residue.mul p r (Residue.sub p v x)) (Residue.mul p s1 hhh),
        Residue.mul p h (Residue.mul p left.z right.z)⟩

def multiple (d : Domain) (scalar : Nat) (point : Jacobian) : Jacobian :=
  Residue.ladder (double d) (fun reached => add d reached point) scalar
    (Residue.bitLength scalar) infinity

end Jacobian

namespace Domain

def baseMultiple (d : Domain) (scalar : Nat) : Point :=
  (Jacobian.multiple d scalar (.ofPoint d.base)).toPoint d

def combination (d : Domain) (baseScalar scalar : Nat) (point : Point) : Point :=
  (Jacobian.add d (Jacobian.multiple d baseScalar (.ofPoint d.base))
    (Jacobian.multiple d scalar (.ofPoint point))).toPoint d

end Domain
end CredentialSigning.Curve
