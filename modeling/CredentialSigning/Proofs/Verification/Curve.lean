import CredentialSigning.Proofs.Ecdsa.Complement
import CredentialSigning.Proofs.Verification.Reading

/-! Verification under a key on a curve with every operation inside its bounds. Sums and multiples of
points subtract residues and never divide; the two inversions are of a scalar below the order and of a
denominator that is not zero. -/

namespace CredentialSigning.Checked
open Curve

def doublePoint (d : Domain) (point : Jacobian) : Run Jacobian := do
  let p := d.prime
  let yy ← square p point.y
  let s ← product p (4 * point.x) yy
  let zz ← square p point.z
  let zzzz ← square p zz
  let m ← remainder (3 * point.x * point.x + d.a * zzzz) p
  let mm ← square p m
  let x ← residueDifference p mm (2 * s)
  let run ← residueDifference p s x
  let rise ← product p m run
  let yyyy ← square p yy
  let y ← residueDifference p rise (8 * yyyy)
  let z ← product p (2 * point.y) point.z
  .ok ⟨x, y, z⟩

def addPoints (d : Domain) (left right : Jacobian) : Run Jacobian := do
  if left.z = 0 then .ok right
  else if right.z = 0 then .ok left
  else
    let p := d.prime
    let zz1 ← square p left.z
    let zz2 ← square p right.z
    let u1 ← product p left.x zz2
    let u2 ← product p right.x zz1
    let zzz2 ← product p zz2 right.z
    let zzz1 ← product p zz1 left.z
    let s1 ← product p left.y zzz2
    let s2 ← product p right.y zzz1
    let h ← residueDifference p u2 u1
    let r ← residueDifference p s2 s1
    if h = 0 then
      if r = 0 then doublePoint d left else .ok Jacobian.infinity
    else
      let hh ← square p h
      let hhh ← product p hh h
      let v ← product p u1 hh
      let rr ← square p r
      let x ← residueDifference p rr (hhh + 2 * v)
      let run ← residueDifference p v x
      let rise ← product p r run
      let drop ← product p s1 hhh
      let y ← residueDifference p rise drop
      let zz ← product p left.z right.z
      let z ← product p h zz
      .ok ⟨x, y, z⟩

def multiply (d : Domain) (scalar : Nat) (point : Jacobian) : Run Jacobian :=
  ladder (doublePoint d) (fun reached => addPoints d reached point) scalar
    (Residue.bitLength scalar) Jacobian.infinity

/-- The first coordinate. The neutral element has none to divide, and is given zero. -/
def xCoordinate (d : Domain) (point : Jacobian) : Run Nat :=
  if point.z = 0 then .ok 0
  else do
    let scale ← inverse d.prime point.z
    let scale2 ← square d.prime scale
    product d.prime point.x scale2

section Field

variable (d : Domain) [NeZero d.prime]

theorem doublePoint_eq (point : Jacobian) :
    doublePoint d point = .ok (Jacobian.double d point) := by
  simp only [doublePoint, square_eq, product_eq, residueDifference_eq, ok_bind,
    remainder_of_pos (NeZero.pos d.prime)]
  rfl

theorem addPoints_eq (left right : Jacobian) :
    addPoints d left right = .ok (Jacobian.add d left right) := by
  simp only [addPoints, Jacobian.add, square_eq, product_eq, residueDifference_eq, ok_bind,
    doublePoint_eq]
  split_ifs
  all_goals rfl

theorem multiply_eq (scalar : Nat) (point : Jacobian) :
    multiply d scalar point = .ok (Jacobian.multiple d scalar point) :=
  ladder_eq (doublePoint_eq d) (fun reached => addPoints_eq d reached point) _ _ _

end Field

theorem xCoordinate_eq {d : Domain} [d.IsRegular] {point : Jacobian} (below : point.z < d.prime) :
    xCoordinate d point = .ok (point.toPoint d).xCoordinate := by
  unfold xCoordinate Jacobian.toPoint
  split
  · rfl
  · rename_i nonzero
    rw [inverse_of_prime (Jacobian.cast_z_ne_zero below nonzero), ok_bind, square_eq, ok_bind,
      product_eq]
    rfl

/-- The last coordinate of a triple that stands for a point is a residue. -/
theorem z_lt_of_represents {d : Domain} [regular : d.IsRegular] {triple : Jacobian} {element : d.Element}
    (represents : triple.Represents element) : triple.z < d.prime := by
  cases element with
  | zero =>
    have zero : triple.z = 0 := represents
    rw [zero]
    exact regular.prime.pos
  | some x y point => exact represents.1

def verifySum (d : Domain) (point : Point) (message : Nat) (signature : Ecdsa.Signature) :
    Run Unit := do
  let inverted ← inverse d.order signature.s
  let baseScalar ← product d.order message inverted
  let scalar ← product d.order signature.r inverted
  let fromBase ← multiply d baseScalar (.ofPoint d.base)
  let fromPoint ← multiply d scalar (.ofPoint point)
  let sum ← addPoints d fromBase fromPoint
  let x ← xCoordinate d sum
  let residue ← remainder x d.order
  require (residue = signature.r)

/-- For a point of the curve nothing is out of bounds, also if the sum is the neutral element. -/
theorem verifySum_eq {curve : Curve} (element : curve.domain.Element) (message : Nat)
    {signature : Ecdsa.Signature} (isFor : signature.IsFor curve.domain.order) :
    verifySum curve.domain (curve.domain.coordinates element) message signature =
      require (Ecdsa.verifies curve.domain (curve.domain.coordinates element) message signature =
        true) := by
  have prime : curve.domain.order.Prime := curve.prime_order
  have nonzero : (signature.s : ZMod curve.domain.order) ≠ 0 := Ecdsa.Signature.cast_s_ne_zero isFor
  have sum := Jacobian.represents_add
    (Jacobian.represents_multiple curve.domain.represents_base
      (Residue.mul curve.domain.order message (Residue.inverse curve.domain.order signature.s)))
    (Jacobian.represents_multiple (Jacobian.represents_ofPoint element)
      (Residue.mul curve.domain.order signature.r (Residue.inverse curve.domain.order signature.s)))
  rw [verifySum, inverse_of_prime nonzero]
  simp only [ok_bind, product_eq, multiply_eq, addPoints_eq, xCoordinate_eq (z_lt_of_represents sum),
    remainder_of_pos prime.pos]
  apply require_congr
  simp only [Ecdsa.verifies, decide_eq_true_eq]
  rfl

/-- On P-521 a digest is brought to the width of the curve. -/
def prehash (curve : Curve) (digest : Bytes) : Run Bytes :=
  match curve with
  | .p256 => .ok digest
  | .p384 => .ok digest
  | .p521 =>
    if curve.domain.width ≤ digest.length then .ok digest
    else do
      let zeros ← difference curve.domain.width digest.length
      .ok (List.replicate zeros 0 ++ digest)

theorem prehash_eq (curve : Curve) (digest : Bytes) :
    prehash curve digest = .ok (Ecdsa.prehash curve digest) := by
  cases curve with
  | p256 => rfl
  | p384 => rfl
  | p521 =>
    rw [prehash, Ecdsa.prehash]
    split
    · rename_i long
      rw [Nat.sub_eq_zero_of_le long]
      rfl
    · rename_i short
      rw [difference_of_le (Nat.le_of_not_le short), ok_bind]

/-- The leading octets of a hash, or zeros before it. -/
def fitted (width : Nat) (hash : Bytes) : Run Bytes := do
  require (width / 2 ≤ hash.length)
  if hash.length < width then
    let zeros ← difference width hash.length
    .ok (List.replicate zeros 0 ++ hash)
  else slice hash 0 width

theorem fitted_eq (width : Nat) (hash : Bytes) :
    fitted width hash = orRefuse (Ecdsa.fitted? width hash) := by
  rw [fitted, require_bind, Ecdsa.fitted?]
  split
  · split
    · rename_i short
      rw [difference_of_le short.le, ok_bind, List.take_of_length_le short.le, orRefuse_some]
    · rename_i long
      have wide : width ≤ hash.length := Nat.not_lt.mp long
      rw [slice, within, if_pos ⟨Nat.zero_le _, wide⟩, Nat.sub_eq_zero_of_le wide]
      rfl
  · rfl

def verifyEc (curve : Curve) (point : Point) (digest octets : Bytes) : Run Unit := do
  let signature ← readSignature curve.domain octets
  let point ← orRefuse (Ecdsa.verifyingPoint? curve point)
  let hash ← prehash curve digest
  let hash ← fitted curve.domain.width hash
  verifySum curve.domain point hash.toNat signature

theorem verifyEc_eq {curve : Curve} (element : curve.domain.Element) (digest octets : Bytes) :
    verifyEc curve (curve.domain.coordinates element) digest octets =
      require (Ecdsa.accepts curve (curve.domain.coordinates element) digest octets = true) := by
  rw [verifyEc, readSignature_eq, Ecdsa.accepts]
  cases read : Ecdsa.Signature.read? curve.domain.order octets with
  | none => rfl
  | some signature =>
    have isFor := (Ecdsa.Signature.eq_write_of_read? read).1
    simp only [orRefuse_some, ok_bind, prehash_eq, fitted_eq]
    cases verifying : Ecdsa.verifyingPoint? curve (curve.domain.coordinates element) with
    | none => rfl
    | some found =>
      obtain rfl := Ecdsa.eq_of_verifyingPoint? verifying
      cases Ecdsa.fitted? curve.domain.width (Ecdsa.prehash curve digest) with
      | none => rfl
      | some hash => exact verifySum_eq element hash.toNat isFor

end CredentialSigning.Checked
