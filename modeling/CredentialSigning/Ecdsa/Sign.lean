import CredentialSigning.Ecdsa.Key
import CredentialSigning.Ecdsa.Nonce
import CredentialSigning.Ecdsa.Signature

/-! Signing and verifying with ECDSA. -/

namespace CredentialSigning.Ecdsa

/-- A hash brought to the width of a curve: its leading octets, or zeros before it. A hash that does
not fill half the width is refused. -/
def fitted? (width : Nat) (hash : Bytes) : Option Bytes :=
  if width / 2 ≤ hash.length then
    some (List.replicate (width - hash.length) 0 ++ hash.take width)
  else none

/-- What is signed for a hash. On P-521 a whole digest may not fill half the width, so zeros are put
before it. -/
def prehash (curve : Curve) (hash : Bytes) : Bytes :=
  match curve with
  | .p256 => hash
  | .p384 => hash
  | .p521 => List.replicate (curve.domain.width - hash.length) 0 ++ hash

/-- The signature of a number under a scalar and a nonce, unless one of its parts is zero. -/
def signWith? (domain : Curve.Domain) (scalar message nonce : Nat) : Option Signature :=
  let r := (domain.baseMultiple nonce).xCoordinate % domain.order
  let s := Residue.mul domain.order (Residue.inverse domain.order nonce)
    ((message + r * scalar) % domain.order)
  if nonce = 0 ∨ r = 0 ∨ s = 0 then none else some ⟨r, s⟩

def sign? (key : Key) (hash : Bytes) (generator : Generator) : Option Signature × Generator :=
  match fitted? key.curve.domain.width (prehash key.curve hash) with
  | none => (none, generator)
  | some hash =>
    let (nonce, generator) := Nonce.choose? key.curve key.scalar hash generator
    (nonce.bind (signWith? key.curve.domain key.scalar hash.toNat), generator)

/-- Whether a signature of a number verifies under a point. -/
def verifies (domain : Curve.Domain) (point : Curve.Point) (message : Nat)
    (signature : Signature) : Bool :=
  let inverse := Residue.inverse domain.order signature.s
  let sum := domain.combination (Residue.mul domain.order message inverse)
    (Residue.mul domain.order signature.r inverse) point
  sum.xCoordinate % domain.order = signature.r

/-- The point that signatures are verified under. On P-521 a public key is only a point until then,
and the neutral element is refused. -/
def verifyingPoint? : Curve → Curve.Point → Option Curve.Point
  | .p521, .infinity => none
  | _, point => some point

/-- Whether octets are a signature of a hash under a point of a curve. -/
def accepts (curve : Curve) (point : Curve.Point) (hash octets : Bytes) : Bool :=
  match Signature.read? curve.domain.order octets with
  | none => false
  | some signature =>
    match verifyingPoint? curve point, fitted? curve.domain.width (prehash curve hash) with
    | some point, some hash => verifies curve.domain point hash.toNat signature
    | _, _ => false

theorem length_of_fitted? {width : Nat} {hash octets : Bytes}
    (found : fitted? width hash = some octets) : octets.length = width := by
  unfold fitted? at found
  split at found
  · cases found
    simp only [List.length_append, List.length_replicate, List.length_take]
    omega
  · cases found

end CredentialSigning.Ecdsa
