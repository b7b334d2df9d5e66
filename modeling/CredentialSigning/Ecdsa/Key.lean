import CredentialSigning.Curve.Jacobian
import CredentialSigning.Key.Info

/-! Private keys on the three curves: a scalar from one up to the order of the base point. -/

namespace CredentialSigning.Ecdsa
open Der

structure Key where
  curve : Curve
  scalar : Nat
  positive : 0 < scalar
  below : scalar < curve.domain.order
  deriving DecidableEq

namespace Key

/-- The scalar's multiple of the base point. -/
def point (key : Key) : Curve.Point :=
  key.curve.domain.baseMultiple key.scalar

/-- A scalar in at least 24 octets and at most the width of the curve; what is missing at the front
counts as zeros. -/
def ofScalar? (curve : Curve) (octets : Bytes) : Option Key :=
  if 24 ≤ octets.length ∧ octets.length ≤ curve.domain.width then
    if bounds : 0 < octets.toNat ∧ octets.toNat < curve.domain.order then
      some ⟨curve, octets.toNat, bounds.1, bounds.2⟩
    else none
  else none

/-- Whether octets are one of the two written forms of the key's point. -/
def isWrittenPoint (key : Key) (octets : Bytes) : Bool :=
  octets = key.point.uncompressed key.curve.domain.width ||
    octets = key.point.compressed key.curve.domain.width

/-- The curve inside the key may be any, since the envelope names the one that counts. -/
def isCurveField (element : Element) : Bool :=
  element.tag = [0xa0] && ((Rules.key.whole? 0x06 element.content).bind Oid.ofOctets?).isSome

def publicField? (element : Element) : Option Bytes :=
  if element.tag = [0xa1] then (Rules.key.whole? 0x03 element.content).bind wholeBits? else none

/-- A public key that comes with the scalar has to belong to it. -/
def ofDer? (curve : Curve) (octets : Bytes) : Option Key := do
  let content ← Rules.key.whole? 0x30 octets
  let (version, rest) ← Rules.key.take? 0x02 content
  let (scalar, rest) ← Rules.key.take? 0x04 rest
  let (curveField, rest) ← field? 0 rest
  let (publicField, rest) ← field? 1 rest
  if version = [1] ∧ curveField.all isCurveField ∧ rest = [] then do
    let key ← ofScalar? curve scalar
    match publicField with
    | none => some key
    | some element => do
      let octets ← publicField? element
      if key.isWrittenPoint octets then some key else none
  else none

/-- The scalar in the width of the curve. -/
def octets (key : Key) : Bytes :=
  Bytes.ofNat key.curve.domain.width key.scalar

/-- The key that signs. On P-521 it is read from the octets of the key that was decoded. -/
def signing? (key : Key) : Option Key :=
  match key.curve with
  | .p256 => some key
  | .p384 => some key
  | .p521 => ofScalar? .p521 key.octets

end Key
end CredentialSigning.Ecdsa
