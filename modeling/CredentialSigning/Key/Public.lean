import CredentialSigning.Ecdsa.Sign
import CredentialSigning.Failure
import CredentialSigning.Rsa.Sign

/-! Public keys, their export as SubjectPublicKeyInfo, and the verification of signatures. -/

namespace CredentialSigning

namespace Curve

def identifier : Curve → Oid
  | p256 => Oid.secp256r1
  | p384 => Oid.secp384r1
  | p521 => Oid.secp521r1

def ofIdentifier? (identifier : Oid) : Option Curve :=
  [p256, p384, p521].find? (·.identifier = identifier)

@[simp] theorem ofIdentifier?_identifier (curve : Curve) :
    ofIdentifier? curve.identifier = some curve := by
  cases curve <;> decide

end Curve

inductive PublicKey
  | rsa (key : Rsa.PublicKey)
  | ec (curve : Curve) (point : Curve.Point)
  deriving DecidableEq, Repr

namespace PublicKey
open Der

/-- The octets that a certificate carries for the key. -/
def subjectPublicKey : PublicKey → Bytes
  | rsa key => key.write
  | ec curve point => point.uncompressed curve.domain.width

def algorithm : PublicKey → Bytes
  | rsa _ => writeSequence [write 0x06 Oid.rsaEncryption.octets, writeNull]
  | ec curve _ =>
    writeSequence [write 0x06 Oid.ecPublicKey.octets, write 0x06 curve.identifier.octets]

def toDer (key : PublicKey) : Bytes :=
  writeSequence [key.algorithm, writeBitString key.subjectPublicKey]

def accepts : PublicKey → HashName → Bytes → Bytes → Bool
  | rsa key, hash, digest, signature => Rsa.accepts key hash digest signature
  | ec curve point, _, digest, signature => Ecdsa.accepts curve point digest signature

def verify (key : PublicKey) (data : Bytes) (hash : HashName) (signature : Bytes) :
    Except Failure Unit := do
  let digest ← hash.digest data
  if key.accepts hash digest signature then .ok () else .error .invalidSignature

end PublicKey
end CredentialSigning
