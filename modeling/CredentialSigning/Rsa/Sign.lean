import CredentialSigning.HashName
import CredentialSigning.Oid
import CredentialSigning.Rsa.Blinding
import CredentialSigning.Rsa.Key

/-! RSA signatures with the padding of PKCS#1 version 1.5. A signature is as long as the modulus; its
power by the public exponent is the padded hash, which names the hash function. -/

namespace CredentialSigning

namespace HashName

/-- The object identifier in a padded hash, for the hash functions that are computed. -/
def identifier? : HashName → Option Oid
  | sha1 => none
  | sha224 => none
  | sha256 => some ⟨[0x60, 0x86, 0x48, 0x01, 0x65, 0x03, 0x04, 0x02, 0x01], by decide⟩
  | sha384 => some ⟨[0x60, 0x86, 0x48, 0x01, 0x65, 0x03, 0x04, 0x02, 0x02], by decide⟩
  | sha512 => some ⟨[0x60, 0x86, 0x48, 0x01, 0x65, 0x03, 0x04, 0x02, 0x03], by decide⟩

end HashName

namespace Rsa
open Der

/-- The digest together with the identifier of its hash function. -/
def digestInfo (identifier : Oid) (digest : Bytes) : Bytes :=
  writeSequence [writeSequence [write 0x06 identifier.octets, writeNull], write 0x04 digest]

/-- The octets 0 and 1, at least eight octets 0xff, the octet 0, and the digest with its
identifier: as long as the modulus, if it is long enough. The digest has to be as long as its hash
function makes them. -/
def padded? (size : Nat) (hash : HashName) (digest : Bytes) : Option Bytes := do
  let info := digestInfo (← hash.identifier?) digest
  if digest.length = hash.size ∧ info.length + 11 ≤ size then
    some (0 :: 1 :: List.replicate (size - info.length - 3) 0xff ++ 0 :: info)
  else none

/-- The power by the secret exponent, taken of the blinded number. -/
def PrivateKey.blindedPower (key : PrivateKey) (blinding : Blinding key.modulus) (base : Nat) : Nat :=
  let hidden := Residue.mul key.modulus base (Residue.power key.modulus blinding.factor key.exponent)
  Residue.mul key.modulus (key.secretPower hidden) blinding.inverse

/-- The signature of a padded digest. It is given out only if it verifies, which the factors of a key
that are no primes may prevent. -/
def signWith? (key : PrivateKey) (padded : Bytes) (blinding : Blinding key.modulus) : Option Bytes :=
  let signature := key.blindedPower blinding padded.toNat
  if Residue.power key.modulus signature key.exponent = padded.toNat then
    some (Bytes.ofNat key.publicKey.size signature)
  else none

def sign? (key : PrivateKey) (hash : HashName) (digest : Bytes) (generator : Generator) :
    Option Bytes × Generator :=
  match padded? key.publicKey.size hash digest with
  | none => (none, generator)
  | some padded =>
    let (blinding, generator) := Blinding.draw? key.modulus generator
    (blinding.bind (signWith? key padded), generator)

def accepts (key : PublicKey) (hash : HashName) (digest signature : Bytes) : Bool :=
  match padded? key.size hash digest with
  | none => false
  | some padded =>
    signature.length = key.size && signature.toNat < key.modulus &&
      Residue.power key.modulus signature.toNat key.exponent = padded.toNat

end Rsa
end CredentialSigning
