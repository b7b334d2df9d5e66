import CredentialSigning.Arithmetic.Residue
import CredentialSigning.Generator

/-! Random factors that hide a number from the power by a secret exponent. The number is multiplied
by a public power of the factor beforehand, and the result by the inverse of the factor. -/

namespace CredentialSigning.Rsa

/-- A number with its inverse modulo a modulus. -/
structure Blinding (modulus : Nat) where
  factor : Nat
  inverse : Nat
  undone : factor * inverse % modulus = 1 % modulus
  deriving DecidableEq

namespace Blinding

/-- A number below the modulus serves if it has an inverse. Zero counts as one. -/
def ofNat? (modulus value : Nat) : Option (Blinding modulus) :=
  if below : value < modulus then
    let factor := max value 1
    match inverted : Residue.inverse? modulus factor with
    | some inverse =>
      some ⟨factor, inverse, Residue.mul_inverse? (Nat.zero_lt_of_lt below) inverted⟩
    | none => none
  else none

/-- A block of the generator holds the bits of the modulus in whole words of 64 bits. -/
def width (modulus : Nat) : Nat :=
  (Residue.bitLength modulus + 63) / 64 * 8

/-- The number of a block, the least significant octet first. Of a word that is not needed as a whole,
the upper bits count. -/
def number (modulus : Nat) (octets : Bytes) : Nat :=
  let bits := Residue.bitLength modulus
  let words := Bytes.toNat octets.reverse
  let whole := 1 <<< (bits / 64 * 64)
  words % whole + (words / whole) >>> (64 - bits % 64) * whole

def ofOctets? (modulus : Nat) (octets : Bytes) : Option (Blinding modulus) :=
  ofNat? modulus (number modulus octets)

/-- The blinding of the first block that serves. There is none if no block of the generator does. -/
def draw? (modulus : Nat) (generator : Generator) : Option (Blinding modulus) × Generator :=
  generator.firstOf? (ofOctets? modulus) (width modulus) generator.period

end Blinding
end CredentialSigning.Rsa
