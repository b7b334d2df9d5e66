import CredentialSigning.Hash.Sha1

/-! The key derivation of PKCS#12 with SHA-1, for the empty password: repeated hashing of a purpose,
the salt and the password. -/

namespace CredentialSigning.Archive.Derivation

/-- The empty text in two-octet characters, with the zero character that ends every password. -/
def emptyPassword : Bytes := [0, 0]

/-- What the derived octets are for. -/
inductive Purpose
  | key
  | vector
  | mac
  deriving DecidableEq, Repr

def Purpose.octet : Purpose → UInt8
  | key => 1
  | vector => 2
  | mac => 3

def iterate {α : Type} (step : α → α) : Nat → α → α
  | 0, value => value
  | count + 1, value => iterate step count (step value)

/-- Octets repeated up to whole blocks of 64. -/
def filled (octets : Bytes) : Bytes :=
  octets.cycle ((octets.length + 63) / 64 * 64)

/-- Adds a block and one to every block of the input; carries out of a block are lost. -/
def advance (input block : Bytes) : Bytes :=
  (input.blocks 64).flatMap fun part => Bytes.ofNat 64 (part.toNat + block.toNat + 1)

/-- The results of `count` rounds, one after the other. -/
def rounds (purpose : Purpose) (iterations : Nat) : Nat → Bytes → Bytes
  | 0, _ => []
  | count + 1, input =>
    let result := iterate Hash.Sha1.digest iterations (List.replicate 64 purpose.octet ++ input)
    result ++ rounds purpose iterations count (advance input (result.cycle 64))

def derive (purpose : Purpose) (salt : Bytes) (iterations size : Nat) : Bytes :=
  (rounds purpose iterations ((size + 19) / 20) (filled salt ++ filled emptyPassword)).take size

end CredentialSigning.Archive.Derivation
