import CredentialSigning.Curve.Domain
import CredentialSigning.Generator
import CredentialSigning.Hash.Sha512

/-! The secret number of a signature. On P-256 and P-384 it comes from the deterministic generator
of RFC 6979, with octets of the random generator as additional input; on P-521 it is a random number
below the order, whatever the key and the message. -/

namespace CredentialSigning.Ecdsa.Nonce

/-- The state of the deterministic generator: a keyed hash function's key and its last value. -/
structure State where
  key : Bytes
  value : Bytes
  deriving DecidableEq

namespace State

/-- One mixing step with a separator and further octets. -/
def mix (hmac : Bytes → Bytes → Bytes) (state : State) (octets : Bytes) : State :=
  let key := hmac state.key (state.value ++ octets)
  ⟨key, hmac key state.value⟩

def seeded (hmac : Bytes → Bytes → Bytes) (size : Nat) (material : Bytes) : State :=
  let start : State := ⟨List.replicate size 0, List.replicate size 1⟩
  (start.mix hmac (0 :: material)).mix hmac (1 :: material)

/-- The first value that is a positive number below the bound. -/
def search? (hmac : Bytes → Bytes → Bytes) (bound : Nat) : Nat → State → Option Nat
  | 0, _ => none
  | tries + 1, state =>
    let value := hmac state.key state.value
    if 0 < value.toNat ∧ value.toNat < bound then some value.toNat
    else search? hmac bound tries (mix hmac { state with value } [0])

end State

/-- How many values are tried before giving up. -/
def patience : Nat := 1 <<< 64

/-- The nonce for a scalar and a hash that fills the width of the curve. -/
def derived? (hmac : Bytes → Bytes → Bytes) (domain : Curve.Domain) (scalar : Nat) (hash : Bytes)
    (generator : Generator) : Option Nat × Generator :=
  let (extra, generator) := generator.next domain.width
  let material := Bytes.ofNat domain.width scalar ++ hash ++ extra
  (State.search? hmac domain.order patience (State.seeded hmac domain.width material), generator)

def choose? (curve : Curve) (scalar : Nat) (hash : Bytes) (generator : Generator) :
    Option Nat × Generator :=
  match curve with
  | .p256 => derived? Hash.Hmac.sha256 curve.domain scalar hash generator
  | .p384 => derived? Hash.Hmac.sha384 curve.domain scalar hash generator
  | .p521 => generator.firstBelow? curve.domain.order curve.domain.width generator.period

end CredentialSigning.Ecdsa.Nonce
