import CredentialSigning.Curve.Domain
import CredentialSigning.Der.Rules
import CredentialSigning.Der.Written

/-! ECDSA signatures: two scalars, written as a DER SEQUENCE of two INTEGERs. -/

namespace CredentialSigning.Ecdsa
open Der

structure Signature where
  r : Nat
  s : Nat
  deriving DecidableEq, Repr

namespace Signature

/-- Both scalars are from one up to the order. -/
def IsFor (signature : Signature) (order : Nat) : Prop :=
  0 < signature.r ∧ signature.r < order ∧ 0 < signature.s ∧ signature.s < order

instance (signature : Signature) (order : Nat) : Decidable (signature.IsFor order) := by
  unfold IsFor; infer_instance

def write (signature : Signature) : Bytes :=
  writeSequence [writeNatural signature.r, writeNatural signature.s]

def read? (order : Nat) (octets : Bytes) : Option Signature := do
  let content ← Rules.key.whole? 0x30 octets
  let (r, rest) ← Rules.key.take? 0x02 content
  let (s, rest) ← Rules.key.take? 0x02 rest
  let signature : Signature := ⟨← natural? r, ← natural? s⟩
  if rest = [] ∧ signature.IsFor order then some signature else none

end Signature
end CredentialSigning.Ecdsa
