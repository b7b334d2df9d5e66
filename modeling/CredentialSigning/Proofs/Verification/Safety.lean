import CredentialSigning.Key.Private
import CredentialSigning.Proofs.Verification.Curve
import CredentialSigning.Proofs.Verification.Hashing
import CredentialSigning.Proofs.Verification.Padding

/-! Verification is safe on any octets. Run with every operation inside its bounds, it comes to the same
end as without these checks, for every public key that belongs to a private key. -/

namespace CredentialSigning

namespace Checked

/-- What a run ends with, where a refusal stands for a failure. Nothing, if an operation was out of its
bounds. -/
def outcome? {α : Type} (failure : Failure) : Run α → Option (Except Failure α)
  | .ok value => some (.ok value)
  | .error .refused => some (.error failure)
  | .error .outOfBounds => none

theorem outcome?_ok {α : Type} (failure : Failure) (value : α) :
    outcome? failure (.ok value) = some (.ok value) :=
  rfl

theorem outcome?_require (failure : Failure) (condition : Prop) [Decidable condition] :
    outcome? failure (require condition) = some (if condition then .ok () else .error failure) := by
  unfold require
  split
  · rfl
  · rfl

def verifyDigest : PublicKey → HashName → Bytes → Bytes → Run Unit
  | .rsa key, hash, digest, signature => verifyRsa key hash digest signature
  | .ec curve point, _, digest, signature => verifyEc curve point digest signature

/-- Verification with every operation checked. -/
def verify? (key : PublicKey) (data : Bytes) (hash : HashName) (signature : Bytes) :
    Option (Except Failure Unit) :=
  (outcome? (.unsupportedDigest hash) (digest hash data)).bind fun
    | .error failure => some (.error failure)
    | .ok digest => outcome? .invalidSignature (verifyDigest key hash digest signature)

theorem verifyDigest_eq (key : PrivateKey) (hash : HashName) (digest signature : Bytes) :
    verifyDigest key.publicKey hash digest signature =
      require (key.publicKey.accepts hash digest signature = true) := by
  cases key with
  | rsa key => exact verifyRsa_eq key.publicKey hash digest signature
  | ec key =>
    have point : key.point = _ := key.curve.domain.baseMultiple_eq key.scalar
    rw [PrivateKey.publicKey, verifyDigest, PublicKey.accepts, point]
    exact verifyEc_eq _ digest signature

theorem verify?_eq (key : PrivateKey) (data : Bytes) (hash : HashName) (signature : Bytes) :
    verify? key.publicKey data hash signature =
      some (key.publicKey.verify data hash signature) := by
  rw [verify?, digest_eq, PublicKey.verify, HashName.digest]
  cases hash.digest? data with
  | none => rfl
  | some digest =>
    simp only [orRefuse_some, outcome?_ok, Option.bind_some, verifyDigest_eq, outcome?_require]
    rfl

end Checked

namespace PublicKey

theorem verify_of_weak {hash : HashName} (weak : hash = .sha1 ∨ hash = .sha224) (key : PublicKey)
    (data signature : Bytes) : key.verify data hash signature = .error (.unsupportedDigest hash) := by
  rcases weak with rfl | rfl
  · rfl
  · rfl

theorem verify_of_computed {hash : HashName} (listed : hash ∈ HashName.computed) (key : PublicKey)
    (data signature : Bytes) :
    key.verify data hash signature = .ok () ∨
      key.verify data hash signature = .error .invalidSignature := by
  obtain ⟨digest, computed⟩ := HashName.exists_digest listed data
  simp only [verify, computed, bind, Except.bind]
  split
  · exact .inl rfl
  · exact .inr rfl

/-- A public key of a private key verifies any octets for any data. No position, part, difference or
inverse is out of bounds on the way; a hash function that is not computed is refused, whatever the octets
are, and under every other one the octets are a signature or an invalid one. -/
theorem verify_safe (key : PrivateKey) (data : Bytes) (hash : HashName) (signature : Bytes) :
    Checked.verify? key.publicKey data hash signature =
      some (key.publicKey.verify data hash signature) ∧
    (key.publicKey.verify data hash signature = .error (.unsupportedDigest hash) ↔
      hash = .sha1 ∨ hash = .sha224) ∧
    (key.publicKey.verify data hash signature = .error (.unsupportedDigest hash) ∨
      key.publicKey.verify data hash signature = .ok () ∨
      key.publicKey.verify data hash signature = .error .invalidSignature) := by
  refine ⟨Checked.verify?_eq key data hash signature, ?_⟩
  by_cases weak : hash = .sha1 ∨ hash = .sha224
  · have refused := verify_of_weak weak key.publicKey data signature
    exact ⟨⟨fun _ => weak, fun _ => refused⟩, .inl refused⟩
  · have listed : hash ∈ HashName.computed := by
      revert weak
      cases hash <;> decide
    have verdict := verify_of_computed listed key.publicKey data signature
    refine ⟨⟨?_, fun impossible => absurd impossible weak⟩, .inr verdict⟩
    intro refused
    rcases verdict with valid | invalid
    · rw [valid] at refused
      cases refused
    · rw [invalid] at refused
      cases refused

/-- A modulus of one octet is far too short for the positions of a padded digest. -/
example : Checked.verify? (rsa ⟨33, 3⟩) [] .sha256 [5] = some (.error .invalidSignature) := by
  decide +kernel

/-- The sum of the points is the neutral element if the first scalar is the opposite of the digest and
the point is the base point. -/
example :
    let order := Curve.p256.domain.order
    let signature : Ecdsa.Signature :=
      ⟨order - 0xe3b0c44298fc1c149afbf4c8996fb92427ae41e4649b934ca495991b7852b855, 1⟩
    signature.IsFor order ∧
      Checked.verify? (ec .p256 Curve.p256.domain.base) [] .sha256 signature.write =
        some (.error .invalidSignature) := by
  decide +kernel

end PublicKey
end CredentialSigning
