import CredentialSigning.Proofs.Ecdsa.Encoding
import CredentialSigning.Proofs.Ecdsa.Signature
import CredentialSigning.Proofs.Signing

/-! A signature that a signer with a key on a curve gives out verifies under the signer's public key,
whatever the data, the hash function and the generator are. -/

namespace CredentialSigning

namespace Ecdsa

namespace Key

theorem verifyingPoint?_point (key : Key) :
    verifyingPoint? key.curve key.point = some key.point := by
  have finite := key.point_ne_infinity
  unfold verifyingPoint?
  split
  · contradiction
  · rfl

end Key

/-- Signer and verifier bring the hash to the same number. -/
theorem signWith?_of_sign? {key : Key} {hash : Bytes} {generator : Generator}
    {signature : Signature} (signed : (sign? key hash generator).1 = some signature) :
    ∃ octets nonce, fitted? key.curve.domain.width (prehash key.curve hash) = some octets ∧
      signWith? key.curve.domain key.scalar octets.toNat nonce = some signature := by
  unfold sign? at signed
  split at signed
  · cases signed
  · rename_i octets fits
    obtain ⟨nonce, -, made⟩ := Option.bind_eq_some_iff.mp signed
    exact ⟨octets, nonce, fits, made⟩

theorem accepts_of_sign? {key : Key} {hash : Bytes} {generator : Generator} {signature : Signature}
    (signed : (sign? key hash generator).1 = some signature) :
    accepts key.curve key.point hash signature.write = true := by
  obtain ⟨octets, nonce, fits, made⟩ := signWith?_of_sign? signed
  have signs := signs_of_signWith? made
  have verifies := verifies_of_signs signs
  simp only [accepts, Signature.read?_write key.curve signs.isFor, key.verifyingPoint?_point, fits]
  exact verifies

end Ecdsa

namespace Signer

/-- Every signature with a key on a curve verifies. -/
theorem verify_ec_signature (signer : Signer) (key : Ecdsa.Key) (holds : signer.key = .ec key)
    (data : Bytes) (hash : HashName) (generator : Generator) (signature : Bytes)
    (signed : (signer.sign data hash generator).1 = .ok signature) :
    signer.publicKey.verify data hash signature = .ok () := by
  rw [sign, holds] at signed
  obtain ⟨digest, pair, computed, made, rfl⟩ := PrivateKey.sign_ec_eq_ok signed
  rw [publicKey, holds, PublicKey.verify_eq_ok_iff computed]
  exact Ecdsa.accepts_of_sign? made

/-- The largest scalar on P-521 signs a digest of less than half the width. The first block of the
generator is no number below the order, the second one denotes one. -/
theorem verify_ec_signature_p521 :
    let signer : Signer :=
      ⟨.ec ⟨.p521, Curve.p521Domain.order - 1, by decide +kernel, by decide +kernel⟩,
        ⟨[], [], [], [], []⟩, []⟩
    let generator := Generator.start (List.replicate 66 0xff ++ List.replicate 65 0 ++ [1])
    let signature : Ecdsa.Signature := ⟨Curve.p521Domain.baseX,
      0x1397a71f948fbfb163261c13499dc6a4bbd639b7ec6fac04ade07d7509f94b2c24093ebed4e684459571caa34e9ed79b616301b57db68cd985f6686d20846a55ef8⟩
    (signer.sign [] .sha256 generator).1 = .ok signature.write ∧
      signer.publicKey.verify [] .sha256 signature.write = .ok () := by
  intro signer generator signature
  have signed : (signer.sign [] .sha256 generator).1 = .ok signature.write := by decide +kernel
  exact ⟨signed, verify_ec_signature signer _ rfl [] .sha256 generator signature.write signed⟩

end Signer
end CredentialSigning
