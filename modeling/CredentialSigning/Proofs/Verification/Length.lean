import CredentialSigning.Proofs.Ecdsa.Encoding
import CredentialSigning.Proofs.Rsa.Binding

/-! Lengths of signatures that verify. Under an RSA key a signature is as long as the modulus; under
a key on a curve its length has a bound, since it has one written form. -/

namespace CredentialSigning

theorem Rsa.length_of_accepts {key : Rsa.PublicKey} {hash : HashName} {digest signature : Bytes}
    (accepted : Rsa.accepts key hash digest signature = true) : signature.length = key.size := by
  unfold Rsa.accepts at accepted
  split at accepted
  · cases accepted
  · simp only [Bool.and_eq_true, decide_eq_true_eq] at accepted
    exact accepted.1.1

/-- An accepted signature is the written form of its scalars. -/
theorem Ecdsa.length_of_accepts {curve : Curve} {point : Curve.Point} {digest signature : Bytes}
    (accepted : Ecdsa.accepts curve point digest signature = true) :
    8 ≤ signature.length ∧ signature.length ≤ Ecdsa.Signature.greatestLength curve := by
  unfold Ecdsa.accepts at accepted
  cases read : Ecdsa.Signature.read? curve.domain.order signature with
  | none => simp [read] at accepted
  | some scalars =>
    obtain ⟨isFor, written⟩ := Ecdsa.Signature.eq_write_of_read? read
    rw [written]
    exact Ecdsa.Signature.length_write isFor

theorem Ecdsa.Signature.greatestLength_le (curve : Curve) : greatestLength curve ≤ 139 := by
  cases curve <;> decide

namespace PublicKey

variable {data signature : Bytes} {hash : HashName}

theorem length_of_verify_rsa {key : Rsa.PublicKey}
    (verified : (rsa key).verify data hash signature = .ok ()) : signature.length = key.size := by
  obtain ⟨digest, -, accepted⟩ := exists_digest_of_verify verified
  exact Rsa.length_of_accepts accepted

theorem length_of_verify_ec {curve : Curve} {point : Curve.Point}
    (verified : (ec curve point).verify data hash signature = .ok ()) :
    8 ≤ signature.length ∧ signature.length ≤ Ecdsa.Signature.greatestLength curve := by
  obtain ⟨digest, -, accepted⟩ := exists_digest_of_verify verified
  exact Ecdsa.length_of_accepts accepted

/-- No octets are a signature under both kinds of keys, whatever was hashed and however, if the modulus
takes more octets than a signature on the widest curve. -/
theorem not_verify_rsa_and_ec (key : Rsa.PublicKey) (long : 139 < key.size) (curve : Curve)
    (point : Curve.Point) (signature data other : Bytes) (hash otherHash : HashName) :
    ¬((rsa key).verify data hash signature = .ok () ∧
      (ec curve point).verify other otherHash signature = .ok ()) := by
  rintro ⟨verified, again⟩
  have length := length_of_verify_rsa verified
  have most := (length_of_verify_ec again).2.trans (Ecdsa.Signature.greatestLength_le curve)
  omega

/-- The third power of the signature is above the modulus by the padded digest of no data. The modulus
takes one octet more than the longest signature on a curve. -/
theorem not_verify_rsa_and_ec_shortest :
    let info :=
      0x3031300d060960864801650304020105000420e3b0c44298fc1c149afbf4c8996fb92427ae41e4649b934ca495991b7852b855
    let key : Rsa.PublicKey := ⟨2 ^ 1119 - 2 ^ 1105 + 2 ^ 416 - info, 3⟩
    let signature := Bytes.ofNat 140 (2 ^ 373)
    key.size = 140 ∧ (rsa key).verify [] .sha256 signature = .ok () ∧
      ∀ curve point other hash, (ec curve point).verify other hash signature ≠ .ok () := by
  intro info key signature
  have size : key.size = 140 := by decide +kernel
  have verified : (rsa key).verify [] .sha256 signature = .ok () := by decide +kernel
  refine ⟨size, verified, ?_⟩
  intro curve point other hash again
  exact not_verify_rsa_and_ec key (by omega) curve point signature [] other .sha256 hash ⟨verified, again⟩

end PublicKey
end CredentialSigning
