import CredentialSigning.Signer.Basic

/-! What signing and verifying data come down to once its hash is computed. -/

namespace CredentialSigning

namespace HashName

/-- The hash functions that are computed. -/
def computed : List HashName :=
  [sha256, sha384, sha512]

theorem exists_digest {hash : HashName} (listed : hash ∈ computed) (data : Bytes) :
    ∃ digest, hash.digest data = .ok digest := by
  simp only [computed, List.mem_cons, List.not_mem_nil, or_false] at listed
  rcases listed with rfl | rfl | rfl
  · exact ⟨_, rfl⟩
  · exact ⟨_, rfl⟩
  · exact ⟨_, rfl⟩

/-- No digest has more than 64 octets. -/
theorem length_of_digest {hash : HashName} {data digest : Bytes}
    (made : hash.digest data = .ok digest) : digest.length = hash.size ∧ digest.length ≤ 64 := by
  unfold HashName.digest at made
  split at made
  · rename_i found
    obtain rfl := Except.ok.inj made
    have length := length_digest found
    refine ⟨length, ?_⟩
    rw [length]
    cases hash <;> decide
  · cases made

end HashName

namespace PublicKey

theorem verify_eq_ok_iff {key : PublicKey} {data digest signature : Bytes} {hash : HashName}
    (computed : hash.digest data = .ok digest) :
    key.verify data hash signature = .ok () ↔ key.accepts hash digest signature = true := by
  simp only [verify, computed, bind, Except.bind]
  split
  · rename_i accepted
    simp [accepted]
  · rename_i refused
    simp [refused]

/-- What becomes of octets depends on whether they are accepted for the digest. -/
theorem verify_congr {key : PublicKey} {first second : Bytes} {hash : HashName}
    (same : ∀ digest, key.accepts hash digest first = key.accepts hash digest second)
    (data : Bytes) : key.verify data hash first = key.verify data hash second := by
  unfold verify
  cases hash.digest data with
  | error failure => rfl
  | ok digest =>
    change (if key.accepts hash digest first then _ else _) = _
    rw [same]
    rfl

/-- Nothing verifies under a hash function that is not computed. -/
theorem exists_digest_of_verify {key : PublicKey} {data signature : Bytes} {hash : HashName}
    (verified : key.verify data hash signature = .ok ()) :
    ∃ digest, hash.digest data = .ok digest ∧ key.accepts hash digest signature = true := by
  cases computed : hash.digest data with
  | error failure =>
    rw [verify, computed] at verified
    cases verified
  | ok digest => exact ⟨digest, rfl, (verify_eq_ok_iff computed).mp verified⟩

end PublicKey

namespace PrivateKey

variable {data digest : Bytes} {hash : HashName}

/-- A key on a curve gives out the signature of the digest, or blames the curve. -/
theorem sign_ec (key : Ecdsa.Key) (computed : hash.digest data = .ok digest)
    (generator : Generator) :
    ((PrivateKey.ec key).sign data hash generator).1 =
      (Ecdsa.sign? key digest generator).1.elim (.error (.signingFailed (.ecdsa key.curve)))
        fun signature => .ok signature.write := by
  simp only [sign, computed]
  cases (Ecdsa.sign? key digest generator).1 with
  | none => rfl
  | some signature => rfl

/-- Whether there is a signature makes no difference to the generator. -/
theorem generator_sign_ec (key : Ecdsa.Key) (computed : hash.digest data = .ok digest)
    (generator : Generator) :
    ((PrivateKey.ec key).sign data hash generator).2 = (Ecdsa.sign? key digest generator).2 := by
  simp only [sign, computed]
  cases (Ecdsa.sign? key digest generator).1 with
  | none => rfl
  | some signature => rfl

theorem sign_ec_eq_ok {key : Ecdsa.Key} {octets : Bytes} {generator : Generator}
    (signed : ((PrivateKey.ec key).sign data hash generator).1 = .ok octets) :
    ∃ digest signature, hash.digest data = .ok digest ∧
      (Ecdsa.sign? key digest generator).1 = some signature ∧ octets = signature.write := by
  cases computed : hash.digest data with
  | error failure =>
    simp only [sign, computed] at signed
    cases signed
  | ok digest =>
    rw [sign_ec key computed] at signed
    cases made : (Ecdsa.sign? key digest generator).1 with
    | none =>
      rw [made] at signed
      cases signed
    | some signature =>
      rw [made] at signed
      exact ⟨digest, signature, rfl, made, (Except.ok.inj signed).symm⟩

/-- An RSA key gives out the signature of the digest, or blames the hash function. -/
theorem sign_rsa (key : Rsa.PrivateKey) (computed : hash.digest data = .ok digest)
    (generator : Generator) :
    ((PrivateKey.rsa key).sign data hash generator).1 =
      (Rsa.sign? key hash digest generator).1.elim (.error (.signingFailed (.rsa hash))) .ok := by
  simp only [sign, computed]
  cases (Rsa.sign? key hash digest generator).1 with
  | none => rfl
  | some signature => rfl

end PrivateKey
end CredentialSigning
