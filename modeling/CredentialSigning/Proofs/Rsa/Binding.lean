import CredentialSigning.Proofs.Rsa.Padding

/-! What an RSA signature is bound to. The public exponent recovers a padded hash from it, whatever
the modulus and the exponent are, and a padded hash has one way to be taken apart: after the filler
stands one digest with the identifier of one hash function. -/

namespace CredentialSigning

namespace HashName

theorem find?_size (hash : HashName) : all.find? (·.size = hash.size) = some hash := by
  cases hash <;> decide

/-- The length of a digest tells its hash function. -/
theorem size_injective : Function.Injective size := by
  intro hash other same
  have found := find?_size hash
  rw [same, find?_size other] at found
  exact (Option.some.inj found).symm

end HashName

namespace Rsa
open Der

/-- What stands after the filler and the octet that ends it. -/
def afterFiller (padded : Bytes) : Bytes :=
  ((padded.drop 2).dropWhile (· = 0xff)).drop 1

/-- The filler ends at the first octet that is not 0xff, however long it is. -/
theorem afterFiller_of_padded? {size : Nat} {hash : HashName} {digest padded : Bytes}
    (found : padded? size hash digest = some padded) :
    ∃ identifier, hash.identifier? = some identifier ∧ digest.length = hash.size ∧
      afterFiller padded = digestInfo identifier digest := by
  obtain ⟨identifier, named, length, -, same⟩ := exists_of_padded? found
  refine ⟨identifier, named, length, ?_⟩
  have filler : ∀ octet ∈ List.replicate (size - (digestInfo identifier digest).length - 3)
      (0xff : UInt8), decide (octet = 0xff) = true := by
    intro octet member
    rw [List.eq_of_mem_replicate member]
    rfl
  rw [afterFiller, same, List.cons_append, List.cons_append, List.drop_succ_cons,
    List.drop_succ_cons, List.drop_zero, List.dropWhile_append_of_pos filler]
  rfl

/-- A digest with its identifier ends with the digest. -/
theorem digest_suffix_digestInfo (identifier : Oid) (digest : Bytes) :
    digest <:+ digestInfo identifier digest := by
  have inner : digest <:+ write 0x04 digest := List.suffix_append _ _
  have parts : write 0x04 digest <:+
      [writeSequence [write 0x06 identifier.octets, writeNull], write 0x04 digest].flatten := by
    simp only [List.flatten_cons, List.flatten_nil, List.append_nil]
    exact List.suffix_append _ _
  exact inner.trans (parts.trans (List.suffix_append _ _))

/-- Different hash functions or digests are padded differently. -/
theorem padded?_injective {size : Nat} {hash other : HashName} {digest another padded : Bytes}
    (first : padded? size hash digest = some padded)
    (second : padded? size other another = some padded) : hash = other ∧ digest = another := by
  obtain ⟨identifier, named, length, inFirst⟩ := afterFiller_of_padded? first
  obtain ⟨otherIdentifier, otherNamed, otherLength, inSecond⟩ := afterFiller_of_padded? second
  obtain ⟨nine, short⟩ := length_identifier named
  obtain ⟨otherNine, otherShort⟩ := length_identifier otherNamed
  have whole : (afterFiller padded).length = digest.length + 19 := by
    rw [inFirst, length_digestInfo nine (by omega)]
  have otherWhole : (afterFiller padded).length = another.length + 19 := by
    rw [inSecond, length_digestInfo otherNine (by omega)]
  have lengths : digest.length = another.length := by omega
  have ends := digest_suffix_digestInfo identifier digest
  have otherEnds := digest_suffix_digestInfo otherIdentifier another
  rw [← inFirst] at ends
  rw [← inSecond] at otherEnds
  constructor
  · apply HashName.size_injective
    rw [← length, ← otherLength, lengths]
  · exact (List.suffix_of_suffix_length_le ends otherEnds lengths.le).eq_of_length lengths

/-- What an accepted signature is the signature of can be computed from it with the key. -/
theorem padded?_of_accepts {key : PublicKey} {hash : HashName} {digest signature : Bytes}
    (accepted : accepts key hash digest signature = true) :
    padded? key.size hash digest =
      some (Bytes.ofNat key.size (Residue.power key.modulus signature.toNat key.exponent)) := by
  unfold accepts at accepted
  cases padding : padded? key.size hash digest with
  | none => simp [padding] at accepted
  | some padded =>
    simp only [padding, Bool.and_eq_true, decide_eq_true_eq] at accepted
    rw [accepted.2, ← length_padded? padding, Bytes.ofNat_toNat]

end Rsa

namespace PublicKey

/-- A signature that verifies twice under an RSA key, whatever its modulus and exponent are, verifies
under one hash function and for one digest. -/
theorem verify_rsa_determines (key : Rsa.PublicKey) (signature data other : Bytes)
    (hash otherHash : HashName) (verified : (rsa key).verify data hash signature = .ok ())
    (again : (rsa key).verify other otherHash signature = .ok ()) :
    hash = otherHash ∧ ∃ digest, hash.digest data = .ok digest ∧
      hash.digest other = .ok digest := by
  obtain ⟨digest, computed, accepted⟩ := exists_digest_of_verify verified
  obtain ⟨otherDigest, otherComputed, otherAccepted⟩ := exists_digest_of_verify again
  have padding := Rsa.padded?_of_accepts accepted
  have otherPadding := Rsa.padded?_of_accepts otherAccepted
  obtain ⟨rfl, rfl⟩ := Rsa.padded?_injective padding otherPadding
  exact ⟨rfl, digest, computed, otherComputed⟩

/-- A modulus of 62 octets leaves room for a digest of 256 bits with the shortest filler. The signature
verifies for no data under another hash function. -/
theorem verify_rsa_determines_shortest :
    let key : Rsa.PublicKey :=
      ⟨0x50ffffffaf0000008a8d6bffc6729400472ee77d835e8482ceb4f7847612eff8b27a7c070b3a7b7d0672940001137c06eff78482bffffffffeec83f90267,
        7⟩
    let signature := Bytes.ofNat 62
      0x42f9e0c3c2386de927b85e2556538a198b3d614034dc291c732ed1ab548fd6c1e04c47baeb3f86b27ecee5ab6621639dfdf0af5d6aeb22c2dc5b80f95f6e
    (rsa key).verify [] .sha256 signature = .ok () ∧
      (∃ digest, HashName.digest .sha256 [] = .ok digest ∧ HashName.digest .sha256 [] = .ok digest) ∧
      ∀ other, (rsa key).verify other .sha512 signature ≠ .ok () := by
  intro key signature
  have verified : (rsa key).verify [] .sha256 signature = .ok () := by decide +kernel
  have determined := verify_rsa_determines key signature [] [] .sha256 .sha256 verified verified
  refine ⟨verified, determined.2, ?_⟩
  intro other again
  have same := verify_rsa_determines key signature [] other .sha256 .sha512 verified again
  cases same.1

end PublicKey
end CredentialSigning
