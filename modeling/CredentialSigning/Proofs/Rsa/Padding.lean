import CredentialSigning.Proofs.Der.Reading
import CredentialSigning.Proofs.Signing

/-! Which moduli a padded hash fits into. The padding fills all octets of the modulus and begins with
zero, so the number it denotes is below the modulus. -/

namespace CredentialSigning.Rsa
open Der

/-- The hash functions that are computed, each with the fewest octets of a modulus that its padded
digest fits into. -/
def leastSizes : List (HashName × Nat) :=
  [(.sha256, 62), (.sha384, 78), (.sha512, 94)]

namespace PublicKey

theorem size_eq (key : PublicKey) : key.size = (Bytes.minimal key.modulus).length := by
  rw [size, Residue.bitLength, Bytes.length_minimal]
  omega

theorem modulus_lt (key : PublicKey) : key.modulus < 256 ^ key.size := by
  rw [size_eq]
  exact Bytes.lt_pow_length_minimal key.modulus

theorem le_modulus (key : PublicKey) (positive : 0 < key.modulus) :
    256 ^ (key.size - 1) ≤ key.modulus := by
  rw [size_eq]
  exact Bytes.pow_le_of_minimal positive

end PublicKey

theorem length_digestInfo {identifier : Oid} {digest : Bytes} (nine : identifier.octets.length = 9)
    (short : digest.length ≤ 64) : (digestInfo identifier digest).length = digest.length + 19 := by
  have name : (write 0x06 identifier.octets).length = 11 := by
    rw [length_write_of_lt _ (by omega), nine]
  have null : writeNull.length = 2 := rfl
  have algorithm : (writeSequence [write 0x06 identifier.octets, writeNull]).length = 15 := by
    have content : [write 0x06 identifier.octets, writeNull].flatten.length = 13 := by
      simp [name, null]
    rw [writeSequence, length_write_of_lt _ (by omega), content]
  have value : (write 0x04 digest).length = digest.length + 2 := length_write_of_lt _ (by omega)
  have content : [writeSequence [write 0x06 identifier.octets, writeNull],
      write 0x04 digest].flatten.length = digest.length + 17 := by
    simp only [List.flatten_cons, List.flatten_nil, List.append_nil, List.length_append, algorithm,
      value]
    omega
  rw [digestInfo, writeSequence, length_write_of_lt _ (by omega), content]

theorem length_identifier {hash : HashName} {identifier : Oid}
    (named : hash.identifier? = some identifier) :
    identifier.octets.length = 9 ∧ hash.size ≤ 64 := by
  cases hash <;> cases named <;> decide

/-- A hash function that is computed yields a digest of its length, and has an identifier. -/
theorem digest_of_listed {hash : HashName} {least : Nat} (listed : (hash, least) ∈ leastSizes)
    (data : Bytes) : ∃ digest identifier, hash.digest data = .ok digest ∧
      digest.length = hash.size ∧ hash.identifier? = some identifier ∧
      (digestInfo identifier digest).length + 11 = least := by
  have kinds : ∀ entry ∈ leastSizes, entry.1 ∈ HashName.computed ∧
      entry.1.identifier?.isSome ∧ entry.1.size + 30 = entry.2 := by
    decide
  obtain ⟨computed, isNamed, room⟩ := kinds _ listed
  obtain ⟨digest, made⟩ := HashName.exists_digest computed data
  obtain ⟨identifier, named⟩ := Option.isSome_iff_exists.mp isNamed
  obtain ⟨length, short⟩ := HashName.length_of_digest made
  refine ⟨digest, identifier, made, length, named, ?_⟩
  rw [length_digestInfo (length_identifier named).1 short, length]
  exact room

/-- The parts of a padded hash. -/
theorem exists_of_padded? {size : Nat} {hash : HashName} {digest padded : Bytes}
    (found : padded? size hash digest = some padded) :
    ∃ identifier, hash.identifier? = some identifier ∧ digest.length = hash.size ∧
      (digestInfo identifier digest).length + 11 ≤ size ∧
      padded = 0 :: 1 :: List.replicate (size - (digestInfo identifier digest).length - 3) 0xff ++
        0 :: digestInfo identifier digest := by
  unfold padded? at found
  obtain ⟨identifier, named, rest⟩ := Option.bind_eq_some_iff.mp found
  simp only at rest
  split at rest
  · rename_i conditions
    exact ⟨identifier, named, conditions.1, conditions.2, (Option.some.inj rest).symm⟩
  · cases rest

theorem length_padded? {size : Nat} {hash : HashName} {digest padded : Bytes}
    (found : padded? size hash digest = some padded) : padded.length = size := by
  obtain ⟨identifier, -, -, room, same⟩ := exists_of_padded? found
  rw [same]
  simp only [List.cons_append, List.length_cons, List.length_append, List.length_replicate]
  omega

/-- A padded hash begins with zero, so its number has room below the modulus. -/
theorem toNat_padded?_lt {size : Nat} {hash : HashName} {digest padded : Bytes}
    (found : padded? size hash digest = some padded) : padded.toNat < 256 ^ (size - 1) := by
  have length := length_padded? found
  obtain ⟨identifier, -, -, -, same⟩ := exists_of_padded? found
  rw [same] at length ⊢
  rw [List.cons_append, Bytes.toNat_zero_cons]
  rw [List.cons_append, List.length_cons] at length
  apply (Bytes.toNat_lt _).trans_le
  exact Nat.pow_le_pow_right (by decide) (by omega)

theorem padded?_isSome_iff (size : Nat) {least : Nat} {hash : HashName} {identifier : Oid}
    {digest : Bytes} (length : digest.length = hash.size) (named : hash.identifier? = some identifier)
    (fits : (digestInfo identifier digest).length + 11 = least) :
    (padded? size hash digest).isSome ↔ least ≤ size := by
  simp only [padded?, named, Option.bind_eq_bind, Option.bind_some, length, true_and, fits]
  by_cases large : least ≤ size
  · simp [large]
  · simp [large]

end CredentialSigning.Rsa
