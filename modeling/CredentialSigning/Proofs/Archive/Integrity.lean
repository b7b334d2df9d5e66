import CredentialSigning.Signer.Files
import Mathlib.Logic.Function.Iterate

/-! The integrity check of an archive. A digest that is there has to be the one that the empty
password, the salt and the iterations give for the safe; an archive without one is not checked. -/

namespace CredentialSigning

namespace Bytes

/-- Octets again and again, up to a number of them. -/
def repeated (octets : Bytes) (count : Nat) : Bytes :=
  (List.range count).map fun place => octets.getD (place % octets.length) 0

theorem getElem?_flatten_replicate (octets : Bytes) {copies place : Nat}
    (inside : place < copies * octets.length) :
    (List.replicate copies octets).flatten[place]? = octets[place % octets.length]? := by
  induction copies generalizing place with
  | zero => omega
  | succ copies hypothesis =>
    rw [List.replicate_succ, List.flatten_cons]
    by_cases first : place < octets.length
    · rw [List.getElem?_append_left first, Nat.mod_eq_of_lt first]
    · have after : octets.length ≤ place := Nat.not_lt.mp first
      have later : place - octets.length < copies * octets.length := by
        rw [Nat.succ_mul] at inside
        omega
      rw [List.getElem?_append_right after, hypothesis later, ← Nat.mod_eq_sub_mod after]

theorem cycle_eq_repeated {octets : Bytes} (nonempty : octets ≠ []) (count : Nat) :
    octets.cycle count = octets.repeated count := by
  have positive : 0 < octets.length := List.length_pos_iff.mpr nonempty
  have enough : count ≤ (count / octets.length + 1) * octets.length := by
    have whole := Nat.div_add_mod count octets.length
    have below := Nat.mod_lt count positive
    rw [Nat.succ_mul, Nat.mul_comm]
    omega
  rw [cycle, if_neg (by simpa using nonempty), repeated]
  apply List.ext_getElem?
  intro place
  by_cases inside : place < count
  · have within : place % octets.length < octets.length := Nat.mod_lt place positive
    rw [List.getElem?_take_of_lt inside, getElem?_flatten_replicate octets (Nat.lt_of_lt_of_le inside enough),
      List.getElem?_map, List.getElem?_range inside]
    simp [within]
  · have outside : count ≤ place := Nat.not_lt.mp inside
    rw [List.getElem?_take_eq_none outside, List.getElem?_eq_none]
    simpa using outside

end Bytes

namespace Archive

namespace Derivation

theorem iterate_eq_iterate {α : Type} (step : α → α) (count : Nat) (value : α) :
    iterate step count value = step^[count] value := by
  induction count generalizing value with
  | zero => rfl
  | succ count hypothesis => exact hypothesis (step value)

theorem filled_eq_repeated (octets : Bytes) :
    filled octets = octets.repeated ((octets.length + 63) / 64 * 64) := by
  by_cases empty : octets = []
  · subst empty
    rfl
  · exact Bytes.cycle_eq_repeated empty _

theorem filled_emptyPassword : filled emptyPassword = List.replicate 64 0 := by
  decide

end Derivation

namespace Mac

/-- The key of a digest under the empty password: the hash, iterated, of the purpose, the salt and
the password, each of which fills whole blocks. -/
def key (mac : Mac) : Bytes :=
  (Hash.Sha1.digest^[mac.iterations]
    (List.replicate 64 3 ++ (mac.salt.repeated ((mac.salt.length + 63) / 64 * 64) ++
      List.replicate 64 0))).take 20

theorem derive_eq_key (mac : Mac) :
    Derivation.derive .mac mac.salt mac.iterations 20 = mac.key := by
  rw [key, ← Derivation.filled_eq_repeated, ← Derivation.filled_emptyPassword,
    ← Derivation.iterate_eq_iterate]
  simp [Derivation.derive, Derivation.rounds, Derivation.Purpose.octet]

/-- The digest is the one of what the safe holds. -/
def IsVerified (mac : Mac) (safe : Content) : Prop :=
  ∃ octets, safe.open? = some octets ∧ mac.digest = Hash.Hmac.sha1 mac.key octets

theorem holds_iff (mac : Mac) (octets : Bytes) :
    mac.holds octets = true ↔ mac.digest = Hash.Hmac.sha1 mac.key octets := by
  rw [holds, derive_eq_key, decide_eq_true_eq]
  exact eq_comm

end Mac

theorem isIntact_iff (archive : Archive) :
    archive.isIntact = true ↔ ∀ mac ∈ archive.mac, mac.IsVerified archive.safe := by
  unfold isIntact
  cases archive.mac with
  | none => simp
  | some mac => simp [Option.any_eq_true, Mac.holds_iff, Mac.IsVerified]

theorem decode_of_not_verified {octets : Bytes} {archive : Archive} (read : read? octets = some archive)
    (wrong : ¬∀ mac ∈ archive.mac, mac.IsVerified archive.safe) :
    decode octets = .error (.malformedArchive .mac) := by
  have broken : ¬archive.isIntact = true := fun intact => wrong ((isIntact_iff archive).mp intact)
  simp only [decode, read, if_neg broken]

theorem verified_of_decode {octets : Bytes} {found : PrivateKey × Certificate}
    (decoded : decode octets = .ok found) : ∃ archive, read? octets = some archive ∧
      ∀ mac ∈ archive.mac, mac.IsVerified archive.safe := by
  cases read : read? octets with
  | none =>
    simp only [decode, read] at decoded
    cases decoded
  | some archive =>
    refine ⟨archive, rfl, ?_⟩
    by_contra wrong
    rw [decode_of_not_verified read wrong] at decoded
    cases decoded

end Archive

namespace Files

theorem contentOf_eq_ok_iff {files : Files} {path : String} {octets : Bytes} :
    files.contentOf path = .ok octets ↔ files.read path = .ok octets := by
  unfold contentOf
  cases files.read path with
  | error fault =>
    refine iff_of_false ?_ ?_
    · intro read
      cases read
    · intro read
      cases read
  | ok content =>
    constructor
    · intro read
      cases read
      rfl
    · intro read
      cases read
      rfl

end Files

theorem exists_eq_ok {ε α : Type} {result : Except ε α} (succeeds : result.toOption.isSome = true) :
    ∃ value, result = .ok value := by
  cases result with
  | error failure => cases succeeds
  | ok value => exact ⟨value, rfl⟩

namespace Signer

/-- Once the file is read, the archive alone decides. -/
theorem ofArchive_of_read {files : Files} {path : String} {octets : Bytes}
    (present : files.read path = .ok octets) : ofArchive files path =
      (Archive.decode octets).map fun found => ⟨found.1, found.2, []⟩ := by
  rw [ofArchive, Files.contentOf_eq_ok_iff.mpr present]
  cases decoded : Archive.decode octets with
  | error failure => simp [decoded, bind, Except.bind, Except.map]
  | ok found => simp [decoded, bind, Except.bind, Except.map]

theorem exists_of_ofArchive {files : Files} {path : String} {signer : Signer}
    (built : ofArchive files path = .ok signer) : ∃ octets found,
      files.read path = .ok octets ∧ Archive.decode octets = .ok found := by
  cases present : files.read path with
  | error fault =>
    have unread : files.contentOf path = .error (.io fault) := by
      rw [Files.contentOf, present]
      rfl
    rw [ofArchive, unread] at built
    cases built
  | ok octets =>
    rw [ofArchive_of_read present] at built
    cases decoded : Archive.decode octets with
    | error failure =>
      rw [decoded] at built
      cases built
    | ok found => exact ⟨octets, found, rfl, decoded⟩

/-- No signer is built from an archive with a digest unless the digest is right. Where it is not, and
where the octets are no archive, the failure says so, whatever else is in the file. -/
theorem ofArchive_verified (files : Files) (path : String) :
    (∀ signer, ofArchive files path = .ok signer → ∃ octets archive,
      files.read path = .ok octets ∧ Archive.read? octets = some archive ∧
        ∀ mac ∈ archive.mac, mac.IsVerified archive.safe) ∧
    (∀ octets archive, files.read path = .ok octets → Archive.read? octets = some archive →
      (¬∀ mac ∈ archive.mac, mac.IsVerified archive.safe) →
      ofArchive files path = .error (.malformedArchive .mac)) ∧
    (∀ octets, files.read path = .ok octets → Archive.read? octets = none →
      ofArchive files path = .error (.malformedArchive .parsing)) := by
  refine ⟨?_, ?_, ?_⟩
  · intro signer built
    obtain ⟨octets, found, present, decoded⟩ := exists_of_ofArchive built
    obtain ⟨archive, read, verified⟩ := Archive.verified_of_decode decoded
    exact ⟨octets, archive, present, read, verified⟩
  · intro octets archive present read wrong
    rw [ofArchive_of_read present, Archive.decode_of_not_verified read wrong]
    rfl
  · intro octets present unread
    have failed : Archive.decode octets = .error (.malformedArchive .parsing) := by
      simp only [Archive.decode, unread]
    rw [ofArchive_of_read present, failed]
    rfl

end Signer

namespace Archive
open Der

def writeData (octets : Bytes) : Bytes :=
  writeSequence [write 0x06 Oid.data, write 0xa0 (write 0x04 octets)]

def writeBag (type value : Bytes) : Bytes :=
  writeSequence [write 0x06 type, write 0xa0 value]

/-- A safe with bags in one plain content. -/
def plainSafe (bags : List Bytes) : Bytes :=
  writeSequence [writeData (writeSequence bags)]

/-- An archive with that safe, and a digest or nothing. -/
def writePlain (bags : List Bytes) (mac : Bytes) : Bytes :=
  writeSequence [write 0x02 [3], writeData (plainSafe bags), mac]

/-- An RSA key with the modulus 33, shrouded by RC2 with a salt of one octet and one iteration. -/
def smallKeyBag : Bytes :=
  writeBag Oid.shroudedKeyBag (writeSequence [
    writeSequence [write 0x06 Oid.rc2, writeSequence [write 0x04 [0x01], write 0x02 [0x01]]],
    write 0x04 [0xe5, 0x71, 0x74, 0x56, 0xb2, 0x40, 0x58, 0xc5, 0x39, 0xb8, 0x1a, 0xf9, 0x12, 0x3f,
      0xe9, 0x3a, 0x09, 0x8b, 0xfd, 0x7b, 0x6d, 0x19, 0x53, 0x19, 0x18, 0xdd, 0x6e, 0xe1, 0x3c, 0xc9,
      0xd4, 0x93, 0xce, 0xa7, 0xaf, 0xea, 0x79, 0x6a, 0x1d, 0xaf, 0xed, 0x02, 0x7d, 0xcb, 0x92, 0x29,
      0x6b, 0xc6, 0x91, 0xfd, 0xf7, 0xf3, 0x69, 0xf4, 0xd2, 0x1a]])

/-- That bag as it is read; the shrouded octets come last. -/
def smallShroudedKey : Bag :=
  .shroudedKey (.rc2 [0x01] 1) (smallKeyBag.drop 43)

/-- What it opens to. -/
def smallKey : Bytes :=
  writeSequence [write 0x02 [0], writeSequence [write 0x06 Oid.rsaEncryption.octets, writeNull],
    write 0x04 (writeSequence ([0, 33, 7, 3, 11, 3, 3, 1, 4].map writeNatural))]

theorem key?_smallShroudedKey : smallShroudedKey.key? = some smallKey := by
  have key : Derivation.derive .key [0x01] 1 5 = [0xbf, 0x50, 0x1c, 0x17, 0xe2] := by
    decide +kernel
  have vector : Derivation.derive .vector [0x01] 1 8 =
      [0xd5, 0x8f, 0xc1, 0xad, 0x4d, 0x90, 0x83, 0x3d] := by
    decide +kernel
  rw [smallShroudedKey, Bag.key?, Protection.decrypt?, key, vector]
  decide +kernel

/-- A certificate without names for that key. -/
def smallCertificate : Bytes :=
  let algorithm := writeSequence [write 0x06 Oid.rsaEncryption.octets, writeNull]
  let time := write 0x17 [0x30, 0x30, 0x30, 0x31, 0x30, 0x31, 0x30, 0x30, 0x30, 0x30, 0x30, 0x30, 0x5a]
  writeSequence [
    writeSequence [write 0x02 [0x01], algorithm, writeSequence [], writeSequence [time, time],
      writeSequence [], (PublicKey.rsa ⟨33, 7⟩).toDer],
    algorithm, writeBitString []]

def smallCertificateBag : Bytes :=
  writeBag Oid.certificateBag (writeSequence [write 0x06 Oid.x509,
    write 0xa0 (write 0x04 smallCertificate)])

end Archive

namespace Signer

/-- From an archive without a digest a signer is built, unchecked. -/
theorem ofArchive_unchecked :
    let octets := Archive.writePlain [Archive.smallKeyBag, Archive.smallCertificateBag] []
    let files : Files := ⟨[(["archive"], .file octets)]⟩
    (∃ signer, ofArchive files "archive" = .ok signer) ∧
      ∃ archive, Archive.read? octets = some archive ∧ archive.mac = none := by
  intro octets files
  let archive : Archive := ⟨.plain (Archive.plainSafe [Archive.smallKeyBag, Archive.smallCertificateBag]), none⟩
  have present : files.read "archive" = .ok octets := rfl
  have read : Archive.read? octets = some archive := by decide +kernel
  have opened : archive.bags? =
      some [Archive.smallShroudedKey, .certificate Archive.smallCertificate] := by decide +kernel
  have keys : [Archive.smallShroudedKey, .certificate Archive.smallCertificate].filterMap
      Archive.Bag.key? = [Archive.smallKey] := by
    rw [List.filterMap_cons, Archive.key?_smallShroudedKey]
    rfl
  have made : (Archive.credentials [Archive.smallShroudedKey,
      .certificate Archive.smallCertificate]).toOption.isSome = true := by
    rw [Archive.credentials, keys]
    decide +kernel
  obtain ⟨found, made⟩ := exists_eq_ok made
  have intact : archive.isIntact = true := rfl
  have decoded : Archive.decode octets = .ok found := by
    simp only [Archive.decode, read, if_pos intact, opened, made]
  refine ⟨⟨⟨found.1, found.2, []⟩, ?_⟩, archive, read, rfl⟩
  rw [ofArchive_of_read present, decoded]
  rfl

end Signer
end CredentialSigning
