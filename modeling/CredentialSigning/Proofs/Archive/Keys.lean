import CredentialSigning.Proofs.Archive.Integrity

/-! When an archive counts as one without a private key. Only shrouded keys that open are looked for;
a key that is not shrouded, and one that does not open, are passed over. -/

namespace CredentialSigning

namespace Archive

/-- The type of bags with keys that are not shrouded. -/
def Oid.keyBag : Bytes := [0x2a, 0x86, 0x48, 0x86, 0xf7, 0x0d, 0x01, 0x0c, 0x0a, 0x01, 0x01]

namespace Bag

/-- The type of the bag says that it holds a key. -/
def IsKey : Bag → Prop
  | shroudedKey _ _ => True
  | certificate _ => False
  | other type => type = Oid.keyBag

/-- A shrouded key that the empty password opens. -/
def Opens (bag : Bag) : Prop :=
  ∃ protection octets key, bag = shroudedKey protection octets ∧ protection.decrypt? octets = some key

theorem Opens.isKey {bag : Bag} (opens : bag.Opens) : bag.IsKey := by
  obtain ⟨protection, octets, key, rfl, -⟩ := opens
  trivial

theorem key?_eq_none_iff {bag : Bag} : bag.key? = none ↔ ¬bag.Opens := by
  constructor
  · rintro shut ⟨protection, octets, key, rfl, opened⟩
    rw [key?, opened] at shut
    cases shut
  · intro shut
    cases found : bag.key? with
    | none => rfl
    | some key =>
      cases bag with
      | shroudedKey protection octets => exact absurd ⟨protection, octets, key, rfl, found⟩ shut
      | certificate octets => cases found
      | other type => cases found

theorem filterMap_key?_eq_nil_iff {bags : List Bag} :
    bags.filterMap key? = [] ↔ ∀ bag ∈ bags, ¬bag.Opens := by
  rw [List.filterMap_eq_nil_iff]
  exact forall₂_congr fun bag member => key?_eq_none_iff

end Bag
end Archive

namespace PrivateKey

/-- A key that is refused is unsupported or invalid. -/
theorem kind_of_ofInfo {info : Key.Info} {failure : Failure} (refused : ofInfo info = .error failure) :
    failure.kind = .unsupportedAlgorithm ∨ failure.kind = .invalidCredential := by
  unfold ofInfo at refused
  repeat' split at refused
  all_goals cases refused
  all_goals first | exact .inl rfl | exact .inr rfl

theorem ofInfo_ne_noPrivateKey (info : Key.Info) : ofInfo info ≠ .error .noPrivateKey := by
  intro refused
  rcases kind_of_ofInfo refused with unsupported | invalid
  · cases unsupported
  · cases invalid

end PrivateKey

namespace Archive

theorem selectLeaf_ne_noPrivateKey (key : PublicKey) (certificates : List Bytes) :
    selectLeaf key certificates ≠ .error .noPrivateKey := by
  intro refused
  unfold selectLeaf at refused
  repeat' split at refused
  all_goals cases refused

/-- Once a key is found, no later step says that there is none. -/
theorem credentials_eq_noPrivateKey_iff {bags : List Bag} :
    credentials bags = .error .noPrivateKey ↔ ∀ bag ∈ bags, ¬bag.Opens := by
  rw [← Bag.filterMap_key?_eq_nil_iff]
  unfold credentials
  cases bags.filterMap Bag.key? with
  | nil => simp
  | cons octets others =>
    refine iff_of_false ?_ (List.cons_ne_nil octets others)
    intro refused
    cases read : Key.Info.ofDer? octets with
    | none => simp [read] at refused
    | some info =>
      simp only [read] at refused
      cases admitted : PrivateKey.ofInfo info with
      | error failure =>
        rw [admitted] at refused
        cases refused
        exact PrivateKey.ofInfo_ne_noPrivateKey info admitted
      | ok key =>
        rw [admitted] at refused
        cases selected : selectLeaf key.publicKey (bags.filterMap Bag.certificate?) with
        | error failure =>
          simp only [bind, Except.bind, selected] at refused
          cases refused
          exact selectLeaf_ne_noPrivateKey _ _ selected
        | ok leaf =>
          simp only [bind, Except.bind, selected] at refused
          cases refused

/-- The octets are an archive that passes its integrity check and whose contents open to the bags. -/
def Holds (octets : Bytes) (bags : List Bag) : Prop :=
  ∃ archive, read? octets = some archive ∧ archive.isIntact = true ∧ archive.bags? = some bags

theorem decode_of_holds {octets : Bytes} {bags : List Bag} (holds : Holds octets bags) :
    decode octets = credentials bags := by
  obtain ⟨archive, read, intact, opened⟩ := holds
  simp only [decode, read, if_pos intact, opened]

/-- No other archive is said to be without a key. -/
theorem decode_eq_noPrivateKey_iff {octets : Bytes} :
    decode octets = .error .noPrivateKey ↔
      ∃ bags, Holds octets bags ∧ ∀ bag ∈ bags, ¬bag.Opens := by
  constructor
  · intro refused
    cases read : read? octets with
    | none =>
      simp only [decode, read] at refused
      cases refused
    | some archive =>
      by_cases intact : archive.isIntact = true
      · cases opened : archive.bags? with
        | none =>
          simp only [decode, read, if_pos intact, opened] at refused
          cases refused
        | some bags =>
          have holds : Holds octets bags := ⟨archive, read, intact, opened⟩
          rw [decode_of_holds holds] at refused
          exact ⟨bags, holds, credentials_eq_noPrivateKey_iff.mp refused⟩
      · simp only [decode, read, if_neg intact] at refused
        cases refused
  · rintro ⟨bags, holds, shut⟩
    rw [decode_of_holds holds]
    exact credentials_eq_noPrivateKey_iff.mpr shut

end Archive

namespace Signer

/-- An archive is said to be without a key exactly if none of its shrouded keys opens. That is so if
it has no key at all, and means it if all its keys open. -/
theorem ofArchive_noPrivateKey_iff {files : Files} {path : String} {octets : Bytes}
    (present : files.read path = .ok octets) {bags : List Archive.Bag}
    (holds : Archive.Holds octets bags) :
    (ofArchive files path = .error .noPrivateKey ↔ ∀ bag ∈ bags, ¬bag.Opens) ∧
    ((∀ bag ∈ bags, ¬bag.IsKey) → ofArchive files path = .error .noPrivateKey) ∧
    ((∀ bag ∈ bags, bag.IsKey → bag.Opens) →
      (ofArchive files path = .error .noPrivateKey ↔ ∀ bag ∈ bags, ¬bag.IsKey)) := by
  have decided : ofArchive files path = .error .noPrivateKey ↔ ∀ bag ∈ bags, ¬bag.Opens := by
    rw [ofArchive_of_read present, Archive.decode_of_holds holds,
      ← Archive.credentials_eq_noPrivateKey_iff]
    cases Archive.credentials bags with
    | error failure => simp [Except.map]
    | ok found => simp [Except.map]
  refine ⟨decided, ?_, ?_⟩
  · intro keyless
    exact decided.mpr fun bag member opens => keyless bag member opens.isKey
  · intro allOpen
    rw [decided]
    constructor
    · exact fun shut bag member key => shut bag member (allOpen bag member key)
    · exact fun keyless bag member opens => keyless bag member opens.isKey

/-- An archive with nothing but a certificate has no key. -/
theorem ofArchive_noPrivateKey_certificate :
    let octets := Archive.writePlain [Archive.smallCertificateBag] []
    ofArchive ⟨[(["archive"], .file octets)]⟩ "archive" = .error .noPrivateKey := by
  intro octets
  have holds : Archive.Holds octets [.certificate Archive.smallCertificate] :=
    ⟨⟨.plain (Archive.plainSafe [Archive.smallCertificateBag]), none⟩, by decide +kernel, rfl,
      by decide +kernel⟩
  refine (ofArchive_noPrivateKey_iff rfl holds).2.1 ?_
  intro bag member
  obtain rfl := List.mem_singleton.mp member
  exact id

end Signer

namespace Archive
open Der

def writeMac (mac : Mac) : Bytes :=
  writeSequence [
    writeSequence [writeSequence [write 0x06 Oid.sha1, writeNull], write 0x04 mac.digest],
    write 0x04 mac.salt, writeNatural mac.iterations]

/-- The small key as it is. -/
def plainKeyBag : Bytes :=
  writeBag Oid.keyBag (writeSequence [write 0x02 [0],
    writeSequence [write 0x06 Oid.rsaEncryption.octets, writeNull],
    write 0x04 (writeSequence ([0, 33, 7, 3, 11, 3, 3, 1, 4].map writeNatural))])

/-- A key shrouded by an algorithm that is not known. -/
def foreignKeyBag : Bytes :=
  writeBag Oid.shroudedKeyBag (writeSequence [
    writeSequence [write 0x06 [0x2a, 0x86, 0x48, 0x86, 0xf7, 0x0d, 0x01, 0x05, 0x0d]],
    write 0x04 [0x00]])

/-- The digest for these two bags with a salt of one octet and one iteration. -/
def keysMac : Mac :=
  ⟨[0x23, 0x87, 0xe2, 0xce, 0x35, 0xa2, 0xe2, 0x8b, 0xa5, 0x27, 0x3d, 0x33, 0xd1, 0xb7, 0x0b, 0xfd,
    0x76, 0x22, 0x0e, 0x4a], [0x01], 1⟩

end Archive

namespace Signer

/-- Keys that are not shrouded, or that do not open, are passed over: an archive of two such keys,
with the right digest, is said to have no key. -/
theorem ofArchive_noPrivateKey_keys :
    let octets := Archive.writePlain [Archive.plainKeyBag, Archive.foreignKeyBag]
      (Archive.writeMac Archive.keysMac)
    ∃ bags, Archive.Holds octets bags ∧ bags ≠ [] ∧ (∀ bag ∈ bags, bag.IsKey) ∧
      (Archive.read? octets).bind Archive.mac = some Archive.keysMac ∧
      ofArchive ⟨[(["archive"], .file octets)]⟩ "archive" = .error .noPrivateKey := by
  intro octets
  let safe := Archive.plainSafe [Archive.plainKeyBag, Archive.foreignKeyBag]
  have read : Archive.read? octets = some ⟨.plain safe, some Archive.keysMac⟩ := by decide +kernel
  have opened : Archive.bags? ⟨.plain safe, some Archive.keysMac⟩ =
      some [.other Archive.Oid.keyBag, .shroudedKey .other [0x00]] := by decide +kernel
  have holds : Archive.Holds octets [.other Archive.Oid.keyBag, .shroudedKey .other [0x00]] :=
    ⟨_, read, by decide +kernel, opened⟩
  have refused : Archive.decode octets = .error .noPrivateKey := by
    rw [Archive.decode_of_holds holds]
    rfl
  refine ⟨_, holds, List.cons_ne_nil _ _, ?_, by rw [read]; rfl, ?_⟩
  · simp [Archive.Bag.IsKey]
  · rw [ofArchive_of_read rfl, refused]
    rfl

end Signer
end CredentialSigning
