import CredentialSigning.Proofs.Archive.Keys

/-! The key that an archive gives. It is what its first opened octets give by themselves, and so are
the failures, but for octets that are no envelope at all. The certificates come after the key. -/

namespace CredentialSigning

namespace Archive

/-- What the first key and the certificates of an archive make. -/
def select : Option Bytes → List Bytes → Except Failure (PrivateKey × Certificate)
  | none, _ => .error .noPrivateKey
  | some octets, certificates =>
    match Key.Info.ofDer? octets with
    | none => .error (.malformedArchive .keyInfo)
    | some info => do
      let key ← PrivateKey.ofInfo info
      let leaf ← selectLeaf key.publicKey certificates
      .ok (key, leaf)

theorem credentials_eq_select (bags : List Bag) : credentials bags =
    select (bags.filterMap Bag.key?).head? (bags.filterMap Bag.certificate?) := by
  unfold credentials
  cases bags.filterMap Bag.key? <;> rfl

theorem exists_mapM_eq_some {α β : Type} {read : α → Option β} {items : List α}
    (each : ∀ item ∈ items, (read item).isSome) :
    ∃ values, items.mapM read = some values ∧ values.length = items.length := by
  induction items with
  | nil => exact ⟨[], rfl, rfl⟩
  | cons item items hypothesis =>
    obtain ⟨value, found⟩ := Option.isSome_iff_exists.mp (each item List.mem_cons_self)
    obtain ⟨values, later, same⟩ :=
      hypothesis fun other member => each other (List.mem_cons_of_mem item member)
    exact ⟨value :: values, by simp [found, later], by simp [same]⟩

theorem exists_leaf (key : PublicKey) {certificates : List Bytes} (nonempty : certificates ≠ [])
    (sound : ∀ octets ∈ certificates, (Certificate.ofDer? octets).isSome) :
    ∃ leaf, selectLeaf key certificates = .ok leaf := by
  obtain ⟨decoded, found, same⟩ := exists_mapM_eq_some sound
  cases decoded with
  | nil => exact absurd (List.length_eq_zero_iff.mp same.symm) nonempty
  | cons first others =>
    cases carried : (first :: others).find? (·.publicKey = key.subjectPublicKey) with
    | none => exact ⟨first, by simp [selectLeaf, found, carried]⟩
    | some leaf => exact ⟨leaf, by simp [selectLeaf, found, carried]⟩

end Archive

namespace PrivateKey

theorem ofDer_of_info {octets : Bytes} {info : Key.Info} (read : Key.Info.ofDer? octets = some info) :
    ofDer octets = ofInfo info := by
  rw [ofDer, read]

end PrivateKey

namespace Signer

/-- Two signers with the same key, as far as can be seen from outside. -/
structure Agrees (signer other : Signer) : Prop where
  publicKey : signer.publicKey = other.publicKey
  scheme : signer.scheme = other.scheme
  sign : ∀ data hash generator, signer.sign data hash generator = other.sign data hash generator

theorem agrees_of_key {signer other : Signer} (same : signer.key = other.key) :
    signer.Agrees other where
  publicKey := by rw [publicKey, same, publicKey]
  scheme := by rw [scheme, same, scheme]
  sign data hash generator := by rw [sign, same, sign]

theorem ofArchive_eq_select {files : Files} {path : String} {octets : Bytes}
    (present : files.read path = .ok octets) {bags : List Archive.Bag}
    (holds : Archive.Holds octets bags) : ofArchive files path =
      (Archive.select (bags.filterMap Archive.Bag.key?).head?
        (bags.filterMap Archive.Bag.certificate?)).map fun found => ⟨found.1, found.2, []⟩ := by
  rw [ofArchive_of_read present, Archive.decode_of_holds holds, Archive.credentials_eq_select]

/-- The signer of an archive has the key that its first opened octets give, in an envelope by
themselves or in a document. Without an envelope they make the archive malformed; a key that is
refused is refused the same way, whatever the certificates are. -/
theorem ofArchive_agrees {files : Files} {path : String} {octets : Bytes}
    (present : files.read path = .ok octets) {bags : List Archive.Bag}
    (holds : Archive.Holds octets bags) {key : Bytes}
    (first : (bags.filterMap Archive.Bag.key?).head? = some key) :
    (∀ decoded, PrivateKey.ofDer key = .ok decoded →
      bags.filterMap Archive.Bag.certificate? ≠ [] →
      (∀ certificate ∈ bags.filterMap Archive.Bag.certificate?,
        (Certificate.ofDer? certificate).isSome) →
      ∃ signer info, ofArchive files path = .ok signer ∧ Key.Info.ofDer? key = some info ∧
        ∀ certificate chain, signer.Agrees ⟨decoded, certificate, chain⟩ ∧
          ∃ built, ofInfo info certificate chain = .ok built ∧ signer.Agrees built) ∧
    (Key.Info.ofDer? key = none →
      ofArchive files path = .error (.malformedArchive .keyInfo)) ∧
    (∀ info failure, Key.Info.ofDer? key = some info → PrivateKey.ofDer key = .error failure →
      ofArchive files path = .error failure ∧
        (failure.kind = .unsupportedAlgorithm ∨ failure.kind = .invalidCredential)) ∧
    (∀ text label, Pem.Document.read? text = some (label, key) →
      PrivateKey.ofPem text = PrivateKey.ofDer key) := by
  have selected := ofArchive_eq_select present holds
  rw [first] at selected
  refine ⟨?_, ?_, ?_, ?_⟩
  · intro decoded admitted nonempty sound
    obtain ⟨info, read, accepted⟩ := PrivateKey.ofDer_eq_ok_iff.mp admitted
    obtain ⟨leaf, found⟩ := Archive.exists_leaf decoded.publicKey nonempty sound
    refine ⟨⟨decoded, leaf, []⟩, info, ?_, read, ?_⟩
    · rw [selected]
      simp [Archive.select, read, accepted, found, bind, Except.bind, Except.map]
    · intro certificate chain
      refine ⟨agrees_of_key rfl, ⟨decoded, certificate, chain⟩, ?_, agrees_of_key rfl⟩
      rw [ofInfo, accepted]
      rfl
  · intro unread
    rw [selected]
    simp [Archive.select, unread, Except.map]
  · intro info failure read refused
    rw [PrivateKey.ofDer_of_info read] at refused
    refine ⟨?_, PrivateKey.kind_of_ofInfo refused⟩
    rw [selected]
    simp [Archive.select, read, refused, bind, Except.bind, Except.map]
  · intro text label read
    rw [PrivateKey.ofPem_eq, read]

end Signer

namespace Archive

/-- An archive with the small key and its certificate. -/
theorem holds_small : Holds (writePlain [smallKeyBag, smallCertificateBag] [])
    [smallShroudedKey, .certificate smallCertificate] :=
  ⟨⟨.plain (plainSafe [smallKeyBag, smallCertificateBag]), none⟩, by decide +kernel, rfl,
    by decide +kernel⟩

theorem isSome_smallCertificate : (Certificate.ofDer? smallCertificate).isSome = true := by
  decide +kernel

end Archive

namespace Signer

/-- The archive with the small key signs as the key by itself. -/
theorem ofArchive_agrees_small :
    let octets := Archive.writePlain [Archive.smallKeyBag, Archive.smallCertificateBag] []
    ∃ signer decoded, ofArchive ⟨[(["archive"], .file octets)]⟩ "archive" = .ok signer ∧
      PrivateKey.ofDer Archive.smallKey = .ok decoded ∧
      ∀ certificate chain, signer.Agrees ⟨decoded, certificate, chain⟩ := by
  intro octets
  have first : ([Archive.smallShroudedKey, .certificate Archive.smallCertificate].filterMap
      Archive.Bag.key?).head? = some Archive.smallKey := by
    rw [List.filterMap_cons, Archive.key?_smallShroudedKey]
    rfl
  have accepted : (PrivateKey.ofDer Archive.smallKey).toOption.isSome = true := by decide +kernel
  obtain ⟨decoded, admitted⟩ := exists_eq_ok accepted
  have sound : ∀ certificate ∈ [Archive.smallCertificate],
      (Certificate.ofDer? certificate).isSome := by
    intro certificate member
    obtain rfl := List.mem_singleton.mp member
    exact Archive.isSome_smallCertificate
  let files : Files := ⟨[(["archive"], .file octets)]⟩
  have present : files.read "archive" = .ok octets := rfl
  obtain ⟨signer, info, built, -, same⟩ := (ofArchive_agrees present Archive.holds_small first).1
    decoded admitted (List.cons_ne_nil _ _) sound
  exact ⟨signer, decoded, built, admitted, fun certificate chain => (same certificate chain).1⟩

end Signer
end CredentialSigning
