import CredentialSigning.Proofs.Archive.Agreement

/-! Which certificate of an archive becomes the leaf. All certificates have to decode. Then the first
one that carries the key is taken, or the first of all if none does; a certificate that carries the
key as the only one is taken wherever it stands. -/

namespace CredentialSigning.Archive
open Der

/-- The octets are a certificate that carries the key, as the key is encoded in certificates. -/
def carries (key : PublicKey) (octets : Bytes) : Bool :=
  (Certificate.ofDer? octets).any (·.publicKey = key.subjectPublicKey)

def decodes (octets : Bytes) : Bool :=
  (Certificate.ofDer? octets).isSome

/-- The position of the leaf: the least one whose certificate carries the key, or else 0. -/
inductive IsLeafAt (key : PublicKey) (certificates : List Bytes) : Nat → Prop
  | carried {index : Nat} {octets : Bytes} (stands : certificates[index]? = some octets)
      (carried : carries key octets = true)
      (least : ∀ earlier < index, ∀ octets ∈ certificates[earlier]?, carries key octets = false) :
      IsLeafAt key certificates index
  | fallback (absent : ∀ octets ∈ certificates, carries key octets = false) :
      IsLeafAt key certificates 0

/-- The octets of the leaf: those of the first certificate that carries the key, or else of the
first one. -/
def leafOctets? (key : PublicKey) (certificates : List Bytes) : Option Bytes :=
  (certificates.find? (carries key)).or certificates.head?

theorem mapM_ofDer?_eq_none_iff {certificates : List Bytes} :
    certificates.mapM Certificate.ofDer? = none ↔ ∃ octets ∈ certificates, decodes octets = false := by
  induction certificates with
  | nil => simp
  | cons octets certificates hypothesis =>
    cases read : Certificate.ofDer? octets with
    | none => simp [read, decodes]
    | some certificate =>
      have decoded : decodes octets = true := by rw [decodes, read, Option.isSome_some]
      cases later : certificates.mapM Certificate.ofDer? with
      | none =>
        obtain ⟨broken, member, undecoded⟩ := hypothesis.mp later
        simp only [List.mapM_cons, read, later, Option.bind_eq_bind, Option.bind_none,
          Option.bind_some, true_iff]
        exact ⟨broken, List.mem_cons_of_mem octets member, undecoded⟩
      | some rest =>
        rw [later] at hypothesis
        simp only [List.mapM_cons, read, later, Option.bind_eq_bind, Option.bind_some]
        simpa [decoded] using hypothesis

theorem head?_of_mapM {certificates : List Bytes} {decoded : List Certificate}
    (read : certificates.mapM Certificate.ofDer? = some decoded) :
    decoded.head? = certificates.head?.bind Certificate.ofDer? := by
  cases certificates with
  | nil =>
    cases read
    rfl
  | cons octets certificates =>
    simp only [List.mapM_cons, Option.bind_eq_bind, Option.bind_eq_some_iff] at read
    obtain ⟨certificate, first, rest, -, made⟩ := read
    cases made
    simp [first]

theorem find?_of_mapM (key : PublicKey) {certificates : List Bytes} {decoded : List Certificate}
    (read : certificates.mapM Certificate.ofDer? = some decoded) :
    decoded.find? (·.publicKey = key.subjectPublicKey) =
      (certificates.find? (carries key)).bind Certificate.ofDer? := by
  induction certificates generalizing decoded with
  | nil =>
    cases read
    rfl
  | cons octets certificates hypothesis =>
    simp only [List.mapM_cons, Option.bind_eq_bind, Option.bind_eq_some_iff] at read
    obtain ⟨certificate, first, rest, later, made⟩ := read
    cases made
    have same : carries key octets = decide (certificate.publicKey = key.subjectPublicKey) := by
      rw [carries, first, Option.any_some]
    by_cases carried : certificate.publicKey = key.subjectPublicKey
    · simp [same, carried, first]
    · simp [same, carried, hypothesis later]

theorem not_all_decodes {certificates : List Bytes} {octets : Bytes} (member : octets ∈ certificates)
    (undecoded : decodes octets = false) : ¬certificates.all decodes = true := by
  rw [List.all_eq_true]
  intro sound
  rw [sound octets member] at undecoded
  cases undecoded

/-- The leaf in terms of the octets: a test of all, then a choice. -/
theorem selectLeaf_eq (key : PublicKey) (certificates : List Bytes) : selectLeaf key certificates =
    if certificates.all decodes then
      match (leafOctets? key certificates).bind Certificate.ofDer? with
      | some leaf => .ok leaf
      | none => .error (.malformedArchive .noCertificate)
    else .error (.malformedArchive .certificate) := by
  unfold selectLeaf
  cases read : certificates.mapM Certificate.ofDer? with
  | none =>
    obtain ⟨octets, member, undecoded⟩ := mapM_ofDer?_eq_none_iff.mp read
    rw [if_neg (not_all_decodes member undecoded)]
  | some decoded =>
    have sound : certificates.all decodes = true := by
      rw [List.all_eq_true]
      intro octets member
      by_contra undecoded
      have unread := mapM_ofDer?_eq_none_iff.mpr ⟨octets, member, Bool.eq_false_iff.mpr undecoded⟩
      rw [read] at unread
      cases unread
    have chosen : (decoded.find? (·.publicKey = key.subjectPublicKey)).or decoded.head? =
        (leafOctets? key certificates).bind Certificate.ofDer? := by
      rw [find?_of_mapM key read, head?_of_mapM read, leafOctets?]
      cases found : certificates.find? (carries key) with
      | none => simp
      | some octets =>
        obtain ⟨leaf, decodedToo⟩ := Option.isSome_iff_exists.mp
          (List.all_eq_true.mp sound octets (List.mem_of_find?_eq_some found))
        simp [decodedToo]
    rw [if_pos sound]
    cases leaf : (leafOctets? key certificates).bind Certificate.ofDer? with
    | none =>
      rw [leaf] at chosen
      simp only [chosen]
    | some certificate =>
      rw [leaf] at chosen
      simp only [chosen]

theorem exists_isLeafAt (key : PublicKey) {certificates : List Bytes} (nonempty : certificates ≠ []) :
    ∃ index octets, IsLeafAt key certificates index ∧ certificates[index]? = some octets ∧
      leafOctets? key certificates = some octets := by
  cases found : certificates.find? (carries key) with
  | none =>
    have absent : ∀ octets ∈ certificates, carries key octets = false := by
      simpa using List.find?_eq_none.mp found
    obtain ⟨octets, others, rfl⟩ := List.exists_cons_of_ne_nil nonempty
    exact ⟨0, octets, .fallback absent, rfl, by simp [leafOctets?, found]⟩
  | some octets =>
    obtain ⟨carried, index, inside, stands, least⟩ := List.find?_eq_some_iff_getElem.mp found
    have standsToo : certificates[index]? = some octets := by
      rw [List.getElem?_eq_getElem inside, stands]
    refine ⟨index, octets, .carried standsToo carried ?_, standsToo, by simp [leafOctets?, found]⟩
    intro earlier before other standsBefore
    obtain ⟨insideToo, rfl⟩ := List.getElem?_eq_some_iff.mp standsBefore
    simpa using least earlier before

/-- Where one certificate carries the key, it is the first one that does so in every order, and in
the company of others that do not carry it. -/
theorem leafOctets?_of_perm {key : PublicKey} {certificates others more : List Bytes}
    (unique : certificates.countP (carries key) = 1)
    (apart : ∀ octets ∈ others, carries key octets = false)
    (perm : more.Perm (certificates ++ others)) :
    leafOctets? key more = leafOctets? key certificates := by
  rw [List.countP_eq_length_filter, List.length_eq_one_iff] at unique
  obtain ⟨octets, alone⟩ := unique
  have ignored : others.filter (carries key) = [] := by
    rw [List.filter_eq_nil_iff]
    intro other member carried
    rw [apart other member] at carried
    cases carried
  have kept := perm.filter (carries key)
  rw [List.filter_append, ignored, List.append_nil, alone, List.perm_singleton] at kept
  have first : more.find? (carries key) = certificates.find? (carries key) := by
    rw [← List.head?_filter, ← List.head?_filter, kept, alone]
  have found : certificates.find? (carries key) = some octets := by
    rw [← List.head?_filter, alone, List.head?_cons]
  rw [leafOctets?, leafOctets?, first, found, Option.some_or, Option.some_or]

/-- One certificate that does not decode spoils an archive, and so does the want of any. Otherwise
the leaf is the first certificate that carries the key, or the first of all if none does. If exactly
one carries the key, then neither the order nor more certificates without the key matter. -/
theorem selectLeaf_by_position (key : PrivateKey) (certificates : List Bytes) :
    ((∃ octets ∈ certificates, decodes octets = false) →
      selectLeaf key.publicKey certificates = .error (.malformedArchive .certificate)) ∧
    (certificates = [] →
      selectLeaf key.publicKey certificates = .error (.malformedArchive .noCertificate)) ∧
    (certificates ≠ [] → (∀ octets ∈ certificates, decodes octets = true) →
      ∃ index octets leaf, IsLeafAt key.publicKey certificates index ∧
        certificates[index]? = some octets ∧ Certificate.ofDer? octets = some leaf ∧
        selectLeaf key.publicKey certificates = .ok leaf) ∧
    (certificates.countP (carries key.publicKey) = 1 → ∀ others more : List Bytes,
      (∀ octets ∈ others, decodes octets = true ∧ carries key.publicKey octets = false) →
      more.Perm (certificates ++ others) →
      selectLeaf key.publicKey more = selectLeaf key.publicKey certificates) := by
  refine ⟨?_, ?_, ?_, ?_⟩
  · rintro ⟨octets, member, undecoded⟩
    rw [selectLeaf_eq, if_neg (not_all_decodes member undecoded)]
  · rintro rfl
    rfl
  · intro nonempty sound
    obtain ⟨index, octets, position, stands, chosen⟩ := exists_isLeafAt key.publicKey nonempty
    obtain ⟨leaf, read⟩ := Option.isSome_iff_exists.mp (sound octets (List.mem_of_getElem? stands))
    refine ⟨index, octets, leaf, position, stands, read, ?_⟩
    rw [selectLeaf_eq, if_pos (List.all_eq_true.mpr sound), chosen, Option.bind_some, read]
  · intro unique others more apart perm
    have chosen := leafOctets?_of_perm unique (fun octets member => (apart octets member).2) perm
    have sound : more.all decodes = certificates.all decodes := by
      have joined : others.all decodes = true :=
        List.all_eq_true.mpr fun octets member => (apart octets member).1
      rw [perm.all_eq, List.all_append, joined, Bool.and_true]
    rw [selectLeaf_eq, selectLeaf_eq, chosen, sound]

/-- A certificate without names for a key. -/
def bareCertificate (key : PublicKey) : Bytes :=
  let time := write 0x17 (Text.ascii "000101000000Z")
  writeSequence [
    writeSequence [write 0x02 [0x01], key.algorithm, writeSequence [], writeSequence [time, time],
      writeSequence [], key.toDer],
    key.algorithm, writeBitString []]

/-- The certificate of the key with the modulus 33 is taken from the last place as well, unless one
that does not decode follows. -/
theorem selectLeaf_by_position_last :
    let key : PrivateKey := .rsa ⟨33, 7, 3, 11, 3, by decide⟩
    let own := bareCertificate key.publicKey
    let other := bareCertificate (.rsa ⟨35, 5⟩)
    selectLeaf key.publicKey [other, other, own] = selectLeaf key.publicKey [own] ∧
      (∃ leaf, Certificate.ofDer? own = some leaf ∧ selectLeaf key.publicKey [own] = .ok leaf) ∧
      selectLeaf key.publicKey [own, [0x30]] = .error (.malformedArchive .certificate) := by
  intro key own other
  have sound : decodes own = true := by decide +kernel
  have apart : ∀ octets ∈ [other, other], decodes octets = true ∧
      carries key.publicKey octets = false := by
    decide +kernel
  have unique : [own].countP (carries key.publicKey) = 1 := by decide +kernel
  obtain ⟨-, -, found, moved⟩ := selectLeaf_by_position key [own]
  refine ⟨moved unique [other, other] [other, other, own] apart ?_, ?_, ?_⟩
  · change ([other, other] ++ [own]).Perm ([own] ++ [other, other])
    exact List.perm_append_comm
  · obtain ⟨index, octets, leaf, -, stands, read, chosen⟩ :=
      found (List.cons_ne_nil own []) (List.forall_mem_singleton.mpr sound)
    obtain rfl := List.mem_singleton.mp (List.mem_of_getElem? stands)
    exact ⟨leaf, read, chosen⟩
  · exact (selectLeaf_by_position key [own, [0x30]]).1 ⟨[0x30], by simp, by decide +kernel⟩

end CredentialSigning.Archive
