import CredentialSigning.Proofs.Archive.Leaf
import CredentialSigning.Proofs.Certificate.KeyInfo

/-! Whether the leaf of an archive is for the key, for keys on a curve. A certificate is compared with
the key by the octets of its bit string alone. So one that holds the compressed point is passed over,
and one for another algorithm that happens to hold the octets of the uncompressed point is taken. -/

namespace CredentialSigning.Archive
open Der

section Carries

variable {key : Ecdsa.Key} {octets : Bytes} (sound : decodes octets = true)
include sound

theorem carries_of_holdsUncompressed (holds : key.HoldsUncompressed octets) :
    carries (PrivateKey.ec key).publicKey octets = true := by
  obtain ⟨certificate, read⟩ := Option.isSome_iff_exists.mp sound
  rw [carries, read, Option.any_some, decide_eq_true_eq]
  exact Ecdsa.Key.publicKey_of_holdsUncompressed read holds

theorem carries_of_holdsCompressed (holds : key.HoldsCompressed octets) :
    carries (PrivateKey.ec key).publicKey octets = false := by
  obtain ⟨certificate, read⟩ := Option.isSome_iff_exists.mp sound
  rw [carries, read, Option.any_some, decide_eq_false_iff_not]
  exact Ecdsa.Key.publicKey_ne_of_holdsCompressed read holds

end Carries

/-- The certificates among which the leaf is for the key: the first one with the octets of the
uncompressed point is, or there is none with them and the first one of all holds the compressed
point. -/
inductive LeadsTo (key : Ecdsa.Key) : List Bytes → Prop
  | carried {before : List Bytes} {chosen : Bytes} (after : List Bytes)
      (holds : key.HoldsUncompressed chosen)
      (earlier : ∀ octets ∈ before, carries (PrivateKey.ec key).publicKey octets = false) :
      LeadsTo key (before ++ chosen :: after)
  | fallback {first : Bytes} {rest : List Bytes} (holds : key.HoldsCompressed first)
      (absent : ∀ octets ∈ first :: rest, carries (PrivateKey.ec key).publicKey octets = false) :
      LeadsTo key (first :: rest)

section Leaf

variable {key : Ecdsa.Key} {certificates : List Bytes} {octets : Bytes}
  (sound : ∀ octets ∈ certificates, decodes octets = true)
include sound

theorem leafOctets?_of_leadsTo (leads : LeadsTo key certificates) :
    ∃ chosen, leafOctets? (PrivateKey.ec key).publicKey certificates = some chosen ∧
      key.IsCertifiedBy chosen := by
  cases leads with
  | @carried before chosen after holds earlier =>
    have carried := carries_of_holdsUncompressed (sound chosen List.mem_append_cons_self) holds
    have found : (before ++ chosen :: after).find? (carries (PrivateKey.ec key).publicKey) =
        some chosen := by
      rw [List.find?_eq_some_iff_append]
      refine ⟨carried, before, after, rfl, ?_⟩
      simpa using earlier
    exact ⟨chosen, by rw [leafOctets?, found, Option.some_or], .inl holds⟩
  | @fallback first rest holds absent =>
    have missed : (first :: rest).find? (carries (PrivateKey.ec key).publicKey) = none := by
      rw [List.find?_eq_none]
      simpa using absent
    exact ⟨first, by rw [leafOctets?, missed, Option.none_or, List.head?_cons], .inr holds⟩

theorem leadsTo_of_leafOctets?
    (chosen : leafOctets? (PrivateKey.ec key).publicKey certificates = some octets)
    (certified : key.IsCertifiedBy octets) : LeadsTo key certificates := by
  cases found : certificates.find? (carries (PrivateKey.ec key).publicKey) with
  | some first =>
    rw [leafOctets?, found, Option.some_or, Option.some.injEq] at chosen
    subst chosen
    obtain ⟨carried, before, after, rfl, earlier⟩ := List.find?_eq_some_iff_append.mp found
    rcases certified with holds | holds
    · exact .carried after holds (by simpa using earlier)
    · -- a compressed point is not found by its octets
      rw [carries_of_holdsCompressed (sound first List.mem_append_cons_self) holds] at carried
      cases carried
  | none =>
    rw [leafOctets?, found, Option.none_or, List.head?_eq_some_iff] at chosen
    obtain ⟨rest, rfl⟩ := chosen
    have absent : ∀ other ∈ octets :: rest, carries (PrivateKey.ec key).publicKey other = false := by
      simpa using List.find?_eq_none.mp found
    rcases certified with holds | holds
    · have carried := carries_of_holdsUncompressed (sound octets List.mem_cons_self) holds
      rw [absent octets List.mem_cons_self] at carried
      cases carried
    · exact .fallback holds absent

end Leaf

/-- Where a certificate holds the uncompressed point, the first one with its octets does too unless
they stand there for something else. -/
theorem leadsTo_of_holdsUncompressed {key : Ecdsa.Key} {certificates : List Bytes} {octets : Bytes}
    (sound : ∀ octets ∈ certificates, decodes octets = true) (member : octets ∈ certificates)
    (holds : key.HoldsUncompressed octets)
    (alike : ∀ octets ∈ certificates, carries (PrivateKey.ec key).publicKey octets = true →
      key.HoldsUncompressed octets) : LeadsTo key certificates := by
  have carried := carries_of_holdsUncompressed (sound octets member) holds
  have present : (certificates.find? (carries (PrivateKey.ec key).publicKey)).isSome := by
    rw [List.find?_isSome]
    exact ⟨octets, member, carried⟩
  obtain ⟨first, found⟩ := Option.isSome_iff_exists.mp present
  have chosen : leafOctets? (PrivateKey.ec key).publicKey certificates = some first := by
    rw [leafOctets?, found, Option.some_or]
  have own := alike first (List.mem_of_find?_eq_some found) (List.find?_some found)
  exact leadsTo_of_leafOctets? sound chosen (.inl own)

/-- Among certificates that decode, the leaf is for a key on a curve exactly if the first one with the
octets of the uncompressed point is, or there is none with them and the first one of all holds the
compressed point. So it is if one holds the uncompressed point, and all that have its octets do. -/
theorem selectLeaf_isCertifiedBy_iff (key : Ecdsa.Key) {certificates : List Bytes}
    (nonempty : certificates ≠ []) (sound : ∀ octets ∈ certificates, decodes octets = true) :
    ∃ index octets leaf, IsLeafAt (PrivateKey.ec key).publicKey certificates index ∧
      certificates[index]? = some octets ∧ Certificate.ofDer? octets = some leaf ∧
      selectLeaf (PrivateKey.ec key).publicKey certificates = .ok leaf ∧
      (key.IsCertifiedBy octets ↔ LeadsTo key certificates) ∧
      ((∃ octets ∈ certificates, key.HoldsUncompressed octets) →
        (∀ octets ∈ certificates, carries (PrivateKey.ec key).publicKey octets = true →
          key.HoldsUncompressed octets) → key.IsCertifiedBy octets) := by
  obtain ⟨index, octets, position, stands, chosen⟩ :=
    exists_isLeafAt (PrivateKey.ec key).publicKey nonempty
  obtain ⟨leaf, read⟩ := Option.isSome_iff_exists.mp (sound octets (List.mem_of_getElem? stands))
  have selected : selectLeaf (PrivateKey.ec key).publicKey certificates = .ok leaf := by
    rw [selectLeaf_eq, if_pos (List.all_eq_true.mpr sound), chosen, Option.bind_some, read]
  have certified : key.IsCertifiedBy octets ↔ LeadsTo key certificates := by
    constructor
    · exact leadsTo_of_leafOctets? sound chosen
    · intro leads
      obtain ⟨other, chosenToo, holds⟩ := leafOctets?_of_leadsTo sound leads
      rw [chosen, Option.some.injEq] at chosenToo
      rwa [chosenToo]
  refine ⟨index, octets, leaf, position, stands, read, selected, certified, ?_⟩
  rintro ⟨own, member, holds⟩ alike
  exact certified.mpr (leadsTo_of_holdsUncompressed sound member holds alike)

/-- A certificate without names and with some content of the SubjectPublicKeyInfo. -/
def certificateWith (keyInfo : Bytes) : Bytes :=
  let algorithm := (PublicKey.rsa ⟨33, 7⟩).algorithm
  let time := write 0x17 (Text.ascii "000101000000Z")
  writeSequence [
    writeSequence [write 0x02 [0x01], algorithm, writeSequence [], writeSequence [time, time],
      writeSequence [], write 0x30 keyInfo],
    algorithm, writeBitString []]

/-- The key on P-256 with the scalar 1. -/
def unitKey : Ecdsa.Key :=
  ⟨.p256, 1, by decide, by decide⟩

/-- The certificate of the key is taken after one of another key. -/
theorem selectLeaf_isCertifiedBy_iff_unit :
    let own := bareCertificate (PrivateKey.ec unitKey).publicKey
    ∃ octets leaf, selectLeaf (PrivateKey.ec unitKey).publicKey [smallCertificate, own] = .ok leaf ∧
      Certificate.ofDer? octets = some leaf ∧ unitKey.IsCertifiedBy octets := by
  intro own
  have sound : ∀ octets ∈ [smallCertificate, own], decodes octets = true := by decide +kernel
  have holds : unitKey.HoldsUncompressed own := by decide +kernel
  have alike : ∀ octets ∈ [smallCertificate, own],
      carries (PrivateKey.ec unitKey).publicKey octets = true → unitKey.HoldsUncompressed octets := by
    decide +kernel
  obtain ⟨index, octets, leaf, -, -, read, selected, -, certified⟩ :=
    selectLeaf_isCertifiedBy_iff unitKey (List.cons_ne_nil smallCertificate [own]) sound
  exact ⟨octets, leaf, selected, read, certified ⟨own, by simp, holds⟩ alike⟩

/-- The first of two certificates is taken although it is not for the key, and the second one is not
taken for it. -/
theorem exists_uncertified {key : Ecdsa.Key} {first second : Bytes}
    (sound : ∀ octets ∈ [first, second], decodes octets = true)
    (chosen : leafOctets? (PrivateKey.ec key).publicKey [first, second] = some first)
    (foreign : ¬key.IsCertifiedBy first)
    (apart : Certificate.ofDer? second ≠ Certificate.ofDer? first) :
    ∃ leaf, selectLeaf (PrivateKey.ec key).publicKey [first, second] = .ok leaf ∧
      ∀ octets ∈ [first, second], Certificate.ofDer? octets = some leaf →
        ¬key.IsCertifiedBy octets := by
  obtain ⟨leaf, read⟩ := Option.isSome_iff_exists.mp (sound first List.mem_cons_self)
  refine ⟨leaf, ?_, ?_⟩
  · rw [selectLeaf_eq, if_pos (List.all_eq_true.mpr sound), chosen, Option.bind_some, read]
  · intro octets member readToo
    rcases List.mem_cons.mp member with rfl | last
    · exact foreign
    · rw [List.mem_singleton.mp last, ← read] at readToo
      exact absurd readToo apart

/-- A certificate that holds the compressed point is passed over for one of another key. One that names
another curve is taken before the certificate of the key. -/
theorem selectLeaf_not_isCertifiedBy :
    let key := (PrivateKey.ec unitKey).publicKey
    let compressed := certificateWith (key.algorithm ++
      writeBitString (unitKey.point.compressed Curve.p256.domain.width))
    let own := bareCertificate key
    let foreign := certificateWith ((PublicKey.ec .p384 unitKey.point).algorithm ++
      writeBitString key.subjectPublicKey)
    unitKey.IsCertifiedBy compressed ∧ unitKey.IsCertifiedBy own ∧
    (∃ leaf, selectLeaf key [smallCertificate, compressed] = .ok leaf ∧
      ∀ octets ∈ [smallCertificate, compressed], Certificate.ofDer? octets = some leaf →
        ¬unitKey.IsCertifiedBy octets) ∧
    ∃ leaf, selectLeaf key [foreign, own] = .ok leaf ∧
      ∀ octets ∈ [foreign, own], Certificate.ofDer? octets = some leaf →
        ¬unitKey.IsCertifiedBy octets := by
  intro key compressed own foreign
  refine ⟨by decide +kernel, by decide +kernel, ?_, ?_⟩
  · exact exists_uncertified (by decide +kernel) (by decide +kernel) (by decide +kernel)
      (by decide +kernel)
  · exact exists_uncertified (by decide +kernel) (by decide +kernel) (by decide +kernel)
      (by decide +kernel)

end CredentialSigning.Archive
