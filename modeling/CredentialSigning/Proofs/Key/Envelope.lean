import CredentialSigning.Proofs.Der.Fields
import CredentialSigning.Proofs.Oid

/-! All that an envelope of a private key may hold: fields with the number 0 and a public key before
the fields that are open to extension. Octets are read as an envelope exactly if they are a written
one. -/

namespace CredentialSigning

namespace Key

open Der

namespace Info

theorem algorithm?_eq_some_iff {content : Bytes} {algorithm : Oid} {parameters : Option Element} :
    algorithm? content = some (algorithm, parameters) ↔
      (∀ element ∈ parameters, element.Fits) ∧
        content = write 0x06 algorithm.octets ++ writeElements parameters.toList := by
  have isTag : isKeyTag 0x06 = true := by decide
  have short : algorithm.octets.length < keyLimit :=
    algorithm.length_octets_le.trans_lt (by decide)
  constructor
  · intro read
    obtain ⟨⟨octets, rest⟩, name, afterName⟩ := Option.bind_eq_some_iff.mp read
    obtain ⟨oid, named, afterOid⟩ := Option.bind_eq_some_iff.mp afterName
    obtain ⟨-, rfl⟩ := (Rules.take?_eq_some_iff isTag).mp name
    obtain rfl := Oid.ofOctets?_eq_some_iff.mp named
    split at afterOid
    · rename_i nothing
      cases afterOid
      rw [nothing]
      exact ⟨by simp, rfl⟩
    · obtain ⟨element, only, found⟩ := Option.bind_eq_some_iff.mp afterOid
      cases found
      obtain ⟨fits, rfl⟩ := Rules.only?_eq_some_iff.mp only
      refine ⟨?_, by simp⟩
      rintro _ ⟨⟩
      exact fits
  · rintro ⟨fit, rfl⟩
    have name : ∀ rest, Rules.key.take? 0x06 (write 0x06 algorithm.octets ++ rest) =
        some (algorithm.octets, rest) :=
      fun rest => (Rules.take?_eq_some_iff isTag).mpr ⟨short, rfl⟩
    simp only [algorithm?, name, Oid.ofOctets?_octets, Option.bind_eq_bind, Option.bind_some]
    cases parameters with
    | none => rfl
    | some element =>
      have fits := fit element rfl
      have only := Rules.only?_eq_some_iff.mpr ⟨fits, rfl⟩
      have nonempty : element.write ≠ [] := by
        intro empty
        have length := Element.two_le_length_write fits.tag
        rw [empty] at length
        simp at length
      simp [nonempty, only]

theorem isExtension_iff {element : Element} (fits : element.Fits) :
    isExtension element = true ↔ element.IsExtension := by
  obtain ⟨⟨tag, named, isTag⟩, short⟩ := fits
  obtain ⟨_, content⟩ := element
  obtain rfl := named
  simp only [isExtension, Bool.and_eq_true, decide_eq_true_eq, Option.isSome_iff_exists]
  constructor
  · rintro ⟨constructed, inner, only⟩
    obtain ⟨innerFits, written⟩ := Rules.only?_eq_some_iff.mp only
    exact ⟨tag, inner, rfl, isTag, constructed, innerFits.tag, written⟩
  · rintro ⟨_, inner, ⟨⟩, -, constructed, innerTag, written⟩
    have innerFits : inner.Fits := by
      refine ⟨innerTag, ?_⟩
      have length := inner.length_content_le
      rw [← written] at length
      exact length.trans_lt short
    exact ⟨constructed, inner, Rules.only?_eq_some_iff.mpr ⟨innerFits, written⟩⟩

/-- The version and the field of a public key, or of none. -/
theorem version?_eq_some_iff {field : Option Element} {version : Bytes} :
    version? field = some version ↔
      ∃ publicKey : Option Bytes, field = publicKey.map (fun octets => ⟨[0x81], 0 :: octets⟩) ∧
        version = if publicKey.isSome then [1] else [0] := by
  constructor
  · intro read
    cases field with
    | none =>
      cases read
      exact ⟨none, rfl, rfl⟩
    | some element =>
      obtain ⟨tag, content⟩ := element
      simp only [version?] at read
      split at read
      · rename_i named
        obtain ⟨octets, whole, one⟩ := Option.map_eq_some_iff.mp read
        subst named one
        unfold wholeBits? at whole
        split at whole
        · cases whole
          exact ⟨some octets, rfl, rfl⟩
        · cases whole
      · cases read
  · rintro ⟨publicKey, rfl, rfl⟩
    cases publicKey with
    | none => rfl
    | some octets => rfl

end Info

/-- What an envelope holds. The attributes are the fields with the number 0. -/
structure Envelope where
  info : Info
  attributes : List Element
  publicKey : Option Bytes
  extensions : List Element

namespace Envelope

/-- The number that says whether there is a public key. -/
def version (envelope : Envelope) : Bytes :=
  if envelope.publicKey.isSome then [1] else [0]

def publicField (envelope : Envelope) : Option Element :=
  envelope.publicKey.map fun octets => ⟨[0x81], 0 :: octets⟩

/-- The algorithm identifier. -/
def identifier (envelope : Envelope) : Bytes :=
  writeSequence [write 0x06 envelope.info.algorithm.octets,
    writeElements envelope.info.parameters.toList]

def toDer (envelope : Envelope) : Bytes :=
  writeSequence [write 0x02 envelope.version, envelope.identifier, write 0x04 envelope.info.key,
    writeElements envelope.attributes, writeElements envelope.publicField.toList,
    writeElements envelope.extensions]

/-- Without a public key the extensions do not begin with a field that would be read as an attribute
or as one. -/
structure IsWellFormed (envelope : Envelope) : Prop where
  parameters : ∀ element ∈ envelope.info.parameters, element.HasKeyTag
  attributes : ∀ element ∈ envelope.attributes, element.IsField 0
  extensions : ∀ element ∈ envelope.extensions, element.IsExtension
  separate : envelope.publicKey = none →
    ∀ element ∈ envelope.extensions.head?, ¬element.IsField 0 ∧ ¬element.IsField 1
  short : envelope.toDer.length < keyLimit

section WellFormed

variable {envelope : Envelope} (wellFormed : envelope.IsWellFormed)
include wellFormed

theorem parameters_fit : ∀ element ∈ envelope.info.parameters, element.Fits := by
  have identifierShort : envelope.identifier.length < keyLimit :=
    part_length_lt (by simp) wellFormed.short
  have short : (writeElements envelope.info.parameters.toList).length < keyLimit :=
    part_length_lt (by simp) identifierShort
  intro element member
  apply fits_of_short _ short
  · simpa using member
  · simpa using wellFormed.parameters

theorem attributes_fit : ∀ element ∈ envelope.attributes, element.Fits :=
  fits_of_short (fun element member => (wellFormed.attributes element member).hasKeyTag)
    (part_length_lt (by simp) wellFormed.short)

theorem extensions_fit : ∀ element ∈ envelope.extensions, element.Fits :=
  fits_of_short (fun element member => (wellFormed.extensions element member).hasKeyTag)
    (part_length_lt (by simp) wellFormed.short)

theorem publicField_fits : ∀ element ∈ envelope.publicField, element.Fits ∧ element.IsField 1 := by
  have short : (writeElements envelope.publicField.toList).length < keyLimit :=
    part_length_lt (by simp) wellFormed.short
  intro element member
  have field : element.IsField 1 := by
    obtain ⟨octets, -, rfl⟩ := Option.map_eq_some_iff.mp member
    exact ⟨0x81, rfl, by decide, by decide, by decide⟩
  refine ⟨?_, field⟩
  apply fits_of_short _ short
  · simpa using member
  · intro other same
    rw [Option.mem_toList, member] at same
    cases same
    exact field.hasKeyTag

theorem noneUpTo_extensions (absent : envelope.publicField = none) :
    NoneUpTo 1 (writeElements envelope.extensions) := by
  have none : envelope.publicKey = none := Option.map_eq_none_iff.mp absent
  apply (noneUpTo_one_iff _).mpr (wellFormed.separate none)
  exact fun element member => (wellFormed.extensions element member).hasKeyTag

end WellFormed
end Envelope

namespace Info

theorem ofDer?_envelope {envelope : Envelope} (wellFormed : envelope.IsWellFormed) :
    ofDer? envelope.toDer = some envelope.info := by
  have short := wellFormed.short
  have opened := Rules.whole?_writeSequence short
  have identifierShort : envelope.identifier.length < keyLimit := part_length_lt (by simp) short
  have version : ∀ rest, Rules.key.take? 0x02 (write 0x02 envelope.version ++ rest) =
      some (envelope.version, rest) :=
    Rules.take?_write (by decide) (content_length_lt 0x02 envelope.version (by simp) short)
  have named : ∀ rest, Rules.key.take? 0x30 (envelope.identifier ++ rest) = some
      (write 0x06 envelope.info.algorithm.octets ++ writeElements envelope.info.parameters.toList,
        rest) := by
    intro rest
    have read := Rules.take?_write (by decide : isKeyTag 0x30 = true)
      ((length_lt_length_write 0x30 _).trans identifierShort) rest
    simpa [Envelope.identifier, writeSequence] using read
  have algorithm : algorithm? (write 0x06 envelope.info.algorithm.octets ++
      writeElements envelope.info.parameters.toList) =
      some (envelope.info.algorithm, envelope.info.parameters) :=
    algorithm?_eq_some_iff.mpr ⟨Envelope.parameters_fit wellFormed, rfl⟩
  have inner : ∀ rest, Rules.key.take? 0x04 (write 0x04 envelope.info.key ++ rest) =
      some (envelope.info.key, rest) :=
    Rules.take?_write (by decide) (content_length_lt 0x04 envelope.info.key (by simp) short)
  have fields : field? 1 (writeElements envelope.attributes ++
      (writeElements envelope.publicField.toList ++ writeElements envelope.extensions)) =
      some (envelope.publicField, writeElements envelope.extensions) := by
    refine field?_eq_some_iff.mpr ⟨envelope.attributes, ?_, Envelope.publicField_fits wellFormed,
      Envelope.noneUpTo_extensions wellFormed, rfl⟩
    intro element member
    exact ⟨Envelope.attributes_fit wellFormed element member, 0, by decide,
      wellFormed.attributes element member⟩
  have fit := Envelope.extensions_fit wellFormed
  have extensions := Rules.elements?_eq_some_iff.mpr ⟨fit, rfl⟩
  have allExtensions : envelope.extensions.all isExtension = true :=
    List.all_eq_true.mpr fun element member =>
      (isExtension_iff (fit element member)).mpr (wellFormed.extensions element member)
  have numbered : version? envelope.publicField = some envelope.version :=
    version?_eq_some_iff.mpr ⟨envelope.publicKey, rfl, rfl⟩
  have content : document? envelope.toDer = some _ := (if_pos short).trans opened
  simp only [ofDer?, content, List.flatten_cons, List.flatten_nil, List.append_nil, version, named,
    algorithm, inner, fields, extensions, numbered, allExtensions, Option.bind_eq_bind,
    Option.bind_some, and_self, if_true]

theorem exists_envelope_of_ofDer? {octets : Bytes} {info : Info} (read : ofDer? octets = some info) :
    ∃ envelope : Envelope, envelope.IsWellFormed ∧ envelope.info = info ∧
      envelope.toDer = octets := by
  simp only [ofDer?, Option.bind_eq_bind] at read
  obtain ⟨content, document, read⟩ := Option.bind_eq_some_iff.mp read
  obtain ⟨⟨version, afterVersion⟩, atVersion, read⟩ := Option.bind_eq_some_iff.mp read
  obtain ⟨⟨identifier, afterIdentifier⟩, atIdentifier, read⟩ := Option.bind_eq_some_iff.mp read
  obtain ⟨⟨algorithm, parameters⟩, atAlgorithm, read⟩ := Option.bind_eq_some_iff.mp read
  obtain ⟨⟨key, afterKey⟩, atKey, read⟩ := Option.bind_eq_some_iff.mp read
  obtain ⟨⟨publicField, afterField⟩, atField, read⟩ := Option.bind_eq_some_iff.mp read
  obtain ⟨extensions, atExtensions, read⟩ := Option.bind_eq_some_iff.mp read
  simp only at atIdentifier atAlgorithm atKey atField atExtensions read
  split at read
  · rename_i checks
    obtain ⟨numbered, allExtensions⟩ := checks
    cases read
    obtain ⟨short, octets_eq⟩ := document?_eq_some_iff.mp document
    obtain ⟨-, content_eq⟩ := (Rules.take?_eq_some_iff (by decide)).mp atVersion
    obtain ⟨-, afterVersion_eq⟩ := (Rules.take?_eq_some_iff (by decide)).mp atIdentifier
    obtain ⟨parametersFit, identifier_eq⟩ := algorithm?_eq_some_iff.mp atAlgorithm
    obtain ⟨-, afterIdentifier_eq⟩ := (Rules.take?_eq_some_iff (by decide)).mp atKey
    obtain ⟨attributes, attributesFit, -, absent, afterKey_eq⟩ := field?_eq_some_iff.mp atField
    obtain ⟨extensionsFit, afterField_eq⟩ := Rules.elements?_eq_some_iff.mp atExtensions
    obtain ⟨publicKey, publicField_eq, version_eq⟩ := version?_eq_some_iff.mp numbered
    let envelope : Envelope := ⟨⟨algorithm, parameters, key⟩, attributes, publicKey, extensions⟩
    have written : envelope.toDer = octets := by
      simp [envelope, Envelope.toDer, Envelope.identifier, Envelope.version, Envelope.publicField,
        writeSequence, octets_eq, content_eq, afterVersion_eq, identifier_eq, afterIdentifier_eq,
        afterKey_eq, afterField_eq, publicField_eq, version_eq]
    have extensionsTagged : ∀ element ∈ extensions, element.IsExtension := fun element member =>
      (isExtension_iff (extensionsFit element member)).mp
        (List.all_eq_true.mp allExtensions element member)
    refine ⟨envelope, ⟨?_, ?_, extensionsTagged, ?_, written ▸ short⟩, rfl, written⟩
    · exact fun element member => (parametersFit element member).tag
    · intro element member
      obtain ⟨-, lower, below, field⟩ := attributesFit element member
      obtain rfl := UInt8.lt_one_iff.mp below
      exact field
    · intro noKey
      rw [← noneUpTo_one_iff fun element member => (extensionsTagged element member).hasKeyTag,
        ← afterField_eq]
      apply absent
      rw [publicField_eq, show publicKey = none from noKey]
      rfl
  · cases read

/-- Octets are read as an envelope exactly if they are a written one. -/
theorem ofDer?_eq_some_iff {octets : Bytes} {info : Info} :
    ofDer? octets = some info ↔
      ∃ envelope : Envelope, envelope.IsWellFormed ∧ envelope.info = info ∧
        envelope.toDer = octets := by
  constructor
  · exact exists_envelope_of_ofDer?
  · rintro ⟨envelope, wellFormed, rfl, rfl⟩
    exact ofDer?_envelope wellFormed

end Info
end Key
end CredentialSigning
