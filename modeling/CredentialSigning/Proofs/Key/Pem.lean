import CredentialSigning.Key.Pem
import CredentialSigning.Proofs.Archive.Integrity
import CredentialSigning.Proofs.Der.Canonical
import CredentialSigning.Proofs.Pem.Document

/-! Keys in PEM documents and in DER. What a document holds is first checked to be one SEQUENCE, and
that rejects nothing that the envelope of a key could be; so a document with a key is as good as the
key itself. -/

namespace CredentialSigning.PrivateKey
open Der

/-- An envelope is one SEQUENCE. -/
theorem only?_of_ofDer? {octets : Bytes} {info : Key.Info}
    (read : Key.Info.ofDer? octets = some info) :
    ∃ content, Rules.key.only? octets = some ⟨[0x30], content⟩ := by
  obtain ⟨content, document, -⟩ := Option.bind_eq_some_iff.mp read
  have isTag : isKeyTag 0x30 = true := by decide
  unfold document? at document
  split at document
  · obtain ⟨short, written⟩ := (Rules.whole?_eq_some_iff isTag).mp document
    exact ⟨content, Rules.only?_eq_some_iff.mpr ⟨(Rules.fits_iff isTag).mpr short, written⟩⟩
  · cases document

/-- A written document gives what its octets give, unless these are not even a SEQUENCE. -/
theorem ofPem_write {label lineEnd : Bytes} (sound : Pem.Document.IsLabel label)
    (ends : Pem.Document.IsLineEnd lineEnd) (der : Bytes) :
    ofPem (Pem.Document.write label lineEnd der) = ofDer der ∨
      ofPem (Pem.Document.write label lineEnd der) = .error (.invalidCredential .keyPem) ∧
        ofDer der = .error (.invalidCredential .keyInfo) := by
  rw [ofPem_eq, Pem.Document.read?_write sound ends]
  cases envelope : Key.Info.ofDer? der with
  | some info =>
    obtain ⟨content, only⟩ := only?_of_ofDer? envelope
    left
    rw [only, Option.bind_some, if_pos rfl]
  | none =>
    have refused : ofDer der = .error (.invalidCredential .keyInfo) := by rw [ofDer, envelope]
    cases only : Rules.key.only? der with
    | none => exact .inr ⟨rfl, refused⟩
    | some element =>
      by_cases sequence : element.tag = [0x30]
      · left
        rw [Option.bind_some, if_pos sequence]
      · right
        rw [Option.bind_some, if_neg sequence]
        exact ⟨rfl, refused⟩

/-- Upper-case words with single blanks between them are a label. -/
theorem isLabel_of_upperCase {words : List Bytes}
    (upperCase : ∀ word ∈ words, word ≠ [] ∧ ∀ octet ∈ word, 0x41 ≤ octet ∧ octet ≤ 0x5a) :
    Pem.Document.IsLabel ([0x20].intercalate words) := by
  refine ⟨words, rfl, ?_⟩
  intro word member
  obtain ⟨nonempty, letters⟩ := upperCase word member
  refine ⟨nonempty, ?_⟩
  intro octet inside
  obtain ⟨low, high⟩ := letters octet inside
  rw [UInt8.le_iff_toNat_le] at low high
  have notHyphen : octet ≠ 0x2d := by
    rintro rfl
    exact absurd low (by decide)
  have above : 0x21 ≤ octet := UInt8.le_iff_toNat_le.mpr (Nat.le_trans (by decide) low)
  have below : octet ≤ 0x7e := UInt8.le_iff_toNat_le.mpr (Nat.le_trans high (by decide))
  simp [Pem.Document.isLabelCharacter, above, below, notHyphen]

/-- A key loads from a document exactly if it loads from the octets in it. It is the same key, and an
algorithm that is not supported is the same one; what is invalid in one form is so in the other. The
empty octet string is also refused in a document without lines. -/
theorem ofPem_agrees {words : List Bytes}
    (upperCase : ∀ word ∈ words, word ≠ [] ∧ ∀ octet ∈ word, 0x41 ≤ octet ∧ octet ≤ 0x5a)
    {lineEnd : Bytes} (ends : Pem.Document.IsLineEnd lineEnd) (der : Bytes) :
    let label := [0x20].intercalate words
    let text := Pem.Document.write label lineEnd der
    (∀ key, ofPem text = .ok key ↔ ofDer der = .ok key) ∧
    (∀ unsupported, ofPem text = .error (.unsupportedAlgorithm unsupported) ↔
      ofDer der = .error (.unsupportedAlgorithm unsupported)) ∧
    ((∃ stage, ofPem text = .error (.invalidCredential stage)) ↔
      ∃ stage, ofDer der = .error (.invalidCredential stage)) ∧
    ofPem (Pem.Document.enclose label lineEnd []) = .error (.invalidCredential .keyPem) ∧
      ofDer [] = .error (.invalidCredential .keyInfo) := by
  intro label text
  have sound : Pem.Document.IsLabel label := isLabel_of_upperCase upperCase
  have lineless : ofPem (Pem.Document.enclose label lineEnd []) =
      .error (.invalidCredential .keyPem) := by
    rw [ofPem_eq, Pem.Document.read?, Pem.Document.encapsulated?_enclose sound ends]
    rfl
  rcases ofPem_write sound ends der with same | ⟨refusedPem, refusedDer⟩
  · rw [same]
    exact ⟨fun key => Iff.rfl, fun unsupported => Iff.rfl, Iff.rfl, lineless, rfl⟩
  · rw [refusedPem, refusedDer]
    refine ⟨?_, ?_, ?_, lineless, rfl⟩
    · intro key
      constructor <;> rintro ⟨⟩
    · intro unsupported
      constructor <;> rintro ⟨⟩
    · exact ⟨fun _ => ⟨_, rfl⟩, fun _ => ⟨_, rfl⟩⟩

/-- The key with the modulus 33 loads from a document with lines that end in CR LF. -/
theorem ofPem_agrees_small :
    let label := Text.ascii "PRIVATE KEY"
    ∃ key, ofPem (Pem.Document.write label [13, 10] Archive.smallKey) = .ok key ∧
      ofDer Archive.smallKey = .ok key := by
  intro label
  have upperCase : ∀ word ∈ [Text.ascii "PRIVATE", Text.ascii "KEY"],
      word ≠ [] ∧ ∀ octet ∈ word, 0x41 ≤ octet ∧ octet ≤ 0x5a := by
    have letters : [Text.ascii "PRIVATE", Text.ascii "KEY"].all (fun word =>
        !word.isEmpty && word.all fun octet => 0x41 ≤ octet && octet ≤ 0x5a) = true := by
      decide +kernel
    simpa using letters
  have loads : (ofDer Archive.smallKey).toOption.isSome = true := by decide +kernel
  obtain ⟨key, loaded⟩ := exists_eq_ok loads
  exact ⟨key, ((ofPem_agrees upperCase (.inr rfl) Archive.smallKey).1 key).mpr loaded, loaded⟩

end CredentialSigning.PrivateKey
