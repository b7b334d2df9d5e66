import CredentialSigning.Key.Private
import CredentialSigning.Proofs.Ecdsa.Key
import CredentialSigning.Proofs.Key.Envelope

/-! How an envelope is classified. The algorithm in it decides, and a curve where the algorithm has
one; a key that is accepted is exported with the algorithm identifier it was read with. -/

namespace CredentialSigning

namespace UnsupportedKey

def oid : UnsupportedKey → Oid
  | algorithm oid => oid
  | curve oid => oid

theorem text_algorithm (oid : Oid) :
    (algorithm oid).text = "private key algorithm " ++ oid.dotted :=
  rfl

theorem text_curve (oid : Oid) : (curve oid).text = "elliptic curve " ++ oid.dotted :=
  rfl

theorem text_algorithm_ne_text_curve (oid other : Oid) :
    (algorithm oid).text ≠ (curve other).text := by
  intro same
  rw [text_algorithm, text_curve] at same
  have first := congrArg (fun text : String => text.toList.head?) same
  have algorithms : "private key algorithm ".toList = 'p' :: "rivate key algorithm ".toList := by
    decide
  have curves : "elliptic curve ".toList = 'e' :: "lliptic curve ".toList := by decide
  simp only [String.toList_append, algorithms, curves] at first
  cases first

/-- The kinds of key are told apart by the first character, keys of a kind by the identifier. -/
theorem eq_of_text_eq {key other : UnsupportedKey} {arcs otherArcs : Oid.Arcs}
    (written : arcs.Writes key.oid) (otherWritten : otherArcs.Writes other.oid)
    (same : key.text = other.text) : key = other := by
  cases key with
  | algorithm oid =>
    cases other with
    | algorithm otherOid =>
      rw [text_algorithm, text_algorithm, String.append_right_inj] at same
      exact congrArg algorithm (Oid.eq_of_dotted_eq written otherWritten same)
    | curve otherOid => exact absurd same (text_algorithm_ne_text_curve oid otherOid)
  | curve oid =>
    cases other with
    | algorithm otherOid => exact absurd same.symm (text_algorithm_ne_text_curve otherOid oid)
    | curve otherOid =>
      rw [text_curve, text_curve, String.append_right_inj] at same
      exact congrArg curve (Oid.eq_of_dotted_eq written otherWritten same)

end UnsupportedKey

namespace Failure

theorem message_unsupported (key : UnsupportedKey) :
    (unsupportedAlgorithm key).message = "unsupported algorithm: " ++ key.text :=
  rfl

theorem message_algorithm {oid : Oid} {arcs : Oid.Arcs} (written : arcs.Writes oid) :
    (unsupportedAlgorithm (.algorithm oid)).message =
      "unsupported algorithm: private key algorithm " ++ Oid.join arcs.numbers := by
  rw [message_unsupported, UnsupportedKey.text_algorithm, Oid.dotted_eq_join written,
    ← String.append_assoc]
  rfl

theorem message_curve {oid : Oid} {arcs : Oid.Arcs} (written : arcs.Writes oid) :
    (unsupportedAlgorithm (.curve oid)).message =
      "unsupported algorithm: elliptic curve " ++ Oid.join arcs.numbers := by
  rw [message_unsupported, UnsupportedKey.text_curve, Oid.dotted_eq_join written,
    ← String.append_assoc]
  rfl

theorem eq_of_message_eq {key other : UnsupportedKey} {arcs otherArcs : Oid.Arcs}
    (written : arcs.Writes key.oid) (otherWritten : otherArcs.Writes other.oid)
    (same : (unsupportedAlgorithm key).message = (unsupportedAlgorithm other).message) :
    key = other := by
  rw [message_unsupported, message_unsupported, String.append_right_inj] at same
  exact UnsupportedKey.eq_of_text_eq written otherWritten same

end Failure

namespace Curve

theorem identifier_of_ofIdentifier? {identifier : Oid} {curve : Curve}
    (found : ofIdentifier? identifier = some curve) : curve.identifier = identifier := by
  have holds := List.find?_some found
  simpa using holds

theorem ofIdentifier?_eq_none {identifier : Oid}
    (other : ∀ curve : Curve, curve.identifier ≠ identifier) : ofIdentifier? identifier = none := by
  cases found : ofIdentifier? identifier with
  | none => rfl
  | some curve => exact absurd (identifier_of_ofIdentifier? found) (other curve)

end Curve

namespace Key.Info

theorem namedParameters?_eq_some_iff {info : Info} {identifier : Oid} :
    info.namedParameters? = some identifier ↔
      info.parameters = some ⟨[0x06], identifier.octets⟩ := by
  unfold namedParameters?
  constructor
  · intro named
    split at named
    · rename_i octets present
      obtain rfl := Oid.ofOctets?_eq_some_iff.mp named
      exact present
    · cases named
  · intro present
    rw [present]
    exact Oid.ofOctets?_octets identifier

end Key.Info

namespace PrivateKey
open Der

/-- An accepted key is exported with the algorithm identifier that was read. -/
theorem algorithm_of_ofInfo {info : Key.Info} {key : PrivateKey} (accepted : ofInfo info = .ok key) :
    key.publicKey.algorithm =
        writeSequence [write 0x06 info.algorithm.octets, writeElements info.parameters.toList] ∧
      (key.scheme = .rsa ↔ info.algorithm = Oid.rsaEncryption) := by
  unfold ofInfo at accepted
  split at accepted
  · rename_i algorithm
    split at accepted
    · rename_i parameters
      split at accepted
      · cases accepted
        rw [algorithm, parameters, publicKey, PublicKey.algorithm]
        exact ⟨rfl, by simp [scheme]⟩
      · cases accepted
    · cases accepted
  · rename_i notRsa
    split at accepted
    · rename_i algorithm
      split at accepted
      · cases accepted
      · rename_i identifier named
        have parameters := Key.Info.namedParameters?_eq_some_iff.mp named
        split at accepted
        · cases accepted
        · rename_i curve found
          obtain rfl := Curve.identifier_of_ofIdentifier? found
          split at accepted
          · rename_i key read
            cases accepted
            obtain ⟨inner, decoded, signs⟩ := Option.bind_eq_some_iff.mp read
            rw [Ecdsa.Key.signing?_eq] at signs
            cases signs
            obtain rfl := Ecdsa.Key.curve_of_ofDer? decoded
            rw [algorithm, parameters, publicKey, PublicKey.algorithm]
            exact ⟨by simp [Element.write_eq], by simp [scheme, Oid.ecPublicKey, Oid.rsaEncryption]⟩
          · cases accepted
    · cases accepted

/-- What an envelope allows its key to be. -/
structure IsClassified (envelope : Key.Envelope) (result : Except Failure PrivateKey) : Prop where
  otherAlgorithm : envelope.info.algorithm ≠ Oid.rsaEncryption →
    envelope.info.algorithm ≠ Oid.ecPublicKey →
    result = .error (.unsupportedAlgorithm (.algorithm envelope.info.algorithm))
  otherCurve : envelope.info.algorithm = Oid.ecPublicKey → ∀ identifier : Oid,
    envelope.info.parameters = some ⟨[0x06], identifier.octets⟩ →
    (∀ curve : Curve, curve.identifier ≠ identifier) →
    result = .error (.unsupportedAlgorithm (.curve identifier))
  noCurve : envelope.info.algorithm = Oid.ecPublicKey →
    (∀ identifier : Oid, envelope.info.parameters ≠ some ⟨[0x06], identifier.octets⟩) →
    result = .error (.invalidCredential .curveParameters)
  accepted : ∀ key, result = .ok key →
    key.publicKey.toDer =
      writeSequence [envelope.identifier, writeBitString key.publicKey.subjectPublicKey] ∧
    (key.scheme.identifier = "aws4-x509-rsa-sha256" ↔
      envelope.info.algorithm = Oid.rsaEncryption)

theorem identifier_eq_rsa_iff (scheme : Scheme) :
    scheme.identifier = "aws4-x509-rsa-sha256" ↔ scheme = .rsa := by
  cases scheme <;> decide

theorem isClassified_ofInfo (envelope : Key.Envelope) :
    IsClassified envelope (ofInfo envelope.info) := by
  have notRsa : Oid.ecPublicKey ≠ Oid.rsaEncryption := by decide
  constructor
  case otherAlgorithm =>
    intro other another
    rw [ofInfo, if_neg other, if_neg another]
  case otherCurve =>
    intro algorithm identifier parameters other
    have named := Key.Info.namedParameters?_eq_some_iff.mpr parameters
    rw [ofInfo, algorithm, if_neg notRsa, if_pos rfl, named]
    simp only [Curve.ofIdentifier?_eq_none other]
  case noCurve =>
    intro algorithm other
    have unnamed : envelope.info.namedParameters? = none := by
      cases named : envelope.info.namedParameters? with
      | none => rfl
      | some identifier =>
        exact absurd (Key.Info.namedParameters?_eq_some_iff.mp named) (other identifier)
    rw [ofInfo, algorithm, if_neg notRsa, if_pos rfl, unnamed]
  case accepted =>
    intro key accepted
    obtain ⟨exported, kind⟩ := algorithm_of_ofInfo accepted
    refine ⟨?_, (identifier_eq_rsa_iff key.scheme).trans kind⟩
    rw [PublicKey.toDer, exported, Key.Envelope.identifier]

/-- Octets that are not one envelope are refused as such. For an envelope the algorithm in it decides
the result, and the message of a refusal names the algorithm or the curve and no other. -/
theorem ofDer_classified (octets : Bytes) :
    ((¬∃ envelope : Key.Envelope, envelope.IsWellFormed ∧ envelope.toDer = octets) →
      ofDer octets = .error (.invalidCredential .keyInfo)) ∧
    (∀ envelope : Key.Envelope, envelope.IsWellFormed → envelope.toDer = octets →
      IsClassified envelope (ofDer octets)) ∧
    (∀ (oid : Oid) (arcs : Oid.Arcs), arcs.Writes oid →
      (Failure.unsupportedAlgorithm (.algorithm oid)).message =
          "unsupported algorithm: private key algorithm " ++ Oid.join arcs.numbers ∧
        (Failure.unsupportedAlgorithm (.curve oid)).message =
          "unsupported algorithm: elliptic curve " ++ Oid.join arcs.numbers) ∧
    (∀ (key other : UnsupportedKey) (arcs otherArcs : Oid.Arcs), arcs.Writes key.oid →
      otherArcs.Writes other.oid →
      (Failure.unsupportedAlgorithm key).message = (Failure.unsupportedAlgorithm other).message →
      key = other) := by
  refine ⟨?_, ?_, ?_, ?_⟩
  · intro absent
    unfold ofDer
    split
    · rename_i info read
      obtain ⟨envelope, wellFormed, -, written⟩ := Key.Info.ofDer?_eq_some_iff.mp read
      exact absurd ⟨envelope, wellFormed, written⟩ absent
    · rfl
  · rintro envelope wellFormed rfl
    have read := Key.Info.ofDer?_envelope wellFormed
    simp only [ofDer, read]
    exact isClassified_ofInfo envelope
  · exact fun oid arcs written => ⟨Failure.message_algorithm written, Failure.message_curve written⟩
  · exact fun key other arcs otherArcs => Failure.eq_of_message_eq

/-- A key for Ed25519, with an attribute, is refused by its name; no octets at all are refused as an
envelope. -/
theorem ofDer_classified_ed25519 :
    let ed25519 : Oid := ⟨[0x2b, 0x65, 0x70], by decide⟩
    let envelope : Key.Envelope := ⟨⟨ed25519, none, [0x04, 0x00]⟩, [⟨[0xa0], [0x31, 0x00]⟩], none, []⟩
    ofDer envelope.toDer = .error (.unsupportedAlgorithm (.algorithm ed25519)) ∧
      (Failure.unsupportedAlgorithm (.algorithm ed25519)).message =
        "unsupported algorithm: private key algorithm " ++ Oid.join [1, 3, 101, 112] ∧
      ofDer [] = .error (.invalidCredential .keyInfo) := by
  intro ed25519 envelope
  have wellFormed : envelope.IsWellFormed := by
    refine ⟨by simp [envelope], ?_, by simp [envelope], by simp [envelope], by decide⟩
    intro element member
    obtain rfl := List.mem_singleton.mp member
    exact ⟨0xa0, rfl, by decide⟩
  have written : (⟨1, 3, [101, 112]⟩ : Oid.Arcs).Writes ed25519 := by
    refine ⟨by decide, by decide, by simp, ?_⟩
    simp [ed25519, Oid.Arcs.octets, Oid.arcOctets, Oid.leadingOctets]
  have nothing : ¬∃ envelope : Key.Envelope, envelope.IsWellFormed ∧ envelope.toDer = [] := by
    rintro ⟨envelope, -, empty⟩
    exact List.cons_ne_nil _ _ empty
  obtain ⟨-, classified, messages, -⟩ := ofDer_classified envelope.toDer
  exact ⟨(classified envelope wellFormed rfl).otherAlgorithm (by decide) (by decide),
    (messages ed25519 _ written).1, (ofDer_classified []).1 nothing⟩

/-- An envelope that holds little more than the name of an algorithm. -/
def envelopeOf (identifier : Bytes) : Bytes :=
  writeSequence [write 0x02 [0], writeSequence [write 0x06 identifier], write 0x04 [0x05, 0x00]]

/-- Not every object identifier can be held. One of forty octets is refused with its envelope, a
padded one is taken for an identifier, and of an arc over 32 bits only the low ones are named. -/
theorem ofDer_unheld_identifiers :
    let long : Oid.Arcs := ⟨1, 2, List.replicate 39 1⟩
    let padded : Oid := ⟨[0x2a, 0x80, 0x01], by decide⟩
    let wide : Oid := ⟨[0x2a, 0x90, 0x80, 0x80, 0x80, 0x01, 0x01], by decide⟩
    let narrow : Oid := ⟨[0x2a, 0x01, 0x01], by decide⟩
    ofDer (envelopeOf long.octets) = .error (.invalidCredential .keyInfo) ∧
      ofDer (envelopeOf padded.octets) = .error (.unsupportedAlgorithm (.algorithm padded)) ∧
      ofDer (envelopeOf wide.octets) = .error (.unsupportedAlgorithm (.algorithm wide)) ∧
      ofDer (envelopeOf narrow.octets) = .error (.unsupportedAlgorithm (.algorithm narrow)) ∧
      wide.octets = (⟨1, 2, [2 ^ 32 + 1, 1]⟩ : Oid.Arcs).octets ∧
      narrow.octets = (⟨1, 2, [1, 1]⟩ : Oid.Arcs).octets ∧
      (Failure.unsupportedAlgorithm (.algorithm wide)).message =
        (Failure.unsupportedAlgorithm (.algorithm narrow)).message := by
  intro long padded wide narrow
  have written : long.octets = 0x2a :: List.replicate 39 1 := by
    simp [long, Oid.Arcs.octets, Oid.arcOctets, Oid.leadingOctets]
  have refused (identifier : Oid) (read : Key.Info.ofDer? (envelopeOf identifier.octets) =
      some ⟨identifier, none, [0x05, 0x00]⟩) (other : identifier ≠ Oid.rsaEncryption)
      (another : identifier ≠ Oid.ecPublicKey) : ofDer (envelopeOf identifier.octets) =
        .error (.unsupportedAlgorithm (.algorithm identifier)) := by
    simp only [ofDer, read, ofInfo, if_neg other, if_neg another]
  have unread : Key.Info.ofDer? (envelopeOf long.octets) = none := by
    rw [written]
    decide +kernel
  refine ⟨?_, ?_, ?_, ?_, ?_, ?_, ?_⟩
  · simp only [ofDer, unread]
  · exact refused padded (by decide +kernel) (by decide) (by decide)
  · exact refused wide (by decide +kernel) (by decide) (by decide)
  · exact refused narrow (by decide +kernel) (by decide) (by decide)
  · simp [wide, Oid.Arcs.octets, Oid.arcOctets, Oid.leadingOctets]
  · simp [narrow, Oid.Arcs.octets, Oid.arcOctets, Oid.leadingOctets]
  · have arcs : wide.arcs = narrow.arcs := by decide +kernel
    rw [Failure.message_unsupported, Failure.message_unsupported, UnsupportedKey.text_algorithm,
      UnsupportedKey.text_algorithm, Oid.dotted, Oid.dotted, arcs]

end PrivateKey
end CredentialSigning
