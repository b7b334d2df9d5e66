import CredentialSigning.Proofs.Key.Envelope

/-! The envelope of a private key as it is written in version 0, with attributes or without. It is
read back whatever the attributes are, unless they make it too long. -/

namespace CredentialSigning.Key.Info
open Der

/-- The envelope in version 0. -/
def toDer (info : Info) (attributes : Option Bytes) : Bytes :=
  writeSequence [write 0x02 [0],
    writeSequence [write 0x06 info.algorithm.octets, (info.parameters.map Element.write).getD []],
    write 0x04 info.key, writeOptional 0xa0 attributes]

/-- The same envelope among all that may be read. -/
def envelope (info : Info) (attributes : Option Bytes) : Envelope :=
  ⟨info, (attributes.map fun content => ⟨[0xa0], content⟩).toList, none, []⟩

theorem toDer_envelope (info : Info) (attributes : Option Bytes) :
    (info.envelope attributes).toDer = info.toDer attributes := by
  have parameters : writeElements info.parameters.toList =
      (info.parameters.map Element.write).getD [] := by
    cases info.parameters with
    | none => rfl
    | some element => exact List.append_nil _
  have fields : writeElements (attributes.map fun content => ⟨[0xa0], content⟩).toList =
      writeOptional 0xa0 attributes := by
    cases attributes with
    | none => rfl
    | some content => exact List.append_nil _
  simp [Envelope.toDer, Envelope.identifier, Envelope.version, Envelope.publicField, envelope, toDer,
    writeSequence, parameters, fields]

theorem ofDer?_toDer {info : Info} {attributes : Option Bytes}
    (plain : ∀ element ∈ info.parameters, element.HasKeyTag)
    (short : (info.toDer attributes).length < keyLimit) :
    ofDer? (info.toDer attributes) = some info := by
  rw [← toDer_envelope] at short ⊢
  apply ofDer?_envelope
  refine ⟨plain, ?_, by simp [envelope], by simp [envelope], short⟩
  intro element member
  obtain ⟨content, -, rfl⟩ := Option.map_eq_some_iff.mp (Option.mem_toList.mp member)
  exact ⟨0xa0, rfl, by decide⟩

theorem ofDer?_of_long {octets : Bytes} (long : keyLimit ≤ octets.length) :
    ofDer? octets = none := by
  rw [ofDer?, document?, if_neg (Nat.not_lt.mpr long)]
  rfl

end CredentialSigning.Key.Info
