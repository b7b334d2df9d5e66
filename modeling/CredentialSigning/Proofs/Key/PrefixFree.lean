import CredentialSigning.Proofs.Archive.Integrity
import CredentialSigning.Proofs.Key.Envelope

/-! Envelopes of keys are prefix-free: no envelope begins another one. A key that is cut short, or that
more octets follow, is refused as an envelope before its algorithm is looked at. -/

namespace CredentialSigning

section PrefixFree
open Der

variable {shorter longer : Bytes} (begins : shorter <+: longer)
include begins

/-- An element ends where its length says, so what follows it would be left over. -/
theorem Der.Rules.whole?_prefixFree {tag : UInt8} (isTag : isKeyTag tag = true)
    {content other : Bytes} (read : key.whole? tag shorter = some content)
    (readToo : key.whole? tag longer = some other) : shorter = longer := by
  obtain ⟨more, rfl⟩ := begins
  obtain ⟨short, written⟩ := (whole?_eq_some_iff isTag).mp read
  obtain ⟨shortToo, writtenToo⟩ := (whole?_eq_some_iff isTag).mp readToo
  have here : key.take? tag (shorter ++ more) = some (content, more) :=
    (take?_eq_some_iff isTag).mpr ⟨short, by rw [written]⟩
  have all : key.take? tag (shorter ++ more) = some (other, []) :=
    (take?_eq_some_iff isTag).mpr ⟨shortToo, by rw [writtenToo, List.append_nil]⟩
  rw [here, Option.some.injEq, Prod.mk.injEq] at all
  rw [all.2, List.append_nil]

theorem Der.document?_prefixFree {content other : Bytes} (read : document? shorter = some content)
    (readToo : document? longer = some other) : shorter = longer := by
  obtain ⟨short, -⟩ := document?_eq_some_iff.mp read
  obtain ⟨shortToo, -⟩ := document?_eq_some_iff.mp readToo
  rw [document?, if_pos short] at read
  rw [document?, if_pos shortToo] at readToo
  exact Rules.whole?_prefixFree begins (by decide) read readToo

theorem Key.Info.ofDer?_prefixFree {info other : Key.Info} (read : ofDer? shorter = some info)
    (readToo : ofDer? longer = some other) : shorter = longer := by
  obtain ⟨content, document, -⟩ := Option.bind_eq_some_iff.mp read
  obtain ⟨contentToo, documentToo, -⟩ := Option.bind_eq_some_iff.mp readToo
  exact document?_prefixFree begins document documentToo

end PrefixFree

namespace PrivateKey

/-- What is classified at all is an envelope. -/
theorem exists_info_of_ofDer {octets : Bytes}
    (classified : ofDer octets ≠ .error (.invalidCredential .keyInfo)) :
    ∃ info, Key.Info.ofDer? octets = some info := by
  cases read : Key.Info.ofDer? octets with
  | some info => exact ⟨info, rfl⟩
  | none =>
    rw [ofDer, read] at classified
    exact absurd rfl classified

/-- Of two octet strings of which one begins the other, at most one is classified. -/
theorem ofDer_of_begins {shorter longer : Bytes} (begins : shorter <+: longer)
    (differ : shorter ≠ longer) : ofDer shorter = .error (.invalidCredential .keyInfo) ∨
      ofDer longer = .error (.invalidCredential .keyInfo) := by
  by_contra both
  obtain ⟨classified, classifiedToo⟩ := not_or.mp both
  obtain ⟨info, read⟩ := exists_info_of_ofDer classified
  obtain ⟨other, readToo⟩ := exists_info_of_ofDer classifiedToo
  exact differ (Key.Info.ofDer?_prefixFree begins read readToo)

/-- Nothing that an accepted key begins with, and nothing that begins with it, is an envelope too. The
same goes for a key whose algorithm is not supported. -/
theorem ofDer_prefixFree {octets : Bytes}
    (classified : (∃ key, ofDer octets = .ok key) ∨
      ∃ unsupported, ofDer octets = .error (.unsupportedAlgorithm unsupported)) :
    (∀ shorter, shorter <+: octets → shorter ≠ octets →
      ofDer shorter = .error (.invalidCredential .keyInfo)) ∧
    ∀ more, more ≠ [] → ofDer (octets ++ more) = .error (.invalidCredential .keyInfo) := by
  have envelope : ofDer octets ≠ .error (.invalidCredential .keyInfo) := by
    rcases classified with ⟨key, accepted⟩ | ⟨unsupported, refused⟩
    · rw [accepted]
      exact nofun
    · rw [refused]
      exact nofun
  constructor
  · intro shorter begins differ
    exact (ofDer_of_begins begins differ).resolve_right envelope
  · intro more nonempty
    have differ : octets ≠ octets ++ more := by
      rwa [ne_eq, List.self_eq_append_right]
    exact (ofDer_of_begins (List.prefix_append octets more) differ).resolve_left envelope

/-- The key with the modulus 33 loses its last octet, or gets another one. -/
theorem ofDer_prefixFree_small :
    (∃ key, ofDer Archive.smallKey = .ok key) ∧
      ofDer Archive.smallKey.dropLast = .error (.invalidCredential .keyInfo) ∧
      ofDer (Archive.smallKey ++ [0x00]) = .error (.invalidCredential .keyInfo) := by
  have loads : (ofDer Archive.smallKey).toOption.isSome = true := by decide +kernel
  obtain ⟨key, accepted⟩ := exists_eq_ok loads
  obtain ⟨cut, extended⟩ := ofDer_prefixFree (.inl ⟨key, accepted⟩)
  refine ⟨⟨key, accepted⟩, cut _ (List.dropLast_prefix _) ?_, extended [0x00] (List.cons_ne_nil _ _)⟩
  decide +kernel

end PrivateKey
end CredentialSigning
