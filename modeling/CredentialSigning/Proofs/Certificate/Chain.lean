import CredentialSigning.Proofs.Archive.Integrity
import CredentialSigning.Proofs.Pem.Bundle
import Mathlib.Data.List.Forall2

/-! Chains and single certificates from the same kind of file. A chain is read block by block; from a
written bundle it is the certificates that were written, in their order. A single certificate is the
first of a chain, as long as the first block of the file has the label of certificates. -/

namespace CredentialSigning

namespace Certificate
open Pem.Bundle

/-- A chain by its first block. -/
theorem chainOfPem?_of_block {octets rest : Bytes} {block : Block}
    (found : block? octets = some (block, rest)) : chainOfPem? octets =
      block.contents?.bind fun contents =>
        if block.label = label then
          (ofDer? contents).bind fun certificate => (chainOfPem? rest).map (certificate :: ·)
        else chainOfPem? rest := by
  rw [chainOfPem?, chainOfPem?, blocks_of_block? found, List.mapM_cons]
  cases block.contents? with
  | none => rfl
  | some contents =>
    simp only [Option.map_some, Option.bind_eq_bind, Option.bind_some, Option.pure_def]
    cases (blocks rest).mapM fun block =>
      block.contents?.map fun contents => (block.label, contents) with
    | none =>
      -- a later block that is not sound spoils the chain, whether this one decodes or not
      cases ofDer? contents <;> simp
    | some sound =>
      by_cases same : block.label = label
      · simp [same, Option.map_eq_bind]
      · simp [same]

theorem chainOfPem?_of_no_block {octets : Bytes} (absent : block? octets = none) :
    chainOfPem? octets = some [] := by
  rw [chainOfPem?, blocks_eq_nil absent]
  rfl

theorem chainOfPem?_congr {octets others : Bytes} (same : block? octets = block? others) :
    chainOfPem? octets = chainOfPem? others := by
  rw [chainOfPem?, chainOfPem?, blocks_congr same]

theorem ofPem?_of_block {octets rest : Bytes} {block : Block}
    (found : block? octets = some (block, rest)) : ofPem? octets = block.contents?.bind ofDer? := by
  rw [ofPem?, found]
  rfl

theorem ofPem?_of_no_block {octets : Bytes} (absent : block? octets = none) :
    ofPem? octets = none := by
  rw [ofPem?, absent]
  rfl

/-- The first of a chain is the certificate that is read by itself, where the first block, if there
is one, has the label of certificates. -/
theorem ofPem?_eq_head? {octets : Bytes} {certificates : List Certificate}
    (labelled : ∀ block rest, block? octets = some (block, rest) → block.label = label)
    (read : chainOfPem? octets = some certificates) : ofPem? octets = certificates.head? := by
  cases found : block? octets with
  | none =>
    rw [chainOfPem?_of_no_block found] at read
    cases read
    exact ofPem?_of_no_block found
  | some pair =>
    obtain ⟨block, rest⟩ := pair
    rw [chainOfPem?_of_block found] at read
    obtain ⟨contents, sound, read⟩ := Option.bind_eq_some_iff.mp read
    rw [if_pos (labelled block rest found)] at read
    obtain ⟨certificate, decoded, read⟩ := Option.bind_eq_some_iff.mp read
    obtain ⟨later, -, rfl⟩ := Option.map_eq_some_iff.mp read
    rw [ofPem?_of_block found, sound, Option.bind_some, decoded, List.head?_cons]

section Written

variable {blockLabel lineEnd : Bytes} (plain : IsPlain blockLabel) (ascii : Text.IsAscii blockLabel)
  (nonempty : blockLabel ≠ []) (ends : Pem.Document.IsLineEnd lineEnd) (contents rest : Bytes)
include plain ascii nonempty ends

theorem chainOfPem?_encapsulate :
    chainOfPem? (encapsulate blockLabel lineEnd contents ++ rest) =
      if blockLabel = label then
        (ofDer? contents).bind fun certificate => (chainOfPem? rest).map (certificate :: ·)
      else chainOfPem? rest := by
  rw [chainOfPem?_of_block (block?_encapsulate plain ends contents rest),
    contents?_written nonempty ascii ends, Option.bind_some,
    chainOfPem?_congr (block?_skipBlanks rest)]
  rfl

theorem ofPem?_encapsulate :
    ofPem? (encapsulate blockLabel lineEnd contents ++ rest) = ofDer? contents := by
  rw [ofPem?_of_block (block?_encapsulate plain ends contents rest),
    contents?_written nonempty ascii ends, Option.bind_some]

end Written

theorem chainOfPem?_append {text : Bytes} (plain : IsPlain text) (octets : Bytes) :
    chainOfPem? (text ++ octets) = chainOfPem? octets :=
  chainOfPem?_congr (block?_append plain octets)

theorem chainOfPem?_of_plain {text : Bytes} (plain : IsPlain text) : chainOfPem? text = some [] := by
  rw [← List.append_nil text, chainOfPem?_append plain]
  exact chainOfPem?_of_no_block rfl

/-- The certificates that some octets decode to, in their order. -/
def Decode (contents : List Bytes) (certificates : List Certificate) : Prop :=
  List.Forall₂ (fun octets certificate => ofDer? octets = some certificate) contents certificates

theorem chainOfPem?_bundle_eq_some_iff {contents : List Bytes} {text : Bytes}
    (bundle : IsBundle label contents text) (certificates : List Certificate) :
    chainOfPem? text = some certificates ↔ Decode contents certificates := by
  induction bundle generalizing certificates with
  | nil plain =>
    rw [chainOfPem?_of_plain plain, Option.some.injEq, Decode, List.forall₂_nil_left_iff, eq_comm]
  | cons plain ends later hypothesis =>
    rw [chainOfPem?_append plain,
      chainOfPem?_encapsulate (by decide) (by decide) (by decide) ends, if_pos rfl, Decode,
      List.forall₂_cons_left_iff]
    simp only [Option.bind_eq_some_iff, Option.map_eq_some_iff, hypothesis]
    constructor
    · rintro ⟨certificate, first, rest, others, rfl⟩
      exact ⟨certificate, rest, first, others, rfl⟩
    · rintro ⟨certificate, rest, first, others, rfl⟩
      exact ⟨certificate, first, rest, others, rfl⟩

theorem not_decode {contents : List Bytes} {octets : Bytes} (member : octets ∈ contents)
    (undecoded : ofDer? octets = none) (certificates : List Certificate) :
    ¬Decode contents certificates := by
  intro decode
  induction decode with
  | nil => cases member
  | cons first later hypothesis =>
    rcases List.mem_cons.mp member with rfl | inRest
    · rw [undecoded] at first
      cases first
    · exact hypothesis inRest

theorem decode_append {contents others : List Bytes} {certificates more : List Certificate}
    (decode : Decode contents certificates) (decodeToo : Decode others more) :
    Decode (contents ++ others) (certificates ++ more) :=
  List.rel_append decode decodeToo

end Certificate

namespace Files
open Pem.Bundle

section Present

variable {files : Files} {path : String} {octets : Bytes} (present : files.read path = .ok octets)
include present

theorem readChain_eq : files.readChain path =
    match Certificate.chainOfPem? octets with
    | some certificates => .ok certificates
    | none => .error (.invalidCredential .chainPem) := by
  rw [readChain, contentOf_eq_ok_iff.mpr present]
  rfl

theorem readCertificate_eq : files.readCertificate path =
    match Certificate.ofPem? octets with
    | some certificate => .ok certificate
    | none => .error (.invalidCredential .certificatePem) := by
  rw [readCertificate, contentOf_eq_ok_iff.mpr present]
  rfl

theorem readChain_eq_ok_iff {certificates : List Certificate} :
    files.readChain path = .ok certificates ↔ Certificate.chainOfPem? octets = some certificates := by
  rw [readChain_eq present]
  cases Certificate.chainOfPem? octets <;> simp

theorem readCertificate_eq_ok_iff {certificate : Certificate} :
    files.readCertificate path = .ok certificate ↔ Certificate.ofPem? octets = some certificate := by
  rw [readCertificate_eq present]
  cases Certificate.ofPem? octets <;> simp

end Present

/-- From a written bundle the certificates are read in their order, all of them and no others, or none
if one of them does not decode. Bundles one after the other give the chains one after the other. -/
theorem readChain_bundle {files : Files} {path : String} {contents : List Bytes} {text : Bytes}
    (bundle : IsBundle Certificate.label contents text) (present : files.read path = .ok text) :
    (∀ certificates, files.readChain path = .ok certificates ↔
      Certificate.Decode contents certificates) ∧
    ((∃ octets ∈ contents, Certificate.ofDer? octets = none) →
      files.readChain path = .error (.invalidCredential .chainPem)) ∧
    ∀ others more otherPath jointPath first second, IsBundle Certificate.label others more →
      files.read otherPath = .ok more → files.read jointPath = .ok (text ++ more) →
      files.readChain path = .ok first → files.readChain otherPath = .ok second →
      files.readChain jointPath = .ok (first ++ second) := by
  refine ⟨?_, ?_, ?_⟩
  · intro certificates
    rw [readChain_eq_ok_iff present, Certificate.chainOfPem?_bundle_eq_some_iff bundle]
  · rintro ⟨octets, member, undecoded⟩
    have unread : Certificate.chainOfPem? text = none := by
      rw [Option.eq_none_iff_forall_ne_some]
      intro certificates read
      exact Certificate.not_decode member undecoded certificates
        ((Certificate.chainOfPem?_bundle_eq_some_iff bundle certificates).mp read)
    rw [readChain_eq present, unread]
  · intro others more otherPath jointPath first second bundleToo otherPresent jointPresent read readToo
    rw [readChain_eq_ok_iff present, Certificate.chainOfPem?_bundle_eq_some_iff bundle] at read
    rw [readChain_eq_ok_iff otherPresent,
      Certificate.chainOfPem?_bundle_eq_some_iff bundleToo] at readToo
    rw [readChain_eq_ok_iff jointPresent,
      Certificate.chainOfPem?_bundle_eq_some_iff (bundle.append bundleToo)]
    exact Certificate.decode_append read readToo

/-- The small certificate, in lines that end in LF and in CR LF, with text around the blocks. -/
theorem readChain_bundle_small :
    let text := Text.ascii "first:" ++ (encapsulate Certificate.label [10] Archive.smallCertificate ++
      (Text.ascii " second:" ++ (encapsulate Certificate.label [13, 10] Archive.smallCertificate ++
        [13, 10])))
    ∃ certificate, Certificate.ofDer? Archive.smallCertificate = some certificate ∧
      readChain ⟨[(["chain"], .file text)]⟩ "chain" = .ok [certificate, certificate] := by
  intro text
  have bundle : IsBundle Certificate.label [Archive.smallCertificate, Archive.smallCertificate] text :=
    .cons (by decide) (.inl rfl) (.cons (by decide) (.inr rfl) (.nil (by decide)))
  have decodes : (Certificate.ofDer? Archive.smallCertificate).isSome = true := by decide +kernel
  obtain ⟨certificate, decoded⟩ := Option.isSome_iff_exists.mp decodes
  refine ⟨certificate, decoded, ((readChain_bundle bundle rfl).1 _).mpr ?_⟩
  exact .cons decoded (.cons decoded .nil)

/-- Where the first block has the label of certificates, the single certificate is the first one of the
chain; it is refused where the chain is empty, and no chain begins with a certificate that is refused.
A first block with another label is the single certificate all the same, while the chain passes over
it, if it is sound. -/
theorem readChain_agrees {files : Files} {path : String} {octets : Bytes}
    (present : files.read path = .ok octets) :
    ((∀ block rest, block? octets = some (block, rest) → block.label = Certificate.label) →
      (∀ certificate later, files.readChain path = .ok (certificate :: later) →
        files.readCertificate path = .ok certificate) ∧
      (files.readChain path = .ok [] →
        files.readCertificate path = .error (.invalidCredential .certificatePem)) ∧
      ((∃ stage, files.readCertificate path = .error (.invalidCredential stage)) →
        files.readChain path = .ok [] ∨
          files.readChain path = .error (.invalidCredential .chainPem))) ∧
    (∀ block rest, block? octets = some (block, rest) → block.label ≠ Certificate.label →
      (∀ certificate, files.readCertificate path = .ok certificate ↔
        ∃ contents, block.contents? = some contents ∧
          Certificate.ofDer? contents = some certificate) ∧
      (block.contents? = none → files.readChain path = .error (.invalidCredential .chainPem)) ∧
      (block.contents? ≠ none → ∀ restPath, files.read restPath = .ok rest →
        files.readChain path = files.readChain restPath)) := by
  constructor
  · intro labelled
    refine ⟨?_, ?_, ?_⟩
    · intro certificate later read
      rw [readChain_eq_ok_iff present] at read
      rw [readCertificate_eq_ok_iff present, Certificate.ofPem?_eq_head? labelled read, List.head?_cons]
    · intro read
      rw [readChain_eq_ok_iff present] at read
      rw [readCertificate_eq present, Certificate.ofPem?_eq_head? labelled read, List.head?_nil]
    · rintro ⟨stage, refused⟩
      cases read : Certificate.chainOfPem? octets with
      | none => exact .inr (by rw [readChain_eq present, read])
      | some certificates =>
        have empty : certificates.head? = none := by
          rw [← Certificate.ofPem?_eq_head? labelled read, Option.eq_none_iff_forall_ne_some]
          intro certificate alone
          rw [(readCertificate_eq_ok_iff present).mpr alone] at refused
          cases refused
        rw [List.head?_eq_none_iff] at empty
        exact .inl ((readChain_eq_ok_iff present).mpr (by rw [read, empty]))
  · intro block rest found other
    have chain := Certificate.chainOfPem?_of_block found
    refine ⟨?_, ?_, ?_⟩
    · intro certificate
      rw [readCertificate_eq_ok_iff present, Certificate.ofPem?_of_block found,
        Option.bind_eq_some_iff]
    · intro unsound
      rw [unsound, Option.bind_none] at chain
      rw [readChain_eq present, chain]
    · intro sound restPath restPresent
      obtain ⟨contents, sound⟩ := Option.ne_none_iff_exists'.mp sound
      rw [sound, Option.bind_some, if_neg other] at chain
      rw [readChain_eq present, readChain_eq restPresent, chain]

/-- A file with one certificate, and the same file after a key. -/
theorem readChain_agrees_small :
    let single := encapsulate Certificate.label [10] Archive.smallCertificate ++ [10]
    let bundle := encapsulate (Text.ascii "PRIVATE KEY") [10] Archive.smallKey ++ ([10] ++ single)
    let files : Files := ⟨[(["single"], .file single), (["bundle"], .file bundle)]⟩
    ∃ certificate, files.readChain "single" = .ok [certificate] ∧
      files.readCertificate "single" = .ok certificate ∧
      files.readChain "bundle" = files.readChain "single" := by
  intro single bundle files
  have present : files.read "single" = .ok single := rfl
  have labelled : ∀ block rest, block? single = some (block, rest) →
      block.label = Certificate.label := by
    intro block rest found
    rw [block?_encapsulate (by decide) (.inl rfl)] at found
    cases found
    rfl
  have decodes : (Certificate.ofDer? Archive.smallCertificate).isSome = true := by decide +kernel
  obtain ⟨certificate, decoded⟩ := Option.isSome_iff_exists.mp decodes
  have chain : files.readChain "single" = .ok [certificate] := by
    rw [readChain_eq_ok_iff present,
      Certificate.chainOfPem?_encapsulate (by decide) (by decide) (by decide) (.inl rfl), decoded,
      Certificate.chainOfPem?_of_plain (by decide)]
    rfl
  have key : block? bundle = some (written (Text.ascii "PRIVATE KEY") [10] Archive.smallKey, single) :=
    block?_encapsulate (by decide) (.inl rfl) Archive.smallKey ([10] ++ single)
  have sound : (written (Text.ascii "PRIVATE KEY") [10] Archive.smallKey).contents? ≠ none := by
    rw [contents?_written (by decide) (by decide) (.inl rfl)]
    exact Option.some_ne_none _
  have bundlePresent : files.read "bundle" = .ok bundle := rfl
  obtain ⟨-, passed⟩ := readChain_agrees bundlePresent
  exact ⟨certificate, chain, ((readChain_agrees present).1 labelled).1 certificate [] chain,
    (passed _ _ key (by decide)).2.2 sound "single" present⟩

/-- A key before a certificate is passed over in a chain, and refused as a certificate. A certificate
under another label is read by itself, and passed over in a chain. -/
theorem readChain_other_labels :
    let document (label contents : Bytes) := Pem.Document.write label [10] contents
    let files : Files := ⟨[
      (["bundle"], .file (document (Text.ascii "PRIVATE KEY") Archive.smallKey ++
        document Certificate.label Archive.smallCertificate)),
      (["trusted"], .file (document (Text.ascii "TRUSTED CERTIFICATE") Archive.smallCertificate))]⟩
    ∃ certificate, files.readChain "bundle" = .ok [certificate] ∧
      files.readCertificate "bundle" = .error (.invalidCredential .certificatePem) ∧
      files.readChain "trusted" = .ok [] ∧ files.readCertificate "trusted" = .ok certificate := by
  intro document files
  have write (label : Bytes) {contents : Bytes} (nonempty : contents ≠ []) :
      document label contents = encapsulate label [10] contents ++ [10] :=
    write_eq_encapsulate label [10] nonempty
  have bundle : files.read "bundle" = .ok (encapsulate (Text.ascii "PRIVATE KEY") [10] Archive.smallKey ++
      ([10] ++ (encapsulate Certificate.label [10] Archive.smallCertificate ++ [10]))) := by
    rw [← write Certificate.label (by decide), ← List.append_assoc, ← write _ (by decide)]
    rfl
  have trusted : files.read "trusted" = .ok
      (encapsulate (Text.ascii "TRUSTED CERTIFICATE") [10] Archive.smallCertificate ++ [10]) := by
    rw [← write _ (by decide)]
    rfl
  have decodes : (Certificate.ofDer? Archive.smallCertificate).isSome = true := by decide +kernel
  obtain ⟨certificate, decoded⟩ := Option.isSome_iff_exists.mp decodes
  have keyRefused : Certificate.ofDer? Archive.smallKey = none := by decide +kernel
  have own : Certificate.chainOfPem? (encapsulate Certificate.label [10] Archive.smallCertificate ++ [10]) =
      some [certificate] := by
    rw [Certificate.chainOfPem?_encapsulate (by decide) (by decide) (by decide) (.inl rfl), decoded,
      Certificate.chainOfPem?_of_plain (by decide)]
    rfl
  refine ⟨certificate, ?_, ?_, ?_, ?_⟩
  · rw [readChain_eq_ok_iff bundle,
      Certificate.chainOfPem?_encapsulate (by decide) (by decide) (by decide) (.inl rfl),
      if_neg (by decide), Certificate.chainOfPem?_append (by decide), own]
  · rw [readCertificate_eq bundle,
      Certificate.ofPem?_encapsulate (by decide) (by decide) (by decide) (.inl rfl), keyRefused]
  · rw [readChain_eq_ok_iff trusted,
      Certificate.chainOfPem?_encapsulate (by decide) (by decide) (by decide) (.inl rfl),
      if_neg (by decide), Certificate.chainOfPem?_of_plain (by decide)]
  · rw [readCertificate_eq_ok_iff trusted,
      Certificate.ofPem?_encapsulate (by decide) (by decide) (by decide) (.inl rfl), decoded]

end Files
end CredentialSigning
