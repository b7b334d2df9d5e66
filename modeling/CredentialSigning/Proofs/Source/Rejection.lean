import CredentialSigning.Proofs.Archive.Agreement
import CredentialSigning.Signer.Source

/-! Failures to read a file, which are worth another try, and rejections of what is read, which are
not. A key that is not text is the one content that fails as if it could not be read. -/

namespace CredentialSigning

namespace Failure

/-- Something was read and refused. -/
def IsRejection (failure : Failure) : Prop :=
  failure.kind ∈ [.invalidCredential, .malformedArchive, .unsupportedAlgorithm, .noPrivateKey]

instance (failure : Failure) : Decidable failure.IsRejection :=
  inferInstanceAs (Decidable (failure.kind ∈ _))

theorem IsRejection.isRetryable_eq_false {failure : Failure} (rejection : failure.IsRejection) :
    failure.isRetryable = false := by
  unfold IsRejection at rejection
  cases failure with
  | io fault => simp [kind] at rejection
  | _ => rfl

end Failure

/-- If there is no result, then something was refused, for good. -/
def Rejects {α : Type} (result : Except Failure α) : Prop :=
  ∀ failure, result = .error failure → failure.IsRejection ∧ failure.isRetryable = false

theorem rejects_ok {α : Type} (value : α) : Rejects (.ok value) := by
  intro failure failed
  cases failed

theorem rejects_error {α : Type} {failure : Failure} (rejection : failure.IsRejection) :
    Rejects (.error failure : Except Failure α) := by
  intro other failed
  cases failed
  exact ⟨rejection, rejection.isRetryable_eq_false⟩

theorem Rejects.bind {α β : Type} {result : Except Failure α} {next : α → Except Failure β}
    (first : Rejects result) (later : ∀ value, Rejects (next value)) : Rejects (result >>= next) := by
  cases result with
  | error failure => exact rejects_error (first failure rfl).1
  | ok value => exact later value

theorem PrivateKey.rejects_ofInfo (info : Key.Info) : Rejects (ofInfo info) := by
  intro failure refused
  have rejection : failure.IsRejection := by
    rcases kind_of_ofInfo refused with unsupported | invalid
    · simp [Failure.IsRejection, unsupported]
    · simp [Failure.IsRejection, invalid]
  exact ⟨rejection, rejection.isRetryable_eq_false⟩

theorem Key.Info.rejects_ofPem (text : Bytes) : Rejects (ofPem text) := by
  unfold ofPem
  split
  · exact rejects_error (by decide)
  · split
    · exact rejects_error (by decide)
    · exact rejects_ok _

namespace Archive

theorem rejects_selectLeaf (key : PublicKey) (certificates : List Bytes) :
    Rejects (selectLeaf key certificates) := by
  unfold selectLeaf
  split
  · exact rejects_error (by decide)
  · split
    · exact rejects_ok _
    · exact rejects_error (by decide)

theorem rejects_credentials (bags : List Bag) : Rejects (credentials bags) := by
  unfold credentials
  split
  · exact rejects_error (by decide)
  · split
    · exact rejects_error (by decide)
    · refine (PrivateKey.rejects_ofInfo _).bind fun key => ?_
      exact (rejects_selectLeaf key.publicKey _).bind fun leaf => rejects_ok _

theorem rejects_decode (octets : Bytes) : Rejects (decode octets) := by
  unfold decode
  split
  · exact rejects_error (by decide)
  · split
    · split
      · exact rejects_error (by decide)
      · exact rejects_credentials _
    · exact rejects_error (by decide)

end Archive

namespace Files

/-- There is a file that can be read. -/
def IsReadable (files : Files) (path : String) : Prop :=
  ∃ octets, files.read path = .ok octets

/-- And it holds text. -/
def IsText (files : Files) (path : String) : Prop :=
  ∃ text, files.readText path = .ok text

variable {files : Files} {path : String}

theorem IsReadable.rejects_contentOf (readable : files.IsReadable path) :
    Rejects (files.contentOf path) := by
  obtain ⟨octets, present⟩ := readable
  rw [contentOf_eq_ok_iff.mpr present]
  exact rejects_ok octets

theorem rejects_readCertificate (readable : files.IsReadable path) :
    Rejects (files.readCertificate path) := by
  refine readable.rejects_contentOf.bind fun octets => ?_
  split
  · exact rejects_ok _
  · exact rejects_error (by decide)

theorem rejects_readChain (readable : files.IsReadable path) : Rejects (files.readChain path) := by
  refine readable.rejects_contentOf.bind fun octets => ?_
  split
  · exact rejects_ok _
  · exact rejects_error (by decide)

theorem rejects_readOptionalChain {chain : Option String}
    (readable : ∀ path ∈ chain, files.IsReadable path) : Rejects (files.readOptionalChain chain) := by
  cases chain with
  | none => exact rejects_ok []
  | some path => exact rejects_readChain (readable path rfl)

theorem rejects_readKey (text : files.IsText path) : Rejects (files.readKey path) := by
  obtain ⟨content, read⟩ := text
  have decoded : Rejects (files.readKeyInfo path) := by
    rw [readKeyInfo, read]
    exact Key.Info.rejects_ofPem _
  exact decoded.bind PrivateKey.rejects_ofInfo

theorem readText_eq_error (readable : files.IsReadable path) (garbled : ¬files.IsText path) :
    files.readText path = .error .notUtf8 := by
  obtain ⟨octets, present⟩ := readable
  cases read : files.readText path with
  | ok text => exact absurd ⟨text, read⟩ garbled
  | error fault =>
    rw [readText, present] at read
    cases decoded : Text.ofUtf8? octets with
    | none => simpa [bind, Except.bind, decoded] using read.symm
    | some text => simp [bind, Except.bind, decoded] at read

theorem readKey_eq_error (readable : files.IsReadable path) (garbled : ¬files.IsText path) :
    files.readKey path = .error (.io .notUtf8) := by
  rw [readKey, readKeyInfo, readText_eq_error readable garbled]
  rfl

end Files

theorem Signer.rejects_ofArchive {files : Files} {path : String} (readable : files.IsReadable path) :
    Rejects (ofArchive files path) := by
  refine readable.rejects_contentOf.bind fun octets => ?_
  exact (Archive.rejects_decode octets).bind fun found => rejects_ok _

namespace Source

/-- The files that a build may read. -/
def paths : Source → List String
  | archive path => [path]
  | pem certificate key chain => certificate :: key :: chain.toList

/-- A build gets as far as its key, and the key is not text. -/
def MeetsGarbledKey (files : Files) : Source → Prop
  | archive _ => False
  | pem certificate key _ =>
    (∃ leaf, files.readCertificate certificate = .ok leaf) ∧ ¬files.IsText key

theorem rejects_build {files : Files} {source : Source}
    (readable : ∀ path ∈ source.paths, files.IsReadable path)
    (sound : ¬source.MeetsGarbledKey files) : Rejects (source.build files) := by
  cases source with
  | archive path =>
    refine (Signer.rejects_ofArchive (readable path ?_)).bind fun signer => rejects_ok _
    exact List.mem_singleton_self path
  | pem certificate key chain =>
    simp only [paths, List.forall_mem_cons, Option.mem_toList] at readable
    obtain ⟨certificateReadable, -, chainReadable⟩ := readable
    -- a key that is not text does no harm behind a certificate that is refused before it
    have built : Rejects (Signer.ofPem files certificate key chain) := by
      cases leaf : files.readCertificate certificate with
      | error failure =>
        rw [Signer.ofPem, leaf]
        exact rejects_error (Files.rejects_readCertificate certificateReadable failure leaf).1
      | ok certificate =>
        have text : files.IsText key := by
          by_contra garbled
          exact sound ⟨⟨certificate, leaf⟩, garbled⟩
        rw [Signer.ofPem, leaf]
        refine (Files.rejects_readKey text).bind fun key => ?_
        exact (Files.rejects_readOptionalChain chainReadable).bind fun chain => rejects_ok _
    exact built.bind fun signer => rejects_ok _

theorem build_eq_error {files : Files} {source : Source}
    (readable : ∀ path ∈ source.paths, files.IsReadable path) (garbled : source.MeetsGarbledKey files) :
    source.build files = .error (.io .notUtf8) := by
  cases source with
  | archive path => exact garbled.elim
  | pem certificate key chain =>
    obtain ⟨⟨leaf, decoded⟩, garbled⟩ := garbled
    have keyReadable : files.IsReadable key :=
      readable key (List.mem_cons_of_mem certificate List.mem_cons_self)
    rw [build, Signer.ofPem, decoded, Files.readKey_eq_error keyReadable garbled]
    rfl

/-- Where all files can be read, a failure is a rejection, unless the build comes to a key that is not
text. The same goes for the certificate, the chain, the archive and the key by themselves. -/
theorem build_rejects (files : Files) :
    (∀ path, files.IsReadable path →
      Rejects (files.readCertificate path) ∧ Rejects (files.readChain path) ∧
      Rejects (Signer.ofArchive files path) ∧
      (files.IsText path → Rejects (files.readKey path)) ∧
      (¬files.IsText path → files.readKey path = .error (.io .notUtf8))) ∧
    ∀ source : Source, (∀ path ∈ source.paths, files.IsReadable path) →
      (¬source.MeetsGarbledKey files → Rejects (source.build files)) ∧
      (source.MeetsGarbledKey files → source.build files = .error (.io .notUtf8)) := by
  constructor
  · intro path readable
    exact ⟨Files.rejects_readCertificate readable, Files.rejects_readChain readable,
      Signer.rejects_ofArchive readable, Files.rejects_readKey, Files.readKey_eq_error readable⟩
  · intro source readable
    exact ⟨rejects_build readable, build_eq_error readable⟩

/-- A file that holds no archive is refused for good. -/
theorem build_rejects_truncated :
    ∃ failure, (archive "archive").build ⟨[(["archive"], .file [0x30])]⟩ = .error failure ∧
      failure.IsRejection ∧ failure.isRetryable = false := by
  let files : Files := ⟨[(["archive"], .file [0x30])]⟩
  have readable : ∀ path ∈ (archive "archive").paths, files.IsReadable path := by
    intro path member
    obtain rfl := List.mem_singleton.mp member
    exact ⟨[0x30], rfl⟩
  have failed : (archive "archive").build files = .error (.malformedArchive .parsing) := rfl
  exact ⟨_, failed, ((build_rejects files).2 _ readable).1 id _ failed⟩

/-- An octet that begins no character makes a key file seem unreadable and worth another try, by
itself and beside a sound certificate. -/
theorem build_garbled :
    let files : Files := ⟨[
      (["certificate"], .file (Pem.Document.write Certificate.label [0x0a] Archive.smallCertificate)),
      (["key"], .file [0xff])]⟩
    let source := pem "certificate" "key" none
    (∀ path ∈ source.paths, files.IsReadable path) ∧ ∃ failure,
      files.readKey "key" = .error failure ∧ source.build files = .error failure ∧
        ¬failure.IsRejection ∧ failure.isRetryable = true := by
  intro files source
  have readable : ∀ path ∈ source.paths, files.IsReadable path := by
    simp only [source, paths, Option.toList_none, List.forall_mem_cons]
    exact ⟨⟨_, rfl⟩, ⟨[0xff], rfl⟩, List.forall_mem_nil _⟩
  have sound : (files.readCertificate "certificate").toOption.isSome = true := by decide +kernel
  have refused : files.readKey "key" = .error (.io .notUtf8) := rfl
  have garbled : ¬files.IsText "key" := by
    rintro ⟨text, read⟩
    cases read
  have built : source.build files = .error (.io .notUtf8) :=
    build_eq_error readable ⟨exists_eq_ok sound, garbled⟩
  exact ⟨readable, _, refused, built, by decide, rfl⟩

end Source
end CredentialSigning
