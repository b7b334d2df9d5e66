import CredentialSigning.Signer.Source

/-! Sessions: named signers, public keys and signatures over one working directory and one random
generator. A step answers with a reply or an error, and the session goes on either way. -/

namespace CredentialSigning

/-- How a signer is built from PEM files: with an event or silently, or with the key handed over in
its envelope. -/
inductive BuildForm
  | announced
  | silent
  | envelope
  deriving DecidableEq, Repr

inductive Verifier
  | signer (name : String)
  | key (name : String)
  deriving DecidableEq, Repr

inductive SignatureSource
  | stored (name : String)
  | octets (octets : Bytes)
  deriving DecidableEq, Repr

inductive Step
  | buildPem (certificate key : String) (chain : Option String) (form : BuildForm) (name : String)
  | buildArchive (path name : String)
  | buildConfigured (configuration name : String)
  | sign (signer : String) (hash : HashName) (data : Bytes) (seed : Option Bytes) (name : String)
  | verify (hash : HashName) (data : Bytes) (signature : SignatureSource) (flipped : Option Nat)
      (verifier : Verifier)
  | publicKey (signer name : String)
  | sameKey (left right : String)
  | scheme (signer : String)
  | certificate (signer : String)
  | chain (signer : String)
  | close (signer : String)
  | drop (signer : String)
  | write (path : String) (entry : Entry)
  | remove (path : String)

inductive Reply
  | built (signer : Signer)
  | signature (octets : Bytes)
  | verified
  | publicKey (key : PublicKey)
  | same (equal : Bool)
  | scheme (scheme : Scheme)
  | certificate (certificate : Certificate)
  | chain (certificates : List Certificate)
  | closed
  | dropped (existed : Bool)
  | done

inductive StepError
  | failure (failure : Failure)
  | configuration
  | noSuchSigner
  | noSuchKey
  | noSuchSignature
  deriving DecidableEq

/-- Values by name. A name is bound once. -/
abbrev Named (α : Type) := List (String × α)

namespace Named

def get? {α : Type} (named : Named α) (name : String) : Option α :=
  (named.find? (·.1 = name)).map (·.2)

def erase {α : Type} (named : Named α) (name : String) : Named α :=
  named.filter (·.1 ≠ name)

def set {α : Type} (named : Named α) (name : String) (value : α) : Named α :=
  (name, value) :: named.erase name

@[simp] theorem get?_set_self {α : Type} (named : Named α) (name : String) (value : α) :
    (named.set name value).get? name = some value := by
  simp [get?, set]

theorem get?_erase_of_ne {α : Type} (named : Named α) {name other : String}
    (different : other ≠ name) : (named.erase name).get? other = named.get? other := by
  induction named with
  | nil => rfl
  | cons entry named hypothesis =>
    simp only [erase, get?, List.filter_cons, List.find?_cons] at hypothesis ⊢
    by_cases same : entry.1 = other
    · have kept : entry.1 ≠ name := by rw [same]; exact different
      simp [same, different]
    · by_cases erased : entry.1 = name
      · simpa [same, erased, Ne.symm different] using hypothesis
      · simpa [same, erased] using hypothesis

theorem get?_set_of_ne {α : Type} (named : Named α) {name other : String} (value : α)
    (different : other ≠ name) : (named.set name value).get? other = named.get? other := by
  rw [← get?_erase_of_ne named different]
  simp [get?, set, Ne.symm different]

end Named

structure Session where
  files : Files
  generator : Generator
  signers : Named Signer
  keys : Named PublicKey
  signatures : Named Bytes

namespace Session

def start (files : Files) (seed : Bytes) : Session :=
  ⟨files, .start seed, [], [], []⟩

/-- What a step leaves behind: the session after it, the answer and the events. -/
structure Outcome where
  session : Session
  answer : Except StepError Reply
  events : List Event

/-- An octet string with one bit inverted; bit 0 is the highest of the first octet. -/
def flipBit (octets : Bytes) (bit : Nat) : Bytes :=
  octets.modify (bit / 8) (· ^^^ (0x80 >>> UInt8.ofNat (bit % 8)))

namespace Outcome

def failed (session : Session) (error : StepError) : Outcome :=
  ⟨session, .error error, []⟩

def replied (session : Session) (reply : Reply) : Outcome :=
  ⟨session, .ok reply, []⟩

end Outcome

/-- Stores a signer that was built, and reports the events that belong to it. A failed build changes
nothing. -/
def store (session : Session) (name : String) (built : Except Failure (Signer × List Event)) :
    Outcome :=
  match built with
  | .error failure => .failed session (.failure failure)
  | .ok (signer, events) =>
    ⟨{ session with signers := session.signers.set name signer }, .ok (.built signer), events⟩

/-- A signer from PEM files in one of the three forms. -/
def buildPem (files : Files) (certificate key : String) (chain : Option String) :
    BuildForm → Except Failure (Signer × List Event)
  | .announced => (Signer.ofPem files certificate key chain).map fun signer =>
    (signer, [.built signer.scheme signer.chain.length])
  | .silent => (Signer.ofPem files certificate key chain).map fun signer => (signer, [])
  | .envelope => (Signer.ofPemEnvelope files certificate key chain).map fun signer =>
    (signer, [.built signer.scheme signer.chain.length])

def withSigner (session : Session) (name : String) (answer : Signer → Outcome) : Outcome :=
  match session.signers.get? name with
  | none => .failed session .noSuchSigner
  | some signer => answer signer

def verifierKey (session : Session) : Verifier → Except StepError PublicKey
  | .signer name =>
    match session.signers.get? name with
    | none => .error .noSuchSigner
    | some signer => .ok signer.publicKey
  | .key name =>
    match session.keys.get? name with
    | none => .error .noSuchKey
    | some key => .ok key

def signatureOctets (session : Session) : SignatureSource → Except StepError Bytes
  | .octets octets => .ok octets
  | .stored name =>
    match session.signatures.get? name with
    | none => .error .noSuchSignature
    | some octets => .ok octets

def verify (session : Session) (hash : HashName) (data : Bytes) (signature : SignatureSource)
    (flipped : Option Nat) (verifier : Verifier) : Except StepError Reply := do
  let octets ← session.signatureOctets signature
  let octets := match flipped with
    | none => octets
    | some bit => flipBit octets bit
  let key ← session.verifierKey verifier
  (key.verify data hash octets).mapError .failure
  .ok .verified

/-- Signs with a generator of its own if a seed is given, else with the generator of the session,
which goes on from there. -/
def sign (session : Session) (signer : Signer) (hash : HashName) (data : Bytes)
    (seed : Option Bytes) (name : String) : Outcome :=
  let (result, generator) := signer.sign data hash ((seed.map .start).getD session.generator)
  let session := if seed.isSome then session else { session with generator }
  match result with
  | .error failure => .failed session (.failure failure)
  | .ok octets =>
    .replied { session with signatures := session.signatures.set name octets } (.signature octets)

def step (session : Session) : Step → Outcome
  | .buildPem certificate key chain form name =>
    session.store name (buildPem session.files certificate key chain form)
  | .buildArchive path name =>
    session.store name (((Source.archive path).build session.files).map fun (signer, event) =>
      (signer, [event]))
  | .buildConfigured configuration name =>
    match Source.read? configuration with
    | none => .failed session .configuration
    | some source =>
      session.store name ((source.build session.files).map fun (signer, event) => (signer, [event]))
  | .sign signer hash data seed name =>
    session.withSigner signer fun signer => session.sign signer hash data seed name
  | .verify hash data signature flipped verifier =>
    ⟨session, session.verify hash data signature flipped verifier, []⟩
  | .publicKey signer name =>
    session.withSigner signer fun signer =>
      .replied { session with keys := session.keys.set name signer.publicKey }
        (.publicKey signer.publicKey)
  | .sameKey left right =>
    match session.keys.get? left, session.keys.get? right with
    | some left, some right => .replied session (.same (left = right))
    | _, _ => .failed session .noSuchKey
  | .scheme signer => session.withSigner signer fun signer =>
    .replied session (.scheme signer.scheme)
  | .certificate signer => session.withSigner signer fun signer =>
    .replied session (.certificate signer.certificate)
  | .chain signer => session.withSigner signer fun signer =>
    .replied session (.chain signer.chain)
  | .close signer => session.withSigner signer fun _ => ⟨session, .ok .closed, [.closing]⟩
  | .drop signer =>
    .replied { session with signers := session.signers.erase signer }
      (.dropped (session.signers.get? signer).isSome)
  | .write path entry => .replied { session with files := session.files.write path entry } .done
  | .remove path => .replied { session with files := session.files.remove path } .done

def run (session : Session) : List Step → List Outcome
  | [] => []
  | step :: steps =>
    let outcome := session.step step
    outcome :: outcome.session.run steps

end Session
end CredentialSigning
