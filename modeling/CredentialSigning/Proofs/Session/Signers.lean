import CredentialSigning.Proofs.Archive.Integrity
import CredentialSigning.Session

/-! What a run of a session does to its signers and public keys. A signer stays as it was built until
it is dropped or a later build takes its name, and signs as if it had just been built; a build that
fails leaves no trace; a public key that was taken stays what it is. -/

namespace CredentialSigning

namespace Step

/-- The name under which a step builds a signer. -/
def built? : Step → Option String
  | buildPem _ _ _ _ name => some name
  | buildArchive _ name => some name
  | buildConfigured _ name => some name
  | _ => none

def dropped? : Step → Option String
  | drop signer => some signer
  | _ => none

end Step

namespace Session

/-- The session that a run leaves behind. -/
def after (session : Session) (steps : List Step) : Session :=
  ((session.run steps).getLast?.map Outcome.session).getD session

@[simp] theorem after_nil (session : Session) : session.after [] = session := rfl

@[simp] theorem after_cons (session : Session) (step : Step) (steps : List Step) :
    session.after (step :: steps) = (session.step step).session.after steps := by
  simp only [after, run, List.getLast?_cons, Option.map_some, Option.getD_some]
  cases ((session.step step).session.run steps).getLast? <;> rfl

/-- A step lets go of the signer with a name: it drops it, or it builds another one in its place. -/
def releases (session : Session) (name : String) (step : Step) : Bool :=
  step.dropped? = some name ||
    step.built? = some name && (session.step step).answer.toOption.isSome

/-- No step of a run lets go of the signer with a name. -/
def retains (session : Session) (name : String) : List Step → Bool
  | [] => true
  | step :: steps => !session.releases name step && retains (session.step step).session name steps

/-- The session with nothing but files and a generator, after one step. -/
def fresh (files : Files) (generator : Generator) (step : Step) : Session :=
  ((⟨files, generator, [], [], []⟩ : Session).step step).session

theorem store_cases (session : Session) (name : String)
    (built : Except Failure (Signer × List Event)) :
    (∃ error, session.store name built = .failed session error) ∨
    ∃ signer events, session.store name built =
      ⟨{ session with signers := session.signers.set name signer }, .ok (.built signer), events⟩ := by
  cases built with
  | error failure => exact .inl ⟨_, rfl⟩
  | ok made => exact .inr ⟨made.1, made.2, rfl⟩

/-- A build fails without a trace, or it stores the signer that it answers with. -/
theorem step_build (session : Session) {step : Step} {name : String}
    (building : step.built? = some name) :
    (∃ error, session.step step = .failed session error) ∨
    ∃ signer events, session.step step =
      ⟨{ session with signers := session.signers.set name signer }, .ok (.built signer), events⟩ := by
  cases step with
  | buildPem certificate key chain form target =>
    cases building
    exact store_cases session name _
  | buildArchive path target =>
    cases building
    exact store_cases session name _
  | buildConfigured configuration target =>
    cases building
    simp only [Session.step]
    split
    · exact .inl ⟨_, rfl⟩
    · exact store_cases session name _
  | _ => cases building

/-- A signature changes nothing but the generator and the signatures. -/
theorem sign_cases (session : Session) (signer : Signer) (hash : HashName) (data : Bytes)
    (seed : Option Bytes) (name : String) :
    (session.sign signer hash data seed name).session.signers = session.signers ∧
      (session.sign signer hash data seed name).session.keys = session.keys := by
  rcases signed : signer.sign data hash ((seed.map .start).getD session.generator) with
    ⟨result, generator⟩
  simp only [sign, signed]
  cases result <;> cases seed <;> exact ⟨rfl, rfl⟩

/-- What a step may do to signers and public keys. -/
inductive Effect (session : Session) (step : Step) : Outcome → Prop
  | same {outcome : Outcome} (signers : outcome.session.signers = session.signers)
      (keys : outcome.session.keys = session.keys) : Effect session step outcome
  | built {name : String} {signer : Signer} {events : List Event}
      (building : step.built? = some name) : Effect session step
        ⟨{ session with signers := session.signers.set name signer }, .ok (.built signer), events⟩
  | dropped {name : String} {outcome : Outcome} (dropping : step.dropped? = some name)
      (signers : outcome.session.signers = session.signers.erase name)
      (keys : outcome.session.keys = session.keys) : Effect session step outcome
  | keyed {name stored : String} {signer : Signer} {outcome : Outcome}
      (asking : step = .publicKey name stored)
      (signers : outcome.session.signers = session.signers)
      (keys : outcome.session.keys = session.keys.set stored signer.publicKey) :
      Effect session step outcome

theorem effect_step (session : Session) (step : Step) :
    session.Effect step (session.step step) := by
  cases building : step.built? with
  | some name =>
    rcases step_build session building with ⟨error, failed⟩ | ⟨signer, events, built⟩
    · rw [failed]
      exact .same rfl rfl
    · rw [built]
      exact .built building
  | none =>
    cases step with
    | buildPem => cases building
    | buildArchive => cases building
    | buildConfigured => cases building
    | sign name hash data seed stored =>
      simp only [Session.step, withSigner]
      split
      · exact .same rfl rfl
      · rename_i signer _
        obtain ⟨signers, keys⟩ := sign_cases session signer hash data seed stored
        exact .same signers keys
    | publicKey name stored =>
      simp only [Session.step, withSigner]
      split
      · exact .same rfl rfl
      · exact .keyed rfl rfl rfl
    | drop name => exact .dropped rfl rfl rfl
    | sameKey left right =>
      simp only [Session.step]
      split <;> exact .same rfl rfl
    | verify hash data signature flipped verifier => exact .same rfl rfl
    | write path entry => exact .same rfl rfl
    | remove path => exact .same rfl rfl
    | _ name =>
      simp only [Session.step, withSigner]
      split <;> exact .same rfl rfl

/-- A step that does not let go of a signer keeps it. -/
theorem get?_step {session : Session} {name : String} {step : Step}
    (keeps : session.releases name step = false) :
    (session.step step).session.signers.get? name = session.signers.get? name := by
  simp only [releases, Bool.or_eq_false_iff, decide_eq_false_iff_not] at keeps
  obtain ⟨undropped, unbuilt⟩ := keeps
  have effect := effect_step session step
  generalize outcome_eq : session.step step = outcome at effect unbuilt
  cases effect with
  | same signers keys => rw [signers]
  | @built other signer events building =>
    have different : name ≠ other := by
      rintro rfl
      simp [building, Except.toOption] at unbuilt
    exact Named.get?_set_of_ne _ _ different
  | @dropped other _ dropping signers keys =>
    have different : name ≠ other := by
      rintro rfl
      exact undropped dropping
    rw [signers, Named.get?_erase_of_ne _ different]
  | keyed asking signers keys => rw [signers]

/-- So does a run of such steps. -/
theorem get?_after {session : Session} {name : String} {steps : List Step}
    (keeps : session.retains name steps = true) :
    (session.after steps).signers.get? name = session.signers.get? name := by
  induction steps generalizing session with
  | nil => rfl
  | cons step steps hypothesis =>
    simp only [retains, Bool.and_eq_true, Bool.not_eq_true'] at keeps
    rw [after_cons, hypothesis keeps.2, get?_step keeps.1]

/-- A public key changes only when another one is stored under its name. -/
theorem keys_step (session : Session) {step : Step} {stored : String}
    (other : ∀ name, step ≠ .publicKey name stored) :
    (session.step step).session.keys.get? stored = session.keys.get? stored := by
  have effect := effect_step session step
  generalize session.step step = outcome at effect
  cases effect with
  | same signers keys => rw [keys]
  | built building => rfl
  | dropped dropping signers keys => rw [keys]
  | @keyed name place _ _ asking signers keys =>
    have different : stored ≠ place := by
      rintro rfl
      exact other name asking
    rw [keys, Named.get?_set_of_ne _ _ different]

theorem keys_after {session : Session} {steps : List Step} {stored : String}
    (other : ∀ name, .publicKey name stored ∉ steps) :
    (session.after steps).keys.get? stored = session.keys.get? stored := by
  induction steps generalizing session with
  | nil => rfl
  | cons step steps hypothesis =>
    have first : ∀ name, step ≠ .publicKey name stored := by
      rintro name rfl
      exact other name List.mem_cons_self
    have later : ∀ name, Step.publicKey name stored ∉ steps :=
      fun name member => other name (List.mem_cons_of_mem step member)
    rw [after_cons, hypothesis later, keys_step session first]

theorem answer_store (session other : Session) (name : String)
    (built : Except Failure (Signer × List Event)) :
    (session.store name built).answer = (other.store name built).answer := by
  cases built <;> rfl

/-- What a build answers depends on the files only. -/
theorem answer_build {session other : Session} (same : session.files = other.files) {step : Step}
    {name : String} (building : step.built? = some name) :
    (session.step step).answer = (other.step step).answer := by
  cases step with
  | buildPem certificate key chain form target =>
    simp only [Session.step, same]
    exact answer_store session other target _
  | buildArchive path target =>
    simp only [Session.step, same]
    exact answer_store session other target _
  | buildConfigured configuration target =>
    simp only [Session.step, same]
    split
    · rfl
    · exact answer_store session other target _
  | _ => cases building

/-- A build that succeeds changes the signer with its name, and nothing else. -/
theorem session_of_built {session : Session} {step : Step} {name : String} {signer : Signer}
    (building : step.built? = some name) (built : (session.step step).answer = .ok (.built signer)) :
    (session.step step).session = { session with signers := session.signers.set name signer } := by
  rcases step_build session building with ⟨error, failed⟩ | ⟨made, events, outcome⟩
  · rw [failed] at built
    cases built
  · rw [outcome] at built ⊢
    cases built
    rfl

/-- The answer to a request for a signature is that of the signer. -/
theorem answer_sign {session : Session} {name : String} {signer : Signer}
    (present : session.signers.get? name = some signer) (hash : HashName) (data : Bytes)
    (seed : Option Bytes) (stored : String) :
    (session.step (.sign name hash data seed stored)).answer =
      ((signer.sign data hash ((seed.map .start).getD session.generator)).1.map
        Reply.signature).mapError .failure := by
  rcases signed : signer.sign data hash ((seed.map .start).getD session.generator) with
    ⟨result, generator⟩
  simp only [Session.step, withSigner, present, sign, signed]
  cases result <;> rfl

/-- What a session shows of a signer. -/
structure Presents (session : Session) (name : String) (signer : Signer) : Prop where
  certificate : (session.step (.certificate name)).answer = .ok (.certificate signer.certificate)
  chain : (session.step (.chain name)).answer = .ok (.chain signer.chain)
  scheme : (session.step (.scheme name)).answer = .ok (.scheme signer.scheme)
  publicKey : ∀ stored,
    (session.step (.publicKey name stored)).answer = .ok (.publicKey signer.publicKey)
  verifier : session.verifierKey (.signer name) = .ok signer.publicKey

theorem presents_of_get? {session : Session} {name : String} {signer : Signer}
    (present : session.signers.get? name = some signer) : session.Presents name signer := by
  constructor
  · simp only [Session.step, withSigner, present, Outcome.replied]
  · simp only [Session.step, withSigner, present, Outcome.replied]
  · simp only [Session.step, withSigner, present, Outcome.replied]
  · intro stored
    simp only [Session.step, withSigner, present, Outcome.replied]
  · simp only [verifierKey, present]

/-- A public key is there once it is taken. -/
theorem get?_of_taken {session : Session} {name stored : String} {key : PublicKey}
    (taken : (session.step (.publicKey name stored)).answer = .ok (.publicKey key)) :
    (session.step (.publicKey name stored)).session.keys.get? stored = some key := by
  cases present : session.signers.get? name with
  | none =>
    simp only [Session.step, withSigner, present] at taken
    cases taken
  | some signer =>
    simp only [Session.step, withSigner, present] at taken ⊢
    cases taken
    exact Named.get?_set_self _ _ _

/-- After a build that succeeds, and any steps that do not let go of the signer, the session shows
the signer as it was built, and a signature is what it would be if nothing but the build had come
before. A build that fails leaves the session as it was, without an event. A public key that was
taken stays, whatever becomes of its signer, until another one is stored under its name. -/
theorem run_keeps_signers (session : Session) :
    (∀ before build between name signer, build.built? = some name →
      ((session.after before).step build).answer = .ok (.built signer) →
      ((session.after before).step build).session.retains name between = true →
      let later := ((session.after before).step build).session.after between
      later.Presents name signer ∧ ∀ hash data seed stored,
        (later.step (.sign name hash data seed stored)).answer =
          ((fresh (session.after before).files later.generator build).step
            (.sign name hash data seed stored)).answer) ∧
    (∀ before build name error, build.built? = some name →
      ((session.after before).step build).answer = .error error →
      ((session.after before).step build).session = session.after before ∧
        ((session.after before).step build).events = []) ∧
    (∀ before name stored key between,
      ((session.after before).step (.publicKey name stored)).answer = .ok (.publicKey key) →
      (∀ other, .publicKey other stored ∉ between) →
      let later := ((session.after before).step (.publicKey name stored)).session.after between
      later.verifierKey (.key stored) = .ok key) := by
  refine ⟨?_, ?_, ?_⟩
  · intro before build between name signer building built keeps later
    have present : later.signers.get? name = some signer := by
      rw [get?_after keeps, session_of_built building built, Named.get?_set_self]
    let empty : Session := ⟨(session.after before).files, later.generator, [], [], []⟩
    have sameFiles : empty.files = (session.after before).files := rfl
    have again : (empty.step build).answer = .ok (.built signer) :=
      (answer_build sameFiles building).trans built
    have renewed : fresh (session.after before).files later.generator build =
        { empty with signers := empty.signers.set name signer } := session_of_built building again
    have presentAgain : (fresh (session.after before).files later.generator build).signers.get? name =
        some signer := by
      rw [renewed, Named.get?_set_self]
    refine ⟨presents_of_get? present, ?_⟩
    intro hash data seed stored
    rw [answer_sign present, answer_sign presentAgain, renewed]
  · intro before build name error building failed
    rcases step_build (session.after before) building with ⟨cause, outcome⟩ | ⟨signer, events, outcome⟩
    · rw [outcome]
      exact ⟨rfl, rfl⟩
    · rw [outcome] at failed
      cases failed
  · intro before name stored key between taken other later
    have kept : later.keys.get? stored = some key := by
      rw [keys_after other]
      exact get?_of_taken taken
    simp only [verifierKey, kept]

/-- The signer of the small key outlives its files and a build in its name that fails, and its public
key outlives it. -/
theorem run_keeps_signers_small :
    let files : Files := ⟨[
      (["certificate"], .file (Pem.Document.write Certificate.label [0x0a] Archive.smallCertificate)),
      (["key"], .file (Pem.Document.write (Text.ascii "PRIVATE KEY") [0x0a] Archive.smallKey))]⟩
    let session := start files []
    let build := Step.buildPem "certificate" "key" none .announced "signer"
    let between := [.write "key" (.file [0xff]), .remove "certificate", build,
      .sign "signer" .sha256 [] none "signature", .close "signer", .buildArchive "key" "other",
      .drop "other"]
    let later := (session.step build).session.after between
    let taken := later.step (.publicKey "signer" "key")
    ∃ signer error,
      later.Presents "signer" signer ∧ (later.step build).answer = .error error ∧
      (later.step build).events = [] ∧
      (taken.session.after [.drop "signer"]).verifierKey (.key "key") = .ok signer.publicKey := by
  intro files session build between later taken
  have succeeds : (Signer.ofPem files "certificate" "key" none).toOption.isSome = true := by
    decide +kernel
  obtain ⟨signer, made⟩ := exists_eq_ok succeeds
  have built : ((session.after []).step build).answer = .ok (.built signer) := by
    simp only [after_nil, build, session, start, step, buildPem, made]
    rfl
  have keeps : ((session.after []).step build).session.retains "signer" between = true := by
    decide +kernel
  have presents : later.Presents "signer" signer :=
    ((run_keeps_signers session).1 [] build between "signer" signer rfl built keeps).1
  have refused : (later.step build).answer.toOption.isNone = true := by decide +kernel
  obtain ⟨error, failed⟩ : ∃ error, (later.step build).answer = .error error := by
    rcases answer : (later.step build).answer with error | reply
    · exact ⟨error, rfl⟩
    · rw [answer] at refused
      cases refused
  have ran : session.after (build :: between) = later := after_cons session build between
  have silent := (run_keeps_signers session).2.1 (build :: between) build "signer" error rfl
  have kept := (run_keeps_signers session).2.2 (build :: between) "signer" "key" signer.publicKey
    [.drop "signer"]
  rw [ran] at silent kept
  refine ⟨signer, error, presents, failed, (silent failed).2, kept (presents.publicKey "key") ?_⟩
  intro other member
  cases List.mem_singleton.mp member

end Session
end CredentialSigning
