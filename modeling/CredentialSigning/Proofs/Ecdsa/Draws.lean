import CredentialSigning.Proofs.Ecdsa.RandomNonce

/-! How much of the random generator a signature takes. On a curve it depends on the curve alone, and
on P-521 on the blocks that come next; neither the key nor the data nor the outcome has a part in it.
So in a sequence of calls every result is that of a single call further along the stream. -/

namespace CredentialSigning

namespace HashName

theorem digest_of_not_computed {hash : HashName} (unlisted : hash ∉ computed) (data : Bytes) :
    hash.digest data = .error (.unsupportedDigest hash) := by
  cases hash with
  | sha1 => rfl
  | sha224 => rfl
  | sha256 => exact absurd (by decide) unlisted
  | sha384 => exact absurd (by decide) unlisted
  | sha512 => exact absurd (by decide) unlisted

theorem thirty_two_le_size {hash : HashName} (listed : hash ∈ computed) : 32 ≤ hash.size := by
  revert listed
  cases hash <;> decide

end HashName

namespace Ecdsa

namespace Nonce

/-- How many octets of a generator the nonce of a signature takes. On P-521 these are whole blocks, up
to the first one below the order. -/
inductive Takes (generator : Generator) : Curve → Nat → Prop
  | p256 : Takes generator .p256 32
  | p384 : Takes generator .p384 48
  | p521 {index : Nat} (first : generator.IsFirstBelow Curve.p521.domain.order 66 index) :
      Takes generator .p521 (66 * (index + 1))

/-- There is a nonce: on P-521 some block is below the order. -/
def Occurs (generator : Generator) (curve : Curve) : Prop :=
  curve = .p521 → ∃ index, (generator.block 66 index).toNat < Curve.p521.domain.order

theorem exists_takes {generator : Generator} {curve : Curve} (occurs : Occurs generator curve) :
    ∃ count, Takes generator curve count := by
  cases curve with
  | p256 => exact ⟨32, .p256⟩
  | p384 => exact ⟨48, .p384⟩
  | p521 =>
    obtain ⟨index, first⟩ := Generator.exists_isFirstBelow (occurs rfl)
    exact ⟨66 * (index + 1), .p521 first⟩

theorem choose?_of_takes {generator : Generator} {curve : Curve} {count : Nat}
    (takes : Takes generator curve count) (scalar : Nat) (hash : Bytes) :
    (choose? curve scalar hash generator).2 = generator.skip count := by
  cases takes with
  | p256 => rfl
  | p384 => rfl
  | p521 first =>
    exact congrArg Prod.snd (Generator.firstBelow?_eq (by decide) first)

end Nonce

/-- A hash of 32 octets fills half the width of every curve, on P-521 with zeros before it. -/
theorem exists_fitted? (curve : Curve) {hash : Bytes} (long : 32 ≤ hash.length) :
    ∃ octets, fitted? curve.domain.width (prehash curve hash) = some octets := by
  have full : curve.domain.width / 2 ≤ (prehash curve hash).length := by
    cases curve with
    | p256 => exact Nat.le_trans (by decide) long
    | p384 => exact Nat.le_trans (by decide) long
    | p521 =>
      have width : Curve.p521.domain.width = 66 := rfl
      simp only [prehash, List.length_append, List.length_replicate]
      omega
  exact ⟨_, if_pos full⟩

end Ecdsa

/-- One call of a signer. -/
structure Request where
  signer : Signer
  data : Bytes
  hash : HashName

namespace Request

def answer (request : Request) (generator : Generator) : Except Failure Bytes × Generator :=
  request.signer.sign request.data request.hash generator

/-- The results of calls that share a generator, and the generator after them. -/
def run : List Request → Generator → List (Except Failure Bytes) × Generator
  | [], generator => ([], generator)
  | request :: requests, generator =>
    let (result, generator) := request.answer generator
    let (results, generator) := run requests generator
    (result :: results, generator)

/-- How many octets of a generator a call takes: none for a hash function that is not computed, and
for a key on a curve those of the nonce. -/
inductive Takes (request : Request) (generator : Generator) : Nat → Prop
  | refused (unlisted : request.hash ∉ HashName.computed) : request.Takes generator 0
  | drawn {key : Ecdsa.Key} {count : Nat} (holds : request.signer.key = .ec key)
      (listed : request.hash ∈ HashName.computed)
      (takes : Ecdsa.Nonce.Takes generator key.curve count) : request.Takes generator count

/-- The call is one of a signer with a key on a curve, and there is a nonce if it comes to that. -/
def Ends (request : Request) (generator : Generator) : Prop :=
  ∃ key, request.signer.key = .ec key ∧
    (request.hash ∈ HashName.computed → Ecdsa.Nonce.Occurs generator key.curve)

/-- What each of some calls takes from where the one before it has left the generator. -/
inductive TakesEach : List Request → Generator → List Nat → Prop
  | nil (generator : Generator) : TakesEach [] generator []
  | cons {request : Request} {requests : List Request} {generator : Generator} {count : Nat}
      {counts : List Nat} (first : request.Takes generator count)
      (later : TakesEach requests (generator.skip count) counts) :
      TakesEach (request :: requests) generator (count :: counts)

end Request

namespace Signer

variable (signer : Signer) (data : Bytes) {hash : HashName} (generator : Generator)

theorem sign_of_not_computed (unlisted : hash ∉ HashName.computed) :
    signer.sign data hash generator = (.error (.unsupportedDigest hash), generator) := by
  rw [sign, PrivateKey.sign, HashName.digest_of_not_computed unlisted]

variable {signer} {generator}

theorem generator_of_takes {key : Ecdsa.Key} {count : Nat} (holds : signer.key = .ec key)
    (listed : hash ∈ HashName.computed) (takes : Ecdsa.Nonce.Takes generator key.curve count) :
    (signer.sign data hash generator).2 = generator.skip count := by
  obtain ⟨digest, made⟩ := HashName.exists_digest listed data
  have long : 32 ≤ digest.length := by
    rw [(HashName.length_of_digest made).1]
    exact HashName.thirty_two_le_size listed
  obtain ⟨octets, fits⟩ := Ecdsa.exists_fitted? key.curve long
  rw [sign, holds, PrivateKey.generator_sign_ec key made]
  simp only [Ecdsa.sign?, fits]
  exact Ecdsa.Nonce.choose?_of_takes takes key.scalar octets

end Signer

namespace Request

/-- A call leaves the generator where what it takes ends. -/
theorem generator_of_takes {request : Request} {generator : Generator} {count : Nat}
    (takes : request.Takes generator count) :
    (request.answer generator).2 = generator.skip count := by
  cases takes with
  | refused unlisted =>
    rw [answer, Signer.sign_of_not_computed _ _ _ unlisted]
    rfl
  | drawn holds listed takes => exact Signer.generator_of_takes _ holds listed takes

theorem exists_takes {request : Request} {generator : Generator} (ends : request.Ends generator) :
    ∃ count, request.Takes generator count := by
  obtain ⟨key, holds, occurs⟩ := ends
  by_cases listed : request.hash ∈ HashName.computed
  · obtain ⟨count, takes⟩ := Ecdsa.Nonce.exists_takes (occurs listed)
    exact ⟨count, .drawn holds listed takes⟩
  · exact ⟨0, .refused listed⟩

theorem run_cons (request : Request) (requests : List Request) (generator : Generator) :
    run (request :: requests) generator =
      ((request.answer generator).1 :: (run requests (request.answer generator).2).1,
        (run requests (request.answer generator).2).2) :=
  rfl

/-- Calls leave the generator where everything they take ends. -/
theorem run_of_takesEach {requests : List Request} {generator : Generator} {counts : List Nat}
    (takes : TakesEach requests generator counts) :
    (run requests generator).2 = generator.skip counts.sum := by
  induction takes with
  | nil generator => rfl
  | cons first later hypothesis =>
    rw [run_cons, generator_of_takes first, hypothesis, Generator.skip_skip, List.sum_cons]

/-- If every call of a sequence ends, where the calls before it have left the generator, there is
something that each of them takes. -/
theorem exists_takesEach {requests : List Request} {generator : Generator}
    (ends : ∀ (index : Nat) (request : Request), requests[index]? = some request →
      request.Ends (run (requests.take index) generator).2) :
    ∃ counts, TakesEach requests generator counts := by
  induction requests generalizing generator with
  | nil => exact ⟨[], .nil generator⟩
  | cons first requests hypothesis =>
    obtain ⟨count, takes⟩ : ∃ count, first.Takes generator count := exists_takes (ends 0 first rfl)
    have later : ∀ (index : Nat) (request : Request), requests[index]? = some request →
        request.Ends (run (requests.take index) (generator.skip count)).2 := by
      intro index request present
      rw [← generator_of_takes takes]
      exact ends (index + 1) request present
    obtain ⟨counts, each⟩ := hypothesis later
    exact ⟨count :: counts, .cons takes each⟩

/-- The result of a call in a sequence is that of the call alone, where the calls before it have left
the generator. -/
theorem getElem?_run (before : List Request) (request : Request) (after : List Request)
    (generator : Generator) :
    (run (before ++ request :: after) generator).1[before.length]? =
      some (request.answer (run before generator).2).1 := by
  induction before generalizing generator with
  | nil => rfl
  | cons first before hypothesis =>
    rw [List.cons_append, run_cons, List.length_cons, List.getElem?_cons_succ, hypothesis, run_cons]

end Request

namespace Signer
open Request

/-- A signature is refused under a hash function that is not computed, and nothing is taken of the
generator. Otherwise 32 octets are taken on P-256 and 48 on P-384, and on P-521 the blocks up to the
first one below the order, whether there is a signature in the end or not. So in a sequence of calls
that share a generator, a result is that of the call alone, further along by what the calls before it
take. -/
theorem sign_takes_exactly :
    (∀ (signer : Signer) (data : Bytes) (hash : HashName) (generator : Generator),
      hash = .sha1 ∨ hash = .sha224 →
      signer.sign data hash generator = (.error (.unsupportedDigest hash), generator)) ∧
    (∀ (signer : Signer) (key : Ecdsa.Key) (data : Bytes) (hash : HashName) (generator : Generator),
      signer.key = .ec key → hash ∈ HashName.computed →
      let left := (signer.sign data hash generator).2
      (key.curve = .p256 → left = generator.skip 32) ∧
      (key.curve = .p384 → left = generator.skip 48) ∧
      (key.curve = .p521 → (∃ index, (generator.block 66 index).toNat < Curve.p521.domain.order) →
        ∃ index, generator.IsFirstBelow Curve.p521.domain.order 66 index ∧
          left = generator.skip (66 * (index + 1)))) ∧
    (∀ (requests : List Request) (generator : Generator),
      (∀ (index : Nat) (request : Request), requests[index]? = some request →
        request.Ends (run (requests.take index) generator).2) →
      ∃ counts, TakesEach requests generator counts) ∧
    (∀ (before : List Request) (request : Request) (after : List Request) (generator : Generator)
      (counts : List Nat), TakesEach before generator counts →
      (run (before ++ request :: after) generator).1[before.length]? =
        some (request.answer (generator.skip counts.sum)).1) := by
  refine ⟨?_, ?_, fun _ _ => exists_takesEach, ?_⟩
  · rintro signer data hash generator (rfl | rfl)
    · exact signer.sign_of_not_computed data generator (by decide)
    · exact signer.sign_of_not_computed data generator (by decide)
  · intro signer key data hash generator holds listed left
    have takes {count : Nat} (taken : Ecdsa.Nonce.Takes generator key.curve count) :
        left = generator.skip count := generator_of_takes data holds listed taken
    refine ⟨?_, ?_, ?_⟩
    · intro onCurve
      exact takes (onCurve ▸ .p256)
    · intro onCurve
      exact takes (onCurve ▸ .p384)
    · intro onCurve contains
      obtain ⟨index, first⟩ := Generator.exists_isFirstBelow contains
      exact ⟨index, first, takes (onCurve ▸ .p521 first)⟩
  · intro before request after generator counts each
    rw [getElem?_run, run_of_takesEach each]

/-- A signature on P-521 that fails takes a block too large and one of zeros, a refusal takes nothing,
and a signature on P-384 takes 48 octets before a last one. -/
theorem sign_takes_exactly_small :
    let p384 : Signer := ⟨.ec ⟨.p384, 1, by decide, by decide⟩, ⟨[], [], [], [], []⟩, []⟩
    let p521 : Signer :=
      ⟨.ec ⟨.p521, 1, by decide, (Curve.prime_order .p521).one_lt⟩, ⟨[], [], [], [], []⟩, []⟩
    let generator := Generator.start (List.replicate 66 0xff ++ List.replicate 66 0)
    let before : List Request := [⟨p521, [], .sha512⟩, ⟨p521, [], .sha1⟩, ⟨p384, [], .sha256⟩]
    p521.sign [] .sha1 generator = (.error (.unsupportedDigest .sha1), generator) ∧
      (p384.sign [] .sha256 generator).2 = generator.skip 48 ∧
      (p521.sign [] .sha512 generator).2 = generator.skip 132 ∧
      (run (before ++ [⟨p521, [1], .sha384⟩]) generator).1[3]? =
        some (p521.sign [1] .sha384 (generator.skip 180)).1 := by
  intro p384 p521 generator before
  have first : generator.IsFirstBelow Curve.p521.domain.order 66 1 := by
    constructor
    · decide +kernel
    · intro other earlier
      obtain rfl : other = 0 := by omega
      decide +kernel
  obtain ⟨refused, drawn, -, sequence⟩ := sign_takes_exactly
  have each : TakesEach before generator [132, 0, 48] :=
    .cons (.drawn rfl (by decide) (.p521 first))
      (.cons (.refused (by decide)) (.cons (.drawn rfl (by decide) .p384) (.nil _)))
  refine ⟨refused p521 [] .sha1 generator (.inl rfl), ?_, ?_,
    sequence before ⟨p521, [1], .sha384⟩ [] generator [132, 0, 48] each⟩
  · exact (drawn p384 _ [] .sha256 generator rfl (by decide)).2.1 rfl
  · obtain ⟨index, found, left⟩ :=
      (drawn p521 _ [] .sha512 generator rfl (by decide)).2.2 rfl ⟨1, first.below⟩
    obtain rfl := found.unique first
    exact left

end Signer
end CredentialSigning
