import CredentialSigning.Proofs.Curve.Primes
import CredentialSigning.Proofs.Generator
import CredentialSigning.Proofs.Rsa.Padding
import CredentialSigning.Proofs.Rsa.Power
import CredentialSigning.Proofs.Signing

/-! RSA signatures. For every key, also one the factors of which are no primes, only what verifies is
given out. For a key with two different prime factors there is a signature of every digest that fits,
from every generator that yields a blinding, and no other octets verify. -/

namespace CredentialSigning

namespace Rsa

theorem accepts_iff {key : PublicKey} {hash : HashName} {digest signature padded : Bytes}
    (padding : padded? key.size hash digest = some padded) :
    accepts key hash digest signature = true ↔
      signature.length = key.size ∧ signature.toNat < key.modulus ∧
        Residue.power key.modulus signature.toNat key.exponent = padded.toNat := by
  simp [accepts, padding, and_assoc]

theorem accepts_ofNat_iff {key : PublicKey} {hash : HashName} {digest padded : Bytes}
    (padding : padded? key.size hash digest = some padded) {value : Nat}
    (below : value < key.modulus) :
    accepts key hash digest (Bytes.ofNat key.size value) = true ↔
      Residue.power key.modulus value key.exponent = padded.toNat := by
  have number : Bytes.toNat (Bytes.ofNat key.size value) = value :=
    Bytes.toNat_ofNat _ _ (below.trans key.modulus_lt)
  rw [accepts_iff padding, Bytes.length_ofNat, number]
  exact ⟨fun accepted => accepted.2.2, fun recovered => ⟨rfl, below, recovered⟩⟩

theorem PrivateKey.toNat_padded?_lt (key : PrivateKey) {hash : HashName} {digest padded : Bytes}
    (padding : padded? key.publicKey.size hash digest = some padded) :
    padded.toNat < key.modulus :=
  (Rsa.toNat_padded?_lt padding).trans_le (key.publicKey.le_modulus key.modulus_pos)

namespace Blinding

/-- Some block of the generator yields a blinding. On one without any the search has no end. -/
def Occurs (modulus : Nat) (generator : Generator) : Prop :=
  ∃ index, (ofOctets? modulus (generator.block (width modulus) index)).isSome

theorem isSome_draw?_iff {modulus : Nat} (generator : Generator) :
    (draw? modulus generator).1.isSome ↔ Occurs modulus generator := by
  have wide : 0 < width modulus := by
    simp only [width, Residue.bitLength]
    omega
  rw [draw?, Occurs, Generator.firstOf?_isSome_iff wide]

end Blinding

/-- What the public exponent recovers from the power that is taken with a generator's blinding, if it
yields one. -/
def PrivateKey.recovered (key : PrivateKey) (generator : Generator) (base : Nat) : Option Nat :=
  (Blinding.draw? key.modulus generator).1.map fun blinding =>
    Residue.power key.modulus (key.blindedPower blinding base) key.exponent

theorem sign?_of_padded {key : PrivateKey} {hash : HashName} {digest padded : Bytes}
    (padding : padded? key.publicKey.size hash digest = some padded) (generator : Generator) :
    (sign? key hash digest generator).1 =
      (Blinding.draw? key.modulus generator).1.bind (signWith? key padded) := by
  unfold sign?
  -- the search is not to be run by a comparison of the two sides
  generalize Blinding.draw? key.modulus generator = drawn
  obtain ⟨blinding, rest⟩ := drawn
  rw [padding]

theorem signWith?_eq_none_iff {key : PrivateKey} {padded : Bytes} {blinding : Blinding key.modulus} :
    signWith? key padded blinding = none ↔
      Residue.power key.modulus (key.blindedPower blinding padded.toNat) key.exponent ≠
        padded.toNat := by
  simp only [signWith?, ite_eq_right_iff, reduceCtorEq, imp_false, ne_eq]

/-- There is no signature exactly if the modulus is too short for the digest, or if the padded digest
is not recovered. -/
theorem sign?_eq_none_iff {key : PrivateKey} {hash : HashName} {digest : Bytes} {least : Nat}
    (fitting : (padded? key.publicKey.size hash digest).isSome ↔ least ≤ key.publicKey.size)
    (generator : Generator) :
    (sign? key hash digest generator).1 = none ↔
      key.publicKey.size < least ∨
      ∃ padded, padded? key.publicKey.size hash digest = some padded ∧
        key.recovered generator padded.toNat ≠ some padded.toNat := by
  cases padding : padded? key.publicKey.size hash digest with
  | none =>
    have short : key.publicKey.size < least := by
      rw [padding] at fitting
      exact Nat.lt_of_not_le fun large => absurd (fitting.mpr large) (by decide)
    simp [sign?, padding, short]
  | some padded =>
    have large : least ≤ key.publicKey.size := by
      rw [padding] at fitting
      exact fitting.mp rfl
    simp only [sign?_of_padded padding, PrivateKey.recovered]
    cases (Blinding.draw? key.modulus generator).1 with
    | none => simp
    | some blinding => simp [signWith?_eq_none_iff, Nat.not_lt.mpr large]

theorem accepts_of_sign? {key : PrivateKey} {hash : HashName} {digest signature : Bytes}
    {generator : Generator} (signed : (sign? key hash digest generator).1 = some signature) :
    signature.length = key.publicKey.size ∧ accepts key.publicKey hash digest signature = true := by
  cases padding : padded? key.publicKey.size hash digest with
  | none => simp [sign?, padding] at signed
  | some padded =>
    rw [sign?_of_padded padding] at signed
    obtain ⟨blinding, -, made⟩ := Option.bind_eq_some_iff.mp signed
    simp only [signWith?] at made
    split at made
    · rename_i recovered
      cases made
      have below := key.blindedPower_lt blinding padded.toNat
      exact ⟨Bytes.length_ofNat _ _, (accepts_ofNat_iff padding below).mpr recovered⟩
    · cases made

section Prime

variable {key : PrivateKey} (primeP : key.p.Prime) (primeQ : key.q.Prime) (different : key.p ≠ key.q)
  {hash : HashName} {digest padded : Bytes}
  (padding : padded? key.publicKey.size hash digest = some padded)
include primeP primeQ different padding

/-- The power by the secret exponent is the signature, with whatever blinding it is taken. -/
theorem signWith?_of_primes (blinding : Blinding key.modulus) :
    signWith? key padded blinding =
      some (Bytes.ofNat key.publicKey.size (key.secretPower padded.toNat)) := by
  have recovered := PrivateKey.power_secretPower primeP primeQ different (key.toNat_padded?_lt padding)
  simp only [signWith?, PrivateKey.blindedPower_eq primeP primeQ different, if_pos recovered]

/-- Nothing but the search for a blinding can prevent the signature. -/
theorem sign?_of_primes (generator : Generator) :
    (sign? key hash digest generator).1 =
        some (Bytes.ofNat key.publicKey.size (key.secretPower padded.toNat)) ↔
      Blinding.Occurs key.modulus generator := by
  rw [← Blinding.isSome_draw?_iff, sign?_of_padded padding]
  cases (Blinding.draw? key.modulus generator).1 with
  | none => simp
  | some blinding => simp [signWith?_of_primes primeP primeQ different padding]

/-- Nothing else is accepted, since different residues have different powers. -/
theorem accepts_iff_of_primes (octets : Bytes) :
    accepts key.publicKey hash digest octets = true ↔
      octets = Bytes.ofNat key.publicKey.size (key.secretPower padded.toNat) := by
  have recovered := PrivateKey.power_secretPower primeP primeQ different (key.toNat_padded?_lt padding)
  have below := key.secretPower_lt padded.toNat
  constructor
  · intro accepted
    obtain ⟨length, octetsBelow, power⟩ := (accepts_iff padding).mp accepted
    have same : octets.toNat = key.secretPower padded.toNat :=
      PrivateKey.power_injective primeP primeQ different octetsBelow below
        (power.trans recovered.symm)
    rw [← same, ← length, Bytes.ofNat_toNat]
  · rintro rfl
    exact (accepts_ofNat_iff padding below).mpr recovered

end Prime
end Rsa

namespace Signer

section Digest

variable {signer : Signer} {key : Rsa.PrivateKey} (holds : signer.key = .rsa key)
  {data digest : Bytes} {hash : HashName} (computed : hash.digest data = .ok digest)
include holds computed

theorem sign_rsa_eq_ok_iff (generator : Generator) (signature : Bytes) :
    (signer.sign data hash generator).1 = .ok signature ↔
      (Rsa.sign? key hash digest generator).1 = some signature := by
  rw [sign, holds, PrivateKey.sign_rsa key computed]
  cases (Rsa.sign? key hash digest generator).1 with
  | none => simp
  | some made => simp

theorem sign_rsa_eq_error_iff (generator : Generator) :
    (signer.sign data hash generator).1 = .error (.signingFailed (.rsa hash)) ↔
      (Rsa.sign? key hash digest generator).1 = none := by
  rw [sign, holds, PrivateKey.sign_rsa key computed]
  cases (Rsa.sign? key hash digest generator).1 with
  | none => simp
  | some made => simp

theorem verify_rsa_eq_ok_iff (signature : Bytes) :
    signer.publicKey.verify data hash signature = .ok () ↔
      Rsa.accepts key.publicKey hash digest signature = true := by
  rw [publicKey, holds, PublicKey.verify_eq_ok_iff computed]
  rfl

end Digest

/-- A signature that is given out is as long as the modulus and verifies. There is none exactly if
the modulus has too few octets, or if the public exponent does not recover the padded digest, as where
no blinding is found; the digest always has the length that its hash function makes. -/
theorem sign_rsa_verifies_or_fails (signer : Signer) (key : Rsa.PrivateKey) (holds : signer.key = .rsa key)
    (data : Bytes) (hash : HashName) (least : Nat) (listed : (hash, least) ∈ Rsa.leastSizes)
    (generator : Generator) :
    ((∃ signature, (signer.sign data hash generator).1 = .ok signature ∧
        signature.length = key.publicKey.size ∧
        signer.publicKey.verify data hash signature = .ok ()) ∨
      (signer.sign data hash generator).1 = .error (.signingFailed (.rsa hash))) ∧
    (key.publicKey.size < least →
      (signer.sign data hash generator).1 = .error (.signingFailed (.rsa hash))) ∧
    ∃ digest, hash.digest data = .ok digest ∧ digest.length = hash.size ∧
      ((signer.sign data hash generator).1 = .error (.signingFailed (.rsa hash)) ↔
        key.publicKey.size < least ∨
        ∃ padded, Rsa.padded? key.publicKey.size hash digest = some padded ∧
          key.recovered generator padded.toNat ≠ some padded.toNat) := by
  obtain ⟨digest, identifier, computed, length, named, fits⟩ := Rsa.digest_of_listed listed data
  have fitting := Rsa.padded?_isSome_iff key.publicKey.size length named fits
  have failing : (signer.sign data hash generator).1 = .error (.signingFailed (.rsa hash)) ↔ _ :=
    (sign_rsa_eq_error_iff holds computed generator).trans (Rsa.sign?_eq_none_iff fitting generator)
  refine ⟨?_, fun short => failing.mpr (.inl short), digest, computed, length, failing⟩
  cases made : (Rsa.sign? key hash digest generator).1 with
  | none =>
    right
    exact (sign_rsa_eq_error_iff holds computed generator).mpr made
  | some signature =>
    left
    obtain ⟨size, accepted⟩ := Rsa.accepts_of_sign? made
    refine ⟨signature, ?_, size, ?_⟩
    · exact (sign_rsa_eq_ok_iff holds computed generator signature).mpr made
    · exact (verify_rsa_eq_ok_iff holds computed signature).mpr accepted

/-- The second factor is a product of three primes, each of which less one divides it less one. The
modulus is as short as the hash function allows. -/
theorem sign_rsa_composite :
    let key : Rsa.PrivateKey :=
      ⟨0x50ffffffaf0000008a8d6bffc6729400472ee77d835e8482ceb4f7847612eff8b27a7c070b3a7b7d0672940001137c06eff78482bffffffffeec83f90267,
        7,
        0x1d0ac19cedb6db6de888c19cf61f0ac1b690756b6372eb633f5b6aac4425fbafd2a34f9b43d85fe7e7f0a37eed0644d9982439bbb28dfbb28d3626b3ff,
        Curve.p256Domain.prime,
        0x600000000000000016bd * 0xc0000000000000002d79 * 0x120000000000000004435,
        by decide +kernel⟩
    let signer : Signer := ⟨.rsa key, ⟨[], [], [], [], []⟩, []⟩
    let generator := Generator.start []
    ∃ signature, (signer.sign [] .sha256 generator).1 = .ok signature ∧ signature.length = 62 ∧
      signer.publicKey.verify [] .sha256 signature = .ok () := by
  intro key signer generator
  have succeeds : (signer.sign [] .sha256 generator).1 ≠ .error (.signingFailed (.rsa .sha256)) := by
    decide +kernel
  have size : key.publicKey.size = 62 := by decide +kernel
  obtain ⟨signed | failed, -⟩ :=
    sign_rsa_verifies_or_fails signer key rfl [] .sha256 62 (by decide) generator
  · rwa [size] at signed
  · exact absurd failed succeeds

/-- A key with two different prime factors signs whatever fits into the modulus, from every generator
on which the search for a blinding ends. No octets but the signature verify, so it depends on the
public key only, and not on the generator. -/
theorem sign_rsa_unique (signer : Signer) (key : Rsa.PrivateKey) (holds : signer.key = .rsa key)
    (primeP : key.p.Prime) (primeQ : key.q.Prime) (different : key.p ≠ key.q) (data : Bytes)
    (hash : HashName) (least : Nat) (listed : (hash, least) ∈ Rsa.leastSizes)
    (large : least ≤ key.publicKey.size) :
    ∃ signature,
      (∀ generator, (signer.sign data hash generator).1 = .ok signature ↔
        Rsa.Blinding.Occurs key.modulus generator) ∧
      (∀ octets, signer.publicKey.verify data hash octets = .ok () ↔ octets = signature) ∧
      ∀ (other : Signer) (otherKey : Rsa.PrivateKey), other.key = .rsa otherKey →
        otherKey.p.Prime → otherKey.q.Prime → otherKey.p ≠ otherKey.q →
        otherKey.publicKey = key.publicKey →
        ∀ generator, (other.sign data hash generator).1 = .ok signature ↔
          Rsa.Blinding.Occurs key.modulus generator := by
  obtain ⟨digest, identifier, computed, length, named, fits⟩ := Rsa.digest_of_listed listed data
  obtain ⟨padded, padding⟩ :=
    Option.isSome_iff_exists.mp ((Rsa.padded?_isSome_iff _ length named fits).mpr large)
  have unique := Rsa.accepts_iff_of_primes primeP primeQ different padding
  refine ⟨Bytes.ofNat key.publicKey.size (key.secretPower padded.toNat), ?_, ?_, ?_⟩
  · intro generator
    rw [sign_rsa_eq_ok_iff holds computed]
    exact Rsa.sign?_of_primes primeP primeQ different padding generator
  · intro octets
    rw [verify_rsa_eq_ok_iff holds computed]
    exact unique octets
  · intro other otherKey otherHolds otherPrimeP otherPrimeQ otherDifferent same generator
    have modulus : otherKey.modulus = key.modulus := congrArg Rsa.PublicKey.modulus same
    have otherPadding : Rsa.padded? otherKey.publicKey.size hash digest = some padded := by
      rw [same, padding]
    have otherUnique := Rsa.accepts_iff_of_primes otherPrimeP otherPrimeQ otherDifferent otherPadding
    have signature : Bytes.ofNat otherKey.publicKey.size (otherKey.secretPower padded.toNat) =
        Bytes.ofNat key.publicKey.size (key.secretPower padded.toNat) := by
      have accepted := (otherUnique _).mpr rfl
      rw [same] at accepted
      rw [same]
      exact (unique _).mp accepted
    rw [sign_rsa_eq_ok_iff otherHolds computed, ← signature, ← modulus]
    exact Rsa.sign?_of_primes otherPrimeP otherPrimeQ otherDifferent otherPadding generator

/-- Two primes of 256 bits leave room for the digest of 256 bits. -/
theorem sign_rsa_two_primes :
    let key : Rsa.PrivateKey :=
      ⟨Curve.p256Domain.prime * Curve.p256Domain.order, 7,
        0x1e79e79e3cf3cf3d4f3cf3cf00000000167d057658d507505677f259211d1175b5d375388ff689e719fcb77159f7a4543a3654f276b13bc7f6bb620256318967,
        Curve.p256Domain.prime, Curve.p256Domain.order, by decide +kernel⟩
    let signer : Signer := ⟨.rsa key, ⟨[], [], [], [], []⟩, []⟩
    let generator := Generator.start []
    ∃ signature, (signer.sign [] .sha256 generator).1 = .ok signature ∧
      ∀ octets, signer.publicKey.verify [] .sha256 octets = .ok () ↔ octets = signature := by
  intro key signer generator
  have primeP : key.p.Prime := Curve.prime_prime .p256
  have primeQ : key.q.Prime := Curve.prime_order .p256
  have different : key.p ≠ key.q := by decide +kernel
  have large : 62 ≤ key.publicKey.size := by decide +kernel
  obtain ⟨signature, signed, unique, -⟩ :=
    sign_rsa_unique signer key rfl primeP primeQ different [] .sha256 62 (by decide) large
  have occurs : Rsa.Blinding.Occurs key.modulus generator := ⟨0, by decide +kernel⟩
  exact ⟨signature, (signed generator).mpr occurs, unique⟩

end Signer
end CredentialSigning
