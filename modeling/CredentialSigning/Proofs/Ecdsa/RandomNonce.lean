import CredentialSigning.Proofs.Ecdsa.Encoding
import CredentialSigning.Proofs.Ecdsa.Signature
import CredentialSigning.Proofs.Generator
import CredentialSigning.Proofs.Signing

/-! Signatures on P-521. Their nonce is the first block of the generator that denotes a number below
the order, whatever the key and the hash are. Signing fails only where this number is degenerate, and
two signatures from one state of the generator give the scalar away. On the other curves the scalar
and the hash are part of what the nonce is made from. -/

namespace CredentialSigning

namespace Ecdsa

namespace Nonce

/-- What the deterministic generator starts from. -/
def seed (curve : Curve) (scalar : Nat) (hash : Bytes) (generator : Generator) : Bytes :=
  Bytes.ofNat curve.domain.width scalar ++ hash ++ (generator.next curve.domain.width).1

/-- The nonce that the deterministic generator leads to from a seed. -/
def ofSeed? (hmac : Bytes → Bytes → Bytes) (curve : Curve) (seed : Bytes) : Option Nat :=
  State.search? hmac curve.domain.order patience (State.seeded hmac curve.domain.width seed)

/-- The nonces on a curve come from a seed that holds the scalar and what is signed for the hash. -/
structure IsSeeded (curve : Curve) (hmac : Bytes → Bytes → Bytes) : Prop where
  chosen : ∀ scalar hash generator, (choose? curve scalar hash generator).1 =
    ofSeed? hmac curve (seed curve scalar hash generator)
  held : ∀ {key other : Key} {hash otherHash octets otherOctets : Bytes} {generator : Generator},
    key.curve = curve → other.curve = curve →
    fitted? curve.domain.width (prehash curve hash) = some octets →
    fitted? curve.domain.width (prehash curve otherHash) = some otherOctets →
    seed curve key.scalar octets generator = seed curve other.scalar otherOctets generator →
    key = other ∧ octets = otherOctets

theorem eq_of_seed_eq {key other : Key} {octets otherOctets : Bytes} {generator : Generator}
    (onCurve : key.curve = other.curve) (lengths : octets.length = otherOctets.length)
    (same : seed key.curve key.scalar octets generator =
      seed key.curve other.scalar otherOctets generator) : key = other ∧ octets = otherOctets := by
  have before := List.append_inj_left' same rfl
  have scalars := List.append_inj_left' before lengths
  refine ⟨?_, List.append_inj_right' before lengths⟩
  obtain ⟨-, -, holds⟩ := width_bounds key.curve
  have below : other.scalar < key.curve.domain.order := onCurve ▸ other.below
  have numbers := congrArg Bytes.toNat scalars
  rw [Bytes.toNat_ofNat _ _ (key.below.trans_le holds),
    Bytes.toNat_ofNat _ _ (below.trans_le holds)] at numbers
  exact Key.eq_iff.mpr ⟨onCurve, numbers⟩

theorem isSeeded_of_chosen {curve : Curve} {hmac : Bytes → Bytes → Bytes}
    (chosen : ∀ scalar hash generator, (choose? curve scalar hash generator).1 =
      ofSeed? hmac curve (seed curve scalar hash generator)) : IsSeeded curve hmac where
  chosen
  held onCurve otherOnCurve fits otherFits same := by
    apply eq_of_seed_eq (onCurve.trans otherOnCurve.symm)
    · rw [length_of_fitted? fits, length_of_fitted? otherFits]
    · rwa [onCurve]

theorem isSeeded_p256 : IsSeeded .p256 Hash.Hmac.sha256 :=
  isSeeded_of_chosen fun _ _ _ => rfl

theorem isSeeded_p384 : IsSeeded .p384 Hash.Hmac.sha384 :=
  isSeeded_of_chosen fun _ _ _ => rfl

end Nonce

/-- Zeros before a hash fill the width and do not change the number. -/
theorem exists_fitted?_p521 {hash : Bytes} (short : hash.length ≤ 66) :
    ∃ octets, fitted? Curve.p521.domain.width (prehash .p521 hash) = some octets ∧
      octets.toNat = hash.toNat := by
  have full : (prehash .p521 hash).length = 66 := by
    simp only [prehash, List.length_append, List.length_replicate]
    change 66 - hash.length + hash.length = 66
    omega
  refine ⟨prehash .p521 hash, ?_, Bytes.toNat_zeros_append _ hash⟩
  rw [fitted?, full]
  change some (List.replicate 0 0 ++ (prehash .p521 hash).take 66) = _
  rw [List.take_of_length_le full.le]
  rfl

section Signing

variable {key : Key} (onP521 : key.curve = .p521) {hash : Bytes} (short : hash.length ≤ 66)
  {generator : Generator}

include onP521 short

/-- Neither the key nor the hash has a part in the choice of the nonce. -/
theorem sign?_p521 (generator : Generator) :
    (sign? key hash generator).1 =
      (generator.firstBelow? Curve.p521.domain.order Curve.p521.domain.width
        generator.period).1.bind (signWith? Curve.p521.domain key.scalar hash.toNat) := by
  obtain ⟨octets, fits, number⟩ := exists_fitted?_p521 short
  simp only [sign?, onP521, fits, number, Nonce.choose?]

theorem sign?_p521_of_first {index : Nat} (first : generator.IsFirstBelow
    Curve.p521.domain.order Curve.p521.domain.width index) :
    (sign? key hash generator).1 = signWith? Curve.p521.domain key.scalar hash.toNat
      (generator.block Curve.p521.domain.width index).toNat := by
  have wide : 0 < Curve.p521.domain.width := by decide
  rw [sign?_p521 onP521 short, Generator.firstBelow?_eq wide first, Option.bind_some]

theorem exists_signs_p521 {signature : Signature}
    (signed : (sign? key hash generator).1 = some signature) :
    ∃ nonce, (generator.firstBelow? Curve.p521.domain.order Curve.p521.domain.width
        generator.period).1 = some nonce ∧
      Signs .p521 key.scalar hash.toNat nonce signature := by
  rw [sign?_p521 onP521 short] at signed
  obtain ⟨nonce, drawn, made⟩ := Option.bind_eq_some_iff.mp signed
  exact ⟨nonce, drawn, signs_of_signWith? made⟩

/-- Two signatures from one state of the generator have their nonce in common. -/
theorem exists_shared_nonce {other : Bytes} (otherShort : other.length ≤ 66)
    {signature otherSignature : Signature} (signed : (sign? key hash generator).1 = some signature)
    (otherSigned : (sign? key other generator).1 = some otherSignature) :
    ∃ nonce, (∀ scalar message, (Nonce.choose? .p521 scalar message generator).1 = some nonce) ∧
      Signs .p521 key.scalar hash.toNat nonce signature ∧
      Signs .p521 key.scalar other.toNat nonce otherSignature := by
  obtain ⟨nonce, drawn, signs⟩ := exists_signs_p521 onP521 short signed
  obtain ⟨otherNonce, otherDrawn, otherSigns⟩ := exists_signs_p521 onP521 otherShort otherSigned
  obtain rfl : nonce = otherNonce := Option.some.inj (drawn.symm.trans otherDrawn)
  exact ⟨nonce, fun _ _ => drawn, signs, otherSigns⟩

end Signing
end Ecdsa

namespace Signer

/-- On P-521 the nonce is the first block below the order, and signing fails only where the nonce or
a part of the pair it leads to is zero. Only the number that the digest denotes counts, which the
zeros before it do not change. -/
theorem sign_p521_eq (signer : Signer) (key : Ecdsa.Key) (holds : signer.key = .ec key)
    (onP521 : key.curve = .p521) (data : Bytes) {hash : HashName}
    (listed : hash ∈ HashName.computed) {generator : Generator}
    (contains : ∃ index, (generator.block 66 index).toNat < Curve.p521.domain.order) :
    ∃ digest octets index, hash.digest data = .ok digest ∧ digest.length = hash.size ∧
      Ecdsa.fitted? 66 (Ecdsa.prehash .p521 digest) = some octets ∧
      octets.toNat = digest.toNat ∧
      generator.IsFirstBelow Curve.p521.domain.order 66 index ∧
      let nonce := (generator.block 66 index).toNat
      let pair := Ecdsa.Signature.ofNonce .p521 key.scalar digest.toNat nonce
      (signer.sign data hash generator).1 =
        if nonce = 0 ∨ pair.r = 0 ∨ pair.s = 0 then .error (.signingFailed (.ecdsa .p521))
        else .ok pair.write := by
  obtain ⟨digest, made⟩ := HashName.exists_digest listed data
  obtain ⟨length, most⟩ := HashName.length_of_digest made
  have short : digest.length ≤ 66 := by omega
  obtain ⟨octets, fits, number⟩ := Ecdsa.exists_fitted?_p521 short
  obtain ⟨index, first⟩ := Generator.exists_isFirstBelow contains
  refine ⟨digest, octets, index, made, length, fits, number, first, ?_⟩
  intro nonce pair
  have signed : (Ecdsa.sign? key digest generator).1 =
      if nonce = 0 ∨ pair.r = 0 ∨ pair.s = 0 then none else some pair := by
    rw [Ecdsa.sign?_p521_of_first onP521 short first]
    exact Ecdsa.signWith?_eq first.below key.scalar digest.toNat
  rw [sign, holds, PrivateKey.sign_ec key made, signed, onP521]
  by_cases degenerate : nonce = 0 ∨ pair.r = 0 ∨ pair.s = 0
  · rw [if_pos degenerate, if_pos degenerate]
    rfl
  · rw [if_neg degenerate, if_neg degenerate]
    rfl

/-- The second block is the first one below the order, and it is zero. -/
theorem sign_p521_zero_nonce :
    let signer : Signer :=
      ⟨.ec ⟨.p521, 1, by decide, by decide +kernel⟩, ⟨[], [], [], [], []⟩, []⟩
    let generator := Generator.start (List.replicate 66 0xff ++ List.replicate 66 0)
    (∃ index, (generator.block 66 index).toNat < Curve.p521.domain.order) ∧
      HashName.sha512 ∈ HashName.computed ∧
      (signer.sign [] .sha512 generator).1 = .error (.signingFailed (.ecdsa .p521)) := by
  intro signer generator
  have first : generator.IsFirstBelow Curve.p521.domain.order 66 1 := by
    constructor
    · decide +kernel
    · intro other before
      obtain rfl : other = 0 := by omega
      decide +kernel
  have contains : ∃ index, (generator.block 66 index).toNat < Curve.p521.domain.order :=
    ⟨1, first.below⟩
  have listed : HashName.sha512 ∈ HashName.computed := by decide
  refine ⟨contains, listed, ?_⟩
  obtain ⟨digest, octets, index, -, -, -, -, found, signed⟩ :=
    sign_p521_eq signer _ rfl rfl [] listed contains
  obtain rfl := found.unique first
  have zero : (generator.block 66 1).toNat = 0 := by decide +kernel
  exact signed.trans (if_pos (.inl zero))

/-- Two signatures on P-521 that start from one state of the generator have their nonce in common,
whatever their data and hash functions are. If the numbers of the digests differ modulo the order,
the scalar is computed from the two signatures and digests. On the other curves scalar and hash have
a part in the nonce. -/
theorem sign_p521_reveals_scalar (signer : Signer) (key : Ecdsa.Key)
    (holds : signer.key = .ec key) (onP521 : key.curve = .p521)
    {data otherData octets otherOctets : Bytes} {hash otherHash : HashName} {generator : Generator}
    (signed : (signer.sign data hash generator).1 = .ok octets)
    (otherSigned : (signer.sign otherData otherHash generator).1 = .ok otherOctets) :
    let order := Curve.p521.domain.order
    (∃ nonce digest otherDigest r s otherS,
      (∀ scalar message, (Ecdsa.Nonce.choose? .p521 scalar message generator).1 = some nonce) ∧
      r = (Curve.p521.domain.baseMultiple nonce).xCoordinate % order ∧
      hash.digest data = .ok digest ∧ otherHash.digest otherData = .ok otherDigest ∧
      Ecdsa.Signature.read? order octets = some ⟨r, s⟩ ∧
      Ecdsa.Signature.read? order otherOctets = some ⟨r, otherS⟩ ∧
      ((digest.toNat : ZMod order) ≠ otherDigest.toNat →
        IsUnit ((s : ZMod order) - otherS) ∧
        ((otherS * digest.toNat - s * otherDigest.toNat) *
          ((r : ZMod order) * (s - otherS))⁻¹).val = key.scalar)) ∧
    Ecdsa.Nonce.IsSeeded .p256 Hash.Hmac.sha256 ∧ Ecdsa.Nonce.IsSeeded .p384 Hash.Hmac.sha384 := by
  intro order
  rw [sign, holds] at signed otherSigned
  obtain ⟨digest, ⟨r, s⟩, made, paired, written⟩ := PrivateKey.sign_ec_eq_ok signed
  obtain ⟨otherDigest, ⟨otherR, otherS⟩, otherMade, otherPaired, otherWritten⟩ :=
    PrivateKey.sign_ec_eq_ok otherSigned
  have short : digest.length ≤ 66 := (HashName.length_of_digest made).2.trans (by decide)
  have otherShort : otherDigest.length ≤ 66 :=
    (HashName.length_of_digest otherMade).2.trans (by decide)
  obtain ⟨nonce, chosen, signs, otherSigns⟩ :=
    Ecdsa.exists_shared_nonce onP521 short otherShort paired otherPaired
  obtain rfl : r = otherR := signs.r_eq.trans otherSigns.r_eq.symm
  refine ⟨⟨nonce, digest, otherDigest, r, s, otherS, chosen, signs.r_eq, made, otherMade, ?_, ?_,
    ?_⟩, Ecdsa.Nonce.isSeeded_p256, Ecdsa.Nonce.isSeeded_p384⟩
  · rw [written]
    exact Ecdsa.Signature.read?_write .p521 signs.isFor
  · rw [otherWritten]
    exact Ecdsa.Signature.read?_write .p521 otherSigns.isFor
  · intro different
    obtain ⟨apart, scalar⟩ := Ecdsa.scalar_of_signs signs otherSigns different
    refine ⟨isUnit_iff_ne_zero.mpr apart, ?_⟩
    have below : key.scalar < order := by
      have below := key.below
      rwa [onP521] at below
    rw [scalar, ZMod.val_natCast_of_lt below]

/-- The largest scalar from two signatures with the nonce one. -/
theorem sign_p521_reveals_largest_scalar :
    let order := Curve.p521.domain.order
    let signer : Signer :=
      ⟨.ec ⟨.p521, order - 1, by decide +kernel, by decide +kernel⟩, ⟨[], [], [], [], []⟩, []⟩
    let generator := Generator.start (List.replicate 65 0 ++ [1])
    let r := Curve.p521Domain.baseX
    let s :=
      0x1397a71f948fbfb163261c13499dc6a4bbd639b7ec6fac04ade07d7509f94b2c24093ebed4e684459571caa34e9ed79b616301b57db68cd985f6686d20846a55ef8
    let otherS :=
      0x1397a71f948fbfb163261c13499dc6a4bbd639b7ec6fac04ade07d7509f94b2c23ffc303b3b038d9207bd8c6edce0dcb4d5d9cd20cd35f58ab899be1b2945d7ec3d
    (signer.sign [] .sha256 generator).1 = .ok (Ecdsa.Signature.write ⟨r, s⟩) ∧
      (signer.sign [1] .sha256 generator).1 = .ok (Ecdsa.Signature.write ⟨r, otherS⟩) ∧
      ((otherS * (Hash.Sha256.digest []).toNat - s * (Hash.Sha256.digest [1]).toNat) *
        ((r : ZMod order) * (s - otherS))⁻¹).val = order - 1 := by
  intro order signer generator r s otherS
  have signed : (signer.sign [] .sha256 generator).1 = .ok (Ecdsa.Signature.write ⟨r, s⟩) := by
    decide +kernel
  have otherSigned : (signer.sign [1] .sha256 generator).1 =
      .ok (Ecdsa.Signature.write ⟨r, otherS⟩) := by
    decide +kernel
  refine ⟨signed, otherSigned, ?_⟩
  obtain ⟨⟨nonce, digest, otherDigest, foundR, foundS, foundOtherS, -, -, made, otherMade, read,
    otherRead, reveals⟩, -, -⟩ := sign_p521_reveals_scalar signer _ rfl rfl signed otherSigned
  cases made
  cases otherMade
  rw [Ecdsa.Signature.read?_write .p521 (by decide +kernel), Option.some.injEq,
    Ecdsa.Signature.mk.injEq] at read otherRead
  rw [← read.1, ← read.2, ← otherRead.2] at reveals
  have different :
      ((Hash.Sha256.digest []).toNat : ZMod order) ≠ (Hash.Sha256.digest [1]).toNat := by
    intro same
    have equal := Residue.eq_of_cast_eq (by decide +kernel) (by decide +kernel) same
    revert equal
    decide +kernel
  exact (reveals different).2

end Signer
end CredentialSigning
