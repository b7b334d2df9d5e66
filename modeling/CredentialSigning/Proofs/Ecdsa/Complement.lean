import CredentialSigning.Proofs.Curve.Points
import CredentialSigning.Proofs.Ecdsa.Encoding
import CredentialSigning.Proofs.Ecdsa.Signature
import CredentialSigning.Proofs.Signing

/-! Signatures come in pairs. With r and s, r and the order less s are a signature of the same data
under the same key: the verifier arrives at the opposite point, which has the same first coordinate. So
the octets of a signature do not identify it. -/

namespace CredentialSigning

namespace Curve

theorem Domain.xCoordinate_neg (d : Domain) [d.IsRegular] (element : d.Element) :
    (d.coordinates (-element)).xCoordinate = (d.coordinates element).xCoordinate := by
  cases element with
  | zero => rfl
  | some x y point => rfl

/-- Opposite multiples of the base point share their first coordinate. -/
theorem xCoordinate_baseMultiple_of_neg (curve : Curve) {scalar opposite : Nat}
    (negated : (opposite : ZMod curve.domain.order) = -scalar) :
    (curve.domain.baseMultiple opposite).xCoordinate =
      (curve.domain.baseMultiple scalar).xCoordinate := by
  have sum : opposite • curve.domain.generator + scalar • curve.domain.generator = 0 := by
    rw [← add_nsmul, ← zero_nsmul curve.domain.generator, nsmul_generator_eq_iff, Nat.cast_add,
      negated, neg_add_cancel, Nat.cast_zero]
  rw [Domain.baseMultiple_eq, Domain.baseMultiple_eq, eq_neg_of_add_eq_zero_left sum,
    Domain.xCoordinate_neg]

end Curve

namespace Ecdsa

namespace Signature

/-- The other signature with the same first part. -/
def complement (order : Nat) (signature : Signature) : Signature :=
  ⟨signature.r, order - signature.s⟩

section IsFor

variable {curve : Curve} {signature : Signature} (isFor : signature.IsFor curve.domain.order)
include isFor

theorem isFor_complement : (signature.complement curve.domain.order).IsFor curve.domain.order := by
  obtain ⟨r_pos, r_lt, s_pos, s_lt⟩ := isFor
  refine ⟨r_pos, r_lt, ?_, ?_⟩
  · exact Nat.sub_pos_of_lt s_lt
  · exact Nat.sub_lt (s_pos.trans s_lt) s_pos

theorem cast_s_ne_zero : (signature.s : ZMod curve.domain.order) ≠ 0 := by
  rw [Ne, Residue.cast_eq_zero_iff isFor.2.2.2]
  exact isFor.2.2.1.ne'

theorem cast_complement_s :
    ((signature.complement curve.domain.order).s : ZMod curve.domain.order) = -signature.s := by
  rw [complement, Nat.cast_sub isFor.2.2.2.le, ZMod.natCast_self, zero_sub]

/-- The order is odd, so no second part is its own complement. -/
theorem write_complement_ne : (signature.complement curve.domain.order).write ≠ signature.write := by
  intro same
  have odd : curve.domain.order % 2 = 1 := by
    cases curve <;> decide
  have read := read?_write curve (isFor_complement isFor)
  rw [same, read?_write curve isFor, Option.some.injEq] at read
  have second := congrArg Signature.s read
  have below := isFor.2.2.2
  simp only [complement] at second
  omega

end IsFor

end Signature

theorem eq_of_verifyingPoint? {curve : Curve} {point found : Curve.Point}
    (admitted : verifyingPoint? curve point = some found) : found = point := by
  unfold verifyingPoint? at admitted
  split at admitted
  · cases admitted
  · exact (Option.some.inj admitted).symm

section Verifier

variable {curve : Curve} {point : Curve.Point} (onCurve : curve.domain.Contains point)
  {signature : Signature} (isFor : signature.IsFor curve.domain.order)
include onCurve isFor

/-- Whatever multiple of the base point a signature leads to, its complement leads to the opposite
one. -/
theorem verifies_complement_iff (message : Nat) :
    verifies curve.domain point message (signature.complement curve.domain.order) = true ↔
      verifies curve.domain point message signature = true := by
  obtain ⟨scalar, rfl⟩ := Curve.exists_baseMultiple onCurve
  let multiple : ZMod curve.domain.order :=
    (signature.s : ZMod curve.domain.order)⁻¹ * (message + signature.r * scalar)
  have combined : (multiple.val : ZMod curve.domain.order) = multiple := ZMod.natCast_zmod_val _
  have negated : ((-multiple).val : ZMod curve.domain.order) = -multiple := ZMod.natCast_zmod_val _
  have combinedToo : ((-multiple).val : ZMod curve.domain.order) =
      ((signature.complement curve.domain.order).s : ZMod curve.domain.order)⁻¹ *
        (message + (signature.complement curve.domain.order).r * scalar) := by
    rw [negated, Signature.cast_complement_s isFor, inv_neg, neg_mul]
    rfl
  have opposite : ((-multiple).val : ZMod curve.domain.order) = -(multiple.val : Nat) := by
    rw [negated, combined]
  rw [verifies_baseMultiple_iff (Signature.cast_s_ne_zero (Signature.isFor_complement isFor))
      combinedToo,
    verifies_baseMultiple_iff (Signature.cast_s_ne_zero isFor) combined,
    curve.xCoordinate_baseMultiple_of_neg opposite]
  rfl

theorem accepts_complement (hash : Bytes) :
    accepts curve point hash (signature.complement curve.domain.order).write =
      accepts curve point hash signature.write := by
  simp only [accepts, Signature.read?_write curve isFor,
    Signature.read?_write curve (Signature.isFor_complement isFor)]
  split
  · rename_i found octets admitted fits
    obtain rfl := eq_of_verifyingPoint? admitted
    rw [Bool.eq_iff_iff]
    exact verifies_complement_iff onCurve isFor octets.toNat
  · rfl

end Verifier
end Ecdsa

namespace PublicKey
open Ecdsa

/-- Under a key on a curve, r and s verify exactly if r and the order less s do. So whatever verifies
is not the only signature that does. -/
theorem verify_complement_iff (curve : Curve) {point : Curve.Point}
    (onCurve : curve.domain.Contains point) (data : Bytes) (hash : HashName) :
    let key := PublicKey.ec curve point
    let order := curve.domain.order
    (∀ r s : Nat, (⟨r, s⟩ : Signature).IsFor order →
      (key.verify data hash (Signature.write ⟨r, s⟩) = .ok () ↔
        key.verify data hash (Signature.write ⟨r, order - s⟩) = .ok ())) ∧
    ∀ octets, key.verify data hash octets = .ok () →
      ∃ other, other ≠ octets ∧ key.verify data hash other = .ok () := by
  intro key order
  have same (signature : Signature) (isFor : signature.IsFor order) :
      key.verify data hash (signature.complement order).write =
        key.verify data hash signature.write := by
    apply verify_congr
    intro digest
    exact Ecdsa.accepts_complement onCurve isFor digest
  constructor
  · intro r s isFor
    rw [← same ⟨r, s⟩ isFor]
    rfl
  · intro octets verified
    obtain ⟨digest, -, accepted⟩ := exists_digest_of_verify verified
    obtain ⟨signature, read⟩ : ∃ signature, Signature.read? order octets = some signature := by
      rw [← Option.isSome_iff_exists]
      by_contra unread
      rw [Option.not_isSome_iff_eq_none] at unread
      simp [key, PublicKey.accepts, Ecdsa.accepts, unread, order] at accepted
    obtain ⟨isFor, rfl⟩ := Signature.eq_write_of_read? read
    exact ⟨(signature.complement order).write, Signature.write_complement_ne isFor,
      (same signature isFor).trans verified⟩

/-- Both signatures of one nonce and one digest under the opposite of the base point of P-521. -/
theorem verify_complement_iff_p521 :
    let point : Curve.Point :=
      .affine Curve.p521Domain.baseX (Curve.p521Domain.prime - Curve.p521Domain.baseY)
    let key := PublicKey.ec .p521 point
    let order := Curve.p521Domain.order
    let r := Curve.p521Domain.baseX
    let s :=
      0x1397a71f948fbfb163261c13499dc6a4bbd639b7ec6fac04ade07d7509f94b2c24093ebed4e684459571caa34e9ed79b616301b57db68cd985f6686d20846a55ef8
    Curve.p521.domain.Contains point ∧ (⟨r, s⟩ : Signature).IsFor order ∧
      key.verify [] .sha256 (Signature.write ⟨r, s⟩) = .ok () ∧
      key.verify [] .sha256 (Signature.write ⟨r, order - s⟩) = .ok () ∧
      ∃ other, other ≠ Signature.write ⟨r, s⟩ ∧ key.verify [] .sha256 other = .ok () := by
  intro point key order r s
  have onCurve : Curve.p521.domain.Contains point := by decide +kernel
  have isFor : (⟨r, s⟩ : Signature).IsFor order := by decide +kernel
  have verified : key.verify [] .sha256 (Signature.write ⟨r, s⟩) = .ok () := by decide +kernel
  obtain ⟨pairs, others⟩ := verify_complement_iff .p521 onCurve [] .sha256
  exact ⟨onCurve, isFor, verified, (pairs r s isFor).mp verified, others _ verified⟩

end PublicKey
end CredentialSigning
