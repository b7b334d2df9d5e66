import CredentialSigning.Ecdsa.Sign
import CredentialSigning.Proofs.Ecdsa.Key

/-! What a signature is as a pair of scalars modulo the order: which pair a scalar and a nonce lead
to, what two pairs with one nonce give away, and which pairs verify under a multiple of the base
point. -/

namespace CredentialSigning.Ecdsa

variable (curve : Curve)

/-- The pair that a scalar and a nonce lead to for a number. -/
structure Signs (scalar message nonce : Nat) (signature : Signature) : Prop where
  unit : (nonce : ZMod curve.domain.order) ≠ 0
  r_eq : signature.r = (curve.domain.baseMultiple nonce).xCoordinate % curve.domain.order
  s_eq : (signature.s : ZMod curve.domain.order) =
    (nonce : ZMod curve.domain.order)⁻¹ * (message + signature.r * scalar)
  isFor : signature.IsFor curve.domain.order

variable {curve}

/-- A nonce that is a multiple of the order would give the neutral element, whose first coordinate
counts as zero. -/
theorem signs_of_signWith? {scalar message nonce : Nat} {signature : Signature}
    (signed : signWith? curve.domain scalar message nonce = some signature) :
    Signs curve scalar message nonce signature := by
  unfold signWith? at signed
  simp only at signed
  split at signed
  · cases signed
  · rename_i nonzero
    cases signed
    simp only [not_or] at nonzero
    obtain ⟨-, firstNonzero, secondNonzero⟩ := nonzero
    have positive : 0 < curve.domain.order := curve.prime_order.pos
    have unit : (nonce : ZMod curve.domain.order) ≠ 0 := by
      intro zero
      apply firstNonzero
      rw [(curve.baseMultiple_eq_infinity_iff nonce).mpr zero]
      exact Nat.zero_mod _
    refine ⟨unit, rfl, ?_, ?_⟩
    · rw [Residue.cast_mul, Residue.cast_inverse unit, ZMod.natCast_mod, Nat.cast_add, Nat.cast_mul]
    · exact ⟨Nat.pos_of_ne_zero firstNonzero, Nat.mod_lt _ positive,
        Nat.pos_of_ne_zero secondNonzero, Residue.mul_lt _ _⟩

/-- The pair that a nonce leads to, as the standard defines it. -/
noncomputable def Signature.ofNonce (curve : Curve) (scalar message nonce : Nat) : Signature :=
  let r := (curve.domain.coordinates (nonce • curve.domain.generator)).xCoordinate %
    curve.domain.order
  ⟨r, ((nonce : ZMod curve.domain.order)⁻¹ * (message + r * scalar)).val⟩

theorem Signature.eq_ofNonce {nonce : Nat} (unit : (nonce : ZMod curve.domain.order) ≠ 0)
    (scalar message : Nat) :
    let r := (curve.domain.baseMultiple nonce).xCoordinate % curve.domain.order
    (⟨r, Residue.mul curve.domain.order (Residue.inverse curve.domain.order nonce)
      ((message + r * scalar) % curve.domain.order)⟩ : Signature) =
        Signature.ofNonce curve scalar message nonce := by
  intro r
  rw [ofNonce, ← Curve.Domain.baseMultiple_eq, mk.injEq]
  refine ⟨rfl, ?_⟩
  apply Residue.eq_of_cast_eq (Residue.mul_lt _ _) (ZMod.val_lt _)
  rw [ZMod.natCast_zmod_val, Residue.cast_mul, Residue.cast_inverse unit, ZMod.natCast_mod,
    Nat.cast_add, Nat.cast_mul]

/-- A nonce below the order leads to the pair of the standard, unless a part of it or the nonce is
zero. -/
theorem signWith?_eq {nonce : Nat} (below : nonce < curve.domain.order) (scalar message : Nat) :
    signWith? curve.domain scalar message nonce =
      if nonce = 0 ∨ (Signature.ofNonce curve scalar message nonce).r = 0 ∨
          (Signature.ofNonce curve scalar message nonce).s = 0 then none
      else some (Signature.ofNonce curve scalar message nonce) := by
  by_cases zero : nonce = 0
  · rw [if_pos (.inl zero), signWith?]
    exact if_pos (.inl zero)
  · have unit : (nonce : ZMod curve.domain.order) ≠ 0 := by
      rw [Ne, Residue.cast_eq_zero_iff below]
      exact zero
    rw [← Signature.eq_ofNonce unit]
    rfl

/-- Two pairs of one nonce share their first part, and the rest is two linear equations for the nonce
and the scalar. -/
theorem scalar_of_signs {scalar message other nonce : Nat} {first second : Signature}
    (signs : Signs curve scalar message nonce first)
    (signsOther : Signs curve scalar other nonce second)
    (different : (message : ZMod curve.domain.order) ≠ other) :
    (first.s : ZMod curve.domain.order) - second.s ≠ 0 ∧
      (second.s * message - first.s * other) *
        ((first.r : ZMod curve.domain.order) * (first.s - second.s))⁻¹ = scalar := by
  have unit := signs.unit
  have shared : second.r = first.r := signsOther.r_eq.trans signs.r_eq.symm
  have r_ne_zero : (first.r : ZMod curve.domain.order) ≠ 0 := by
    rw [Ne, Residue.cast_eq_zero_iff signs.isFor.2.1]
    exact signs.isFor.1.ne'
  have one : (nonce * first.s : ZMod curve.domain.order) = message + first.r * scalar := by
    rw [signs.s_eq, mul_inv_cancel_left₀ unit]
  have two : (nonce * second.s : ZMod curve.domain.order) = other + first.r * scalar := by
    rw [signsOther.s_eq, mul_inv_cancel_left₀ unit, shared]
  have apart : (first.s : ZMod curve.domain.order) - second.s ≠ 0 := by
    intro zero
    apply different
    linear_combination nonce * zero - one + two
  refine ⟨apart, ?_⟩
  rw [← div_eq_mul_inv, div_eq_iff (mul_ne_zero r_ne_zero apart)]
  linear_combination first.s * two - second.s * one

/-- Under a multiple of the base point, the verifier looks at the first coordinate of one multiple of
the base point. -/
theorem verifies_baseMultiple_iff {scalar message multiple : Nat} {signature : Signature}
    (unit : (signature.s : ZMod curve.domain.order) ≠ 0)
    (combined : (multiple : ZMod curve.domain.order) =
      (signature.s : ZMod curve.domain.order)⁻¹ * (message + signature.r * scalar)) :
    verifies curve.domain (curve.domain.baseMultiple scalar) message signature = true ↔
      (curve.domain.baseMultiple multiple).xCoordinate % curve.domain.order = signature.r := by
  have sum : curve.domain.combination
      (Residue.mul curve.domain.order message (Residue.inverse curve.domain.order signature.s))
      (Residue.mul curve.domain.order signature.r (Residue.inverse curve.domain.order signature.s))
      (curve.domain.baseMultiple scalar) = curve.domain.baseMultiple multiple := by
    rw [Curve.Domain.baseMultiple_eq, Curve.Domain.combination_eq, ← mul_nsmul', ← add_nsmul,
      Curve.Domain.baseMultiple_eq]
    congr 1
    rw [Curve.nsmul_generator_eq_iff, combined, Nat.cast_add, Nat.cast_mul, Residue.cast_mul,
      Residue.cast_mul, Residue.cast_inverse unit]
    ring
  simp only [verifies, sum, decide_eq_true_eq]

/-- A signature leads back to its nonce. -/
theorem verifies_of_signs {scalar message nonce : Nat} {signature : Signature}
    (signs : Signs curve scalar message nonce signature) :
    verifies curve.domain (curve.domain.baseMultiple scalar) message signature = true := by
  have unit : (signature.s : ZMod curve.domain.order) ≠ 0 := by
    rw [Ne, Residue.cast_eq_zero_iff signs.isFor.2.2.2]
    exact signs.isFor.2.2.1.ne'
  have combined : (nonce : ZMod curve.domain.order) =
      (signature.s : ZMod curve.domain.order)⁻¹ * (message + signature.r * scalar) := by
    have nonzero := signs.unit
    have equation := signs.s_eq
    rw [equation] at unit
    have right := right_ne_zero_of_mul unit
    rw [equation]
    field_simp
  rw [verifies_baseMultiple_iff unit combined]
  exact signs.r_eq.symm

end CredentialSigning.Ecdsa
