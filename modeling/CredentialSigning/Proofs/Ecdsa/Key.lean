import CredentialSigning.Ecdsa.Key
import CredentialSigning.Proofs.Curve.Order
import CredentialSigning.Proofs.Octets

/-! Keys on a curve: the point of a key is not the neutral element, and reading a key again from the
octets of its scalar yields the same key. -/

namespace CredentialSigning.Ecdsa

theorem width_bounds (curve : Curve) :
    24 ≤ curve.domain.width ∧ curve.domain.width ≤ 66 ∧
      curve.domain.order ≤ 256 ^ curve.domain.width := by
  cases curve <;> decide

namespace Key

theorem eq_iff {key other : Key} :
    key = other ↔ key.curve = other.curve ∧ key.scalar = other.scalar := by
  refine ⟨fun same => same ▸ ⟨rfl, rfl⟩, ?_⟩
  obtain ⟨curve, scalar, positive, below⟩ := key
  obtain ⟨otherCurve, otherScalar, otherPositive, otherBelow⟩ := other
  rintro ⟨rfl, rfl⟩
  rfl

theorem cast_scalar_ne_zero (key : Key) : (key.scalar : ZMod key.curve.domain.order) ≠ 0 := by
  rw [Ne, Residue.cast_eq_zero_iff key.below]
  exact key.positive.ne'

theorem point_ne_infinity (key : Key) : key.point ≠ .infinity := by
  rw [point, Ne, Curve.baseMultiple_eq_infinity_iff]
  exact key.cast_scalar_ne_zero

theorem ofScalar?_eq_some_iff {curve : Curve} {octets : Bytes}
    (full : octets.length = curve.domain.width) (key : Key) :
    ofScalar? curve octets = some key ↔ key.curve = curve ∧ key.scalar = octets.toNat := by
  obtain ⟨wide, -, -⟩ := width_bounds curve
  unfold ofScalar?
  rw [if_pos ⟨by omega, by omega⟩]
  constructor
  · intro admitted
    split at admitted
    · cases admitted
      exact ⟨rfl, rfl⟩
    · cases admitted
  · rintro ⟨rfl, same⟩
    have bounds : 0 < octets.toNat ∧ octets.toNat < key.curve.domain.order := by
      rw [← same]
      exact ⟨key.positive, key.below⟩
    rw [dif_pos bounds]
    obtain ⟨curve, scalar, positive, below⟩ := key
    cases same
    rfl

/-- A key is on the curve it was asked for. -/
theorem curve_of_ofScalar? {curve : Curve} {octets : Bytes} {key : Key}
    (read : ofScalar? curve octets = some key) : key.curve = curve := by
  unfold ofScalar? at read
  split at read
  · split at read
    · cases read
      rfl
    · cases read
  · cases read

theorem curve_of_ofDer? {curve : Curve} {octets : Bytes} {key : Key}
    (read : ofDer? curve octets = some key) : key.curve = curve := by
  simp only [ofDer?, Option.bind_eq_bind] at read
  obtain ⟨content, -, read⟩ := Option.bind_eq_some_iff.mp read
  obtain ⟨version, -, read⟩ := Option.bind_eq_some_iff.mp read
  obtain ⟨scalar, -, read⟩ := Option.bind_eq_some_iff.mp read
  obtain ⟨curveField, -, read⟩ := Option.bind_eq_some_iff.mp read
  obtain ⟨⟨publicField, rest⟩, -, read⟩ := Option.bind_eq_some_iff.mp read
  simp only at read
  split at read
  · obtain ⟨found, inScalar, read⟩ := Option.bind_eq_some_iff.mp read
    have onCurve := curve_of_ofScalar? inScalar
    cases publicField with
    | none =>
      cases read
      exact onCurve
    | some element =>
      obtain ⟨point, -, read⟩ := Option.bind_eq_some_iff.mp read
      split at read
      · cases read
        exact onCurve
      · cases read
  · cases read

/-- The key that signs is the key that was read. -/
theorem signing?_eq (key : Key) : key.signing? = some key := by
  have again : ofScalar? key.curve key.octets = some key := by
    obtain ⟨-, -, holds⟩ := width_bounds key.curve
    have full : key.octets.length = key.curve.domain.width := Bytes.length_ofNat _ _
    have number : key.octets.toNat = key.scalar := Bytes.toNat_ofNat _ _ (key.below.trans_le holds)
    rw [ofScalar?_eq_some_iff full]
    exact ⟨rfl, number.symm⟩
  unfold signing?
  split
  · rfl
  · rfl
  · rename_i isP521
    rwa [isP521] at again

end Key
end CredentialSigning.Ecdsa
