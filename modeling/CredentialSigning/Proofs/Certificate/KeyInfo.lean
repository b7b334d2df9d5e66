import CredentialSigning.Certificate.Reader
import CredentialSigning.Key.Public
import CredentialSigning.Proofs.Der.Reading
import CredentialSigning.Proofs.Ecdsa.Key

/-! What a certificate says of its public key: an algorithm identifier and a bit string. A certificate
for a key on a curve names the curve and holds the point in one of its two written forms. -/

namespace CredentialSigning

namespace Der.Rules

/-- Elements as written are certificate elements too, and they may be longer than in keys. -/
theorem certificate_take?_write {tag : UInt8} (short : tag &&& 0x1f ≠ 0x1f) (nonzero : tag ≠ 0)
    {content : Bytes} (fits : content.length < 1 <<< 32) (rest : Bytes) :
    certificate.take? tag (write tag content ++ rest) = some (content, rest) := by
  have header : certificate.tag? (write tag content ++ rest) =
      some ([tag], writeLength content.length ++ (content ++ rest)) := by
    simp [write, certificate, longTag?, short, nonzero]
  have size : certificate.length? (writeLength content.length ++ (content ++ rest)) =
      some (content.length, content ++ rest) :=
    shortestLength?_writeLength (by decide) fits _
  simp [take?, element?_of_parts header size]

theorem certificate_whole?_write {tag : UInt8} (short : tag &&& 0x1f ≠ 0x1f) (nonzero : tag ≠ 0)
    {content : Bytes} (fits : content.length < 1 <<< 32) :
    certificate.whole? tag (write tag content) = some content := by
  have taken := certificate_take?_write short nonzero fits []
  rw [List.append_nil] at taken
  simp [whole?, taken]

end Der.Rules

namespace Certificate
open Der

/-- The content of the SubjectPublicKeyInfo among the signed fields of a certificate: it follows
version, serial number, signature algorithm, issuer, validity and subject. -/
def signedKeyInfo? (content : Bytes) : Option Bytes := do
  let (_, rest) ← Rules.certificate.takeOptional? 0xa0 content
  let (_, rest) ← Rules.certificate.take? 0x02 rest
  let (_, rest) ← Rules.certificate.take? 0x30 rest
  let (_, rest) ← Rules.certificate.take? 0x30 rest
  let (_, rest) ← Rules.certificate.take? 0x30 rest
  let (_, rest) ← Rules.certificate.take? 0x30 rest
  let (info, _) ← Rules.certificate.take? 0x30 rest
  some info

def keyInfo? (octets : Bytes) : Option Bytes := do
  let (content, _) ← Rules.certificate.take? 0x30 octets
  let (signed, _) ← Rules.certificate.take? 0x30 content
  signedKeyInfo? signed

theorem publicKey?_of_ofSigned? {content : Bytes} {certificate : Certificate}
    (read : ofSigned? content = some certificate) : ∃ info, signedKeyInfo? content = some info ∧
      publicKey? info = some (certificate.algorithm, certificate.publicKey) := by
  obtain ⟨⟨version, rest⟩, first, read⟩ := Option.bind_eq_some_iff.mp read
  obtain ⟨⟨serial, rest⟩, second, read⟩ := Option.bind_eq_some_iff.mp read
  obtain ⟨⟨signature, rest⟩, third, read⟩ := Option.bind_eq_some_iff.mp read
  obtain ⟨-, -, read⟩ := Option.bind_eq_some_iff.mp read
  obtain ⟨⟨issuer, rest⟩, fourth, read⟩ := Option.bind_eq_some_iff.mp read
  obtain ⟨issuerName, -, read⟩ := Option.bind_eq_some_iff.mp read
  obtain ⟨⟨validity, rest⟩, fifth, read⟩ := Option.bind_eq_some_iff.mp read
  obtain ⟨⟨subject, rest⟩, sixth, read⟩ := Option.bind_eq_some_iff.mp read
  obtain ⟨subjectName, -, read⟩ := Option.bind_eq_some_iff.mp read
  obtain ⟨⟨info, rest⟩, last, read⟩ := Option.bind_eq_some_iff.mp read
  obtain ⟨⟨algorithm, publicKey⟩, keyRead, read⟩ := Option.bind_eq_some_iff.mp read
  obtain ⟨⟨issuerId, rest⟩, -, read⟩ := Option.bind_eq_some_iff.mp read
  obtain ⟨⟨subjectId, rest⟩, -, read⟩ := Option.bind_eq_some_iff.mp read
  obtain ⟨⟨extensions, rest⟩, -, read⟩ := Option.bind_eq_some_iff.mp read
  dsimp only at read
  split at read
  · cases read
    exact ⟨info, by simp [signedKeyInfo?, first, second, third, fourth, fifth, sixth, last], keyRead⟩
  · cases read

/-- The public key of a certificate is read from its SubjectPublicKeyInfo. -/
theorem publicKey?_of_ofDer? {octets : Bytes} {certificate : Certificate}
    (read : ofDer? octets = some certificate) : ∃ info, keyInfo? octets = some info ∧
      publicKey? info = some (certificate.algorithm, certificate.publicKey) := by
  obtain ⟨⟨content, after⟩, outer, read⟩ := Option.bind_eq_some_iff.mp read
  obtain ⟨⟨signed, rest⟩, inner, read⟩ := Option.bind_eq_some_iff.mp read
  obtain ⟨⟨algorithm, rest⟩, -, read⟩ := Option.bind_eq_some_iff.mp read
  obtain ⟨-, -, read⟩ := Option.bind_eq_some_iff.mp read
  obtain ⟨signature, -, read⟩ := Option.bind_eq_some_iff.mp read
  obtain ⟨-, -, read⟩ := Option.bind_eq_some_iff.mp read
  obtain ⟨info, keyInfo, keyRead⟩ := publicKey?_of_ofSigned? read
  exact ⟨info, by simpa [keyInfo?, outer, inner] using keyInfo, keyRead⟩

/-- The point of a key info for a curve is read as it stands. -/
theorem publicKey?_ec (curve : Curve) (point : Curve.Point) {octets : Bytes}
    (fits : octets.length < 1 <<< 31) : ∃ algorithm,
      publicKey? ((PublicKey.ec curve point).algorithm ++ writeBitString octets) =
        some (algorithm, octets) := by
  let algorithm := [write 0x06 Oid.ecPublicKey.octets, write 0x06 curve.identifier.octets].flatten
  have short : algorithm.length < 1 <<< 32 := by cases curve <;> decide
  have named : (typedValues? algorithm).isSome = true := by cases curve <;> decide
  obtain ⟨values, named⟩ := Option.isSome_iff_exists.mp named
  have first : Rules.certificate.take? 0x30 ((PublicKey.ec curve point).algorithm ++
      writeBitString octets) = some (algorithm, writeBitString octets) :=
    Rules.certificate_take?_write (by decide) (by decide) short _
  have second : Rules.certificate.whole? 0x03 (writeBitString octets) = some (0 :: octets) :=
    Rules.certificate_whole?_write (by decide) (by decide) (by rw [List.length_cons]; omega)
  exact ⟨algorithm, by simp [publicKey?, first, named, second, bits?]⟩

end Certificate

namespace Ecdsa.Key
open Der

/-- The certificate names the curve of the key, and holds some octets as the point. -/
def HoldsPoint (key : Key) (point certificate : Bytes) : Prop :=
  Certificate.keyInfo? certificate =
    some ((PublicKey.ec key.curve key.point).algorithm ++ writeBitString point)

def HoldsUncompressed (key : Key) (certificate : Bytes) : Prop :=
  key.HoldsPoint (key.point.uncompressed key.curve.domain.width) certificate

def HoldsCompressed (key : Key) (certificate : Bytes) : Prop :=
  key.HoldsPoint (key.point.compressed key.curve.domain.width) certificate

/-- The certificate is one for the key, in whichever form it holds the point. -/
def IsCertifiedBy (key : Key) (certificate : Bytes) : Prop :=
  key.HoldsUncompressed certificate ∨ key.HoldsCompressed certificate

instance (key : Key) (certificate : Bytes) : Decidable (key.HoldsUncompressed certificate) :=
  inferInstanceAs (Decidable (_ = _))

instance (key : Key) (certificate : Bytes) : Decidable (key.HoldsCompressed certificate) :=
  inferInstanceAs (Decidable (_ = _))

instance (key : Key) (certificate : Bytes) : Decidable (key.IsCertifiedBy certificate) :=
  inferInstanceAs (Decidable (_ ∨ _))

theorem exists_point (key : Key) : ∃ x y, key.point = .affine x y := by
  cases shape : key.point with
  | infinity => exact absurd shape key.point_ne_infinity
  | affine x y => exact ⟨x, y, rfl⟩

theorem length_uncompressed (key : Key) :
    (key.point.uncompressed key.curve.domain.width).length = 2 * key.curve.domain.width + 1 := by
  obtain ⟨x, y, shape⟩ := key.exists_point
  simp only [shape, Curve.Point.uncompressed, List.cons_append, List.length_cons, List.length_append,
    Bytes.length_ofNat]
  omega

theorem length_compressed (key : Key) :
    (key.point.compressed key.curve.domain.width).length = key.curve.domain.width + 1 := by
  obtain ⟨x, y, shape⟩ := key.exists_point
  simp only [shape, Curve.Point.compressed, List.length_cons, Bytes.length_ofNat]

section Decoded

variable {key : Key} {octets : Bytes} {certificate : Certificate}
  (read : Certificate.ofDer? octets = some certificate)
include read

theorem publicKey_of_holdsPoint {point : Bytes} (fits : point.length < 1 <<< 31)
    (holds : key.HoldsPoint point octets) : certificate.publicKey = point := by
  obtain ⟨info, keyInfo, decoded⟩ := Certificate.publicKey?_of_ofDer? read
  obtain ⟨algorithm, expected⟩ := Certificate.publicKey?_ec key.curve key.point fits
  rw [holds, Option.some.injEq] at keyInfo
  rw [← keyInfo, expected, Option.some.injEq, Prod.mk.injEq] at decoded
  exact decoded.2.symm

theorem publicKey_of_holdsUncompressed (holds : key.HoldsUncompressed octets) :
    certificate.publicKey = key.point.uncompressed key.curve.domain.width := by
  obtain ⟨-, narrow, -⟩ := width_bounds key.curve
  have length := key.length_uncompressed
  exact publicKey_of_holdsPoint read (by omega) holds

/-- The compressed point is not what a key is compared with. -/
theorem publicKey_ne_of_holdsCompressed (holds : key.HoldsCompressed octets) :
    certificate.publicKey ≠ key.point.uncompressed key.curve.domain.width := by
  obtain ⟨wide, narrow, -⟩ := width_bounds key.curve
  have length := key.length_compressed
  have lengthToo := key.length_uncompressed
  have compressed := publicKey_of_holdsPoint read (by omega) holds
  intro same
  rw [← same, compressed] at lengthToo
  omega

end Decoded

end Ecdsa.Key
end CredentialSigning
