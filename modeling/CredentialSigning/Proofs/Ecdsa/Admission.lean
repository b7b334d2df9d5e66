import CredentialSigning.Key.Private
import CredentialSigning.Proofs.Ecdsa.Key
import CredentialSigning.Proofs.Key.Info

/-! Which keys on a curve are admitted. A document with a scalar in the full width of its curve is
admitted exactly if the scalar is within the bounds and a public key that comes with it is a written
form of the scalar's point. A document as long as the limit of a value is no envelope. -/

namespace CredentialSigning

namespace Ecdsa
open Der

/-- Octets, of the last of which some bits do not count. -/
structure BitString where
  unused : UInt8
  octets : Bytes

/-- A private key in an envelope of version 0 that names the curve. The key inside has version 1 and
a scalar in the full width; it may name any curve, and carry any bits as its public key. -/
structure Document where
  curve : Curve
  scalar : Bytes
  full : scalar.length = curve.domain.width
  innerCurve : Option Oid
  publicKey : Option BitString
  attributes : Option Bytes

namespace Document

def curveContent (document : Document) : Option Bytes :=
  document.innerCurve.map fun oid => write 0x06 oid.octets

def publicContent (document : Document) : Option Bytes :=
  document.publicKey.map fun bits => write 0x03 (bits.unused :: bits.octets)

def key (document : Document) : Bytes :=
  writeSequence [write 0x02 [1], write 0x04 document.scalar,
    writeOptional 0xa0 document.curveContent, writeOptional 0xa1 document.publicContent]

def info (document : Document) : Key.Info :=
  ⟨Oid.ecPublicKey, some ⟨[0x06], document.curve.identifier.octets⟩, document.key⟩

def toDer (document : Document) : Bytes :=
  document.info.toDer document.attributes

/-- The scalar's multiple of the generator, in the group of the curve's points. -/
noncomputable def point (document : Document) : Curve.Point :=
  document.curve.domain.coordinates (document.scalar.toNat • document.curve.domain.generator)

structure IsValid (document : Document) : Prop where
  positive : 1 ≤ document.scalar.toNat
  below : document.scalar.toNat < document.curve.domain.order
  belongs : ∀ bits ∈ document.publicKey, bits.unused = 0 ∧
    (bits.octets = document.point.uncompressed document.curve.domain.width ∨
      bits.octets = document.point.compressed document.curve.domain.width)

end Document

namespace Key

theorem isCurveField_write {oid : Oid} (short : (write 0x06 oid.octets).length < keyLimit) :
    isCurveField ⟨[0xa0], write 0x06 oid.octets⟩ = true := by
  have contentLength := length_lt_length_write 0x06 oid.octets
  have whole := Rules.whole?_write (by decide : isKeyTag 0x06 = true) (contentLength.trans short)
  simp [isCurveField, whole, Oid.ofOctets?_octets]

theorem wholeBits?_cons (unused : UInt8) (octets : Bytes) :
    wholeBits? (unused :: octets) = if unused = 0 then some octets else none := by
  unfold wholeBits?
  split
  · rename_i same
    cases same
    rfl
  · rename_i other
    rw [if_neg]
    rintro rfl
    exact other octets rfl

theorem publicField?_write {bits : BitString}
    (short : (write 0x03 (bits.unused :: bits.octets)).length < keyLimit) :
    publicField? ⟨[0xa1], write 0x03 (bits.unused :: bits.octets)⟩ =
      if bits.unused = 0 then some bits.octets else none := by
  have contentLength := length_lt_length_write 0x03 (bits.unused :: bits.octets)
  have whole := Rules.whole?_write (by decide : isKeyTag 0x03 = true) (contentLength.trans short)
  simp [publicField?, whole, wholeBits?_cons]

/-- How the fields of a written key are taken apart. -/
theorem ofDer?_write (curve : Curve) {scalar : Bytes} {inner pub : Option Bytes}
    (short : (writeSequence [write 0x02 [1], write 0x04 scalar, writeOptional 0xa0 inner,
      writeOptional 0xa1 pub]).length < keyLimit) :
    ofDer? curve (writeSequence [write 0x02 [1], write 0x04 scalar, writeOptional 0xa0 inner,
        writeOptional 0xa1 pub]) =
      if inner.all fun octets => isCurveField ⟨[0xa0], octets⟩ then
        (ofScalar? curve scalar).bind fun key =>
          match pub with
          | none => some key
          | some octets => (publicField? ⟨[0xa1], octets⟩).bind fun octets =>
            if key.isWrittenPoint octets then some key else none
      else none := by
  have opened := Rules.whole?_writeSequence short
  have version : ∀ rest, Rules.key.take? 0x02 (write 0x02 [1] ++ rest) = some ([1], rest) :=
    Rules.take?_write (by decide) (by decide)
  have number : ∀ rest, Rules.key.take? 0x04 (write 0x04 scalar ++ rest) = some (scalar, rest) :=
    Rules.take?_write (by decide) (content_length_lt 0x04 scalar (by simp) short)
  have innerShort := optional_length_lt 0xa0 inner (by simp) short
  have publicShort := optional_length_lt 0xa1 pub (by simp) short
  have innerField : field? 0 (writeOptional 0xa0 inner ++ writeOptional 0xa1 pub) =
      some (inner.map fun octets => ⟨[0xa0], octets⟩, writeOptional 0xa1 pub) :=
    field?_writeOptional (by decide) (by decide) innerShort
      (field?_writeOptional_above (by decide) (by decide) pub)
  have publicField : field? 1 (writeOptional 0xa1 pub ++ []) =
      some (pub.map fun octets => ⟨[0xa1], octets⟩, []) :=
    field?_writeOptional (by decide) (by decide) publicShort (field?_nil 1)
  rw [List.append_nil] at publicField
  simp only [ofDer?, opened, List.flatten_cons, List.flatten_nil, List.append_nil, version, number,
    innerField, publicField, Option.bind_eq_bind, Option.bind_some, true_and, and_true,
    Option.all_map]
  congr 1
  cases pub with
  | none => rfl
  | some octets => rfl

theorem ofDer?_key_eq_some_iff (document : Document) (short : document.key.length < keyLimit)
    (key : Key) :
    ofDer? document.curve document.key = some key ↔
      ofScalar? document.curve document.scalar = some key ∧
        ∀ bits ∈ document.publicKey, bits.unused = 0 ∧ key.isWrittenPoint bits.octets = true := by
  have curveShort := optional_length_lt 0xa0 document.curveContent (by simp) short
  have publicShort := optional_length_lt 0xa1 document.publicContent (by simp) short
  have anyCurve : document.curveContent.all (fun octets => isCurveField ⟨[0xa0], octets⟩) = true := by
    unfold Document.curveContent at curveShort ⊢
    cases named : document.innerCurve with
    | none => rfl
    | some oid =>
      rw [named] at curveShort
      exact isCurveField_write (curveShort _ rfl)
  rw [Document.key, ofDer?_write document.curve short, if_pos anyCurve, Option.bind_eq_some_iff]
  unfold Document.publicContent at publicShort ⊢
  cases present : document.publicKey with
  | none => simp
  | some bits =>
    rw [present] at publicShort
    have field := publicField?_write (publicShort _ rfl)
    simp only [Option.map_some, field, Option.mem_def, Option.some.injEq, forall_eq']
    by_cases whole : bits.unused = 0
    · simp only [whole, if_true, Option.bind_some, true_and]
      constructor
      · rintro ⟨read, admitted, kept⟩
        split at kept
        · rename_i written
          cases kept
          exact ⟨admitted, written⟩
        · cases kept
      · rintro ⟨admitted, written⟩
        exact ⟨key, admitted, if_pos written⟩
    · simp [whole]

end Key

namespace Document

theorem point_eq {document : Document} {key : Key} (curve : key.curve = document.curve)
    (scalar : key.scalar = document.scalar.toNat) : key.point = document.point := by
  rw [Key.point, curve, scalar, Curve.Domain.baseMultiple_eq, point]

/-- The only key that can be read from a document has its curve and its scalar. -/
theorem ofDer?_key_iff (document : Document) (short : document.key.length < keyLimit) (key : Key) :
    Key.ofDer? document.curve document.key = some key ↔
      key.curve = document.curve ∧ key.scalar = document.scalar.toNat ∧ document.IsValid := by
  rw [Key.ofDer?_key_eq_some_iff document short, Key.ofScalar?_eq_some_iff document.full, and_assoc]
  constructor
  · rintro ⟨curve, scalar, belongs⟩
    have bounds : 0 < document.scalar.toNat ∧ document.scalar.toNat < document.curve.domain.order := by
      rw [← scalar, ← curve]
      exact ⟨key.positive, key.below⟩
    refine ⟨curve, scalar, bounds.1, bounds.2, ?_⟩
    intro bits present
    obtain ⟨whole, written⟩ := belongs bits present
    rw [Key.isWrittenPoint, point_eq curve scalar, curve] at written
    simpa [whole] using written
  · rintro ⟨curve, scalar, valid⟩
    refine ⟨curve, scalar, ?_⟩
    intro bits present
    obtain ⟨whole, written⟩ := valid.belongs bits present
    rw [Key.isWrittenPoint, point_eq curve scalar, curve]
    simpa [whole] using written

theorem exists_key {document : Document} (valid : document.IsValid) :
    ∃ key : Key, key.curve = document.curve ∧ key.scalar = document.scalar.toNat :=
  ⟨⟨document.curve, document.scalar.toNat, valid.positive, valid.below⟩, rfl, rfl⟩

end Document
end Ecdsa

namespace PrivateKey
open Ecdsa

/-- What becomes of a document is decided by the octets inside the envelope. -/
theorem ofDer_document (document : Document) (short : document.toDer.length < Der.keyLimit) :
    ofDer document.toDer =
      (Ecdsa.Key.ofDer? document.curve document.key).elim
        (.error (.invalidCredential (.ecKey document.curve))) fun key => .ok (.ec key) := by
  have plain : ∀ element ∈ document.info.parameters, element.HasKeyTag := by
    intro element present
    obtain rfl := Option.some.inj present
    exact ⟨0x06, rfl, by decide⟩
  have read := Key.Info.ofDer?_toDer plain short
  have named : document.info.namedParameters? = some document.curve.identifier :=
    Oid.ofOctets?_octets _
  have notRsa : Oid.ecPublicKey ≠ Oid.rsaEncryption := by decide
  have signs : Ecdsa.Key.signing? = some := funext Ecdsa.Key.signing?_eq
  simp only [ofDer, Document.toDer, read, ofInfo, named, Curve.ofIdentifier?_identifier, signs,
    Option.bind_fun_some]
  rw [Document.info, if_neg notRsa, if_pos rfl]
  cases Ecdsa.Key.ofDer? document.curve document.key with
  | none => rfl
  | some key => rfl

theorem ofDer_of_long {octets : Bytes} (long : Der.keyLimit ≤ octets.length) :
    ofDer octets = .error (.invalidCredential .keyInfo) := by
  rw [ofDer, Key.Info.ofDer?_of_long long]

/-- A document is admitted exactly if it is valid. The key that is read from it has its curve, and its
public key is the scalar's multiple of the generator, which is not the neutral element. What is
refused is refused as a key on that curve, except that a document as long as the limit of a value is
refused as an envelope. -/
theorem ofDer_document_iff (document : Document) :
    (document.toDer.length < Der.keyLimit →
      ((∃ key, ofDer document.toDer = .ok key) ↔ document.IsValid) ∧
      (∀ key, ofDer document.toDer = .ok key →
        (∃ inner : Ecdsa.Key, key = .ec inner ∧ inner.curve = document.curve ∧
          inner.scalar = document.scalar.toNat) ∧
        key.publicKey = .ec document.curve document.point ∧ document.point ≠ .infinity) ∧
      (¬document.IsValid →
        ofDer document.toDer = .error (.invalidCredential (.ecKey document.curve)))) ∧
    (Der.keyLimit ≤ document.toDer.length →
      ofDer document.toDer = .error (.invalidCredential .keyInfo)) := by
  refine ⟨?_, ofDer_of_long⟩
  intro short
  have keyShort : document.key.length < Der.keyLimit :=
    Der.content_length_lt 0x04 document.key (by simp [Document.info]) short
  have reads := document.ofDer?_key_iff keyShort
  rw [ofDer_document document short]
  cases found : Ecdsa.Key.ofDer? document.curve document.key with
  | none =>
    have invalid : ¬document.IsValid := by
      intro valid
      obtain ⟨key, curve, scalar⟩ := Document.exists_key valid
      have read := (reads key).mpr ⟨curve, scalar, valid⟩
      rw [found] at read
      cases read
    simp [invalid]
  | some key =>
    obtain ⟨curve, scalar, valid⟩ := (reads key).mp found
    have point := Document.point_eq curve scalar
    have finite := key.point_ne_infinity
    rw [point] at finite
    refine ⟨⟨fun _ => valid, fun _ => ⟨_, rfl⟩⟩, ?_, fun invalid => absurd valid invalid⟩
    rintro _ ⟨⟩
    refine ⟨⟨key, rfl, curve, scalar⟩, ?_, finite⟩
    rw [publicKey, point, curve]

/-- The largest scalar on P-521, with its point in compressed form, is admitted. The order itself is
not, and nothing is with attributes that are too long. -/
theorem ofDer_document_p521 :
    let octets := Bytes.ofNat 66
    let publicKey : BitString := ⟨0, 3 :: octets Curve.p521Domain.baseX⟩
    let document : Document :=
      ⟨.p521, octets (Curve.p521Domain.order - 1), Bytes.length_ofNat _ _, some Oid.secp521r1,
        some publicKey, none⟩
    let order : Document :=
      ⟨.p521, octets Curve.p521Domain.order, Bytes.length_ofNat _ _, none, none, some []⟩
    let long : Document := { document with attributes := some (List.replicate Der.keyLimit 0) }
    (∃ key, ofDer document.toDer = .ok key) ∧
      ofDer order.toDer = .error (.invalidCredential (.ecKey .p521)) ∧
      ofDer long.toDer = .error (.invalidCredential .keyInfo) := by
  intro octets publicKey document order long
  have scalar : document.scalar.toNat = Curve.p521Domain.order - 1 := by decide +kernel
  have point : document.point = Curve.p521Domain.baseMultiple (Curve.p521Domain.order - 1) := by
    rw [Document.point, ← Curve.Domain.baseMultiple_eq, scalar]
    rfl
  have written : publicKey.octets =
      (Curve.p521Domain.baseMultiple (Curve.p521Domain.order - 1)).compressed 66 := by
    decide +kernel
  have valid : document.IsValid := by
    refine ⟨by decide +kernel, by decide +kernel, ?_⟩
    intro bits present
    obtain rfl := Option.some.inj present
    refine ⟨rfl, .inr ?_⟩
    rw [point]
    exact written
  have invalid : ¬order.IsValid := fun valid => absurd valid.below (by decide +kernel)
  have short : document.toDer.length < Der.keyLimit := by decide +kernel
  have orderShort : order.toDer.length < Der.keyLimit := by decide +kernel
  have tooLong : Der.keyLimit ≤ long.toDer.length := by
    by_contra below
    have attributesShort := Der.optional_length_lt 0xa0 long.attributes
      (by simp [Document.info]) (Nat.lt_of_not_le below) _ rfl
    rw [List.length_replicate] at attributesShort
    exact Nat.lt_irrefl _ attributesShort
  have admitted := ((ofDer_document_iff document).1 short).1.mpr valid
  have refused := ((ofDer_document_iff order).1 orderShort).2.2 invalid
  have unread := (ofDer_document_iff long).2 tooLong
  exact ⟨admitted, refused, unread⟩

end PrivateKey
end CredentialSigning
