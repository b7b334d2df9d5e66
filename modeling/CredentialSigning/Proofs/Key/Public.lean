import CredentialSigning.Proofs.Certificate.KeyInfo
import CredentialSigning.Proofs.Ecdsa.Admission
import CredentialSigning.Proofs.Key.Classification
import CredentialSigning.Proofs.Rsa.Admission
import CredentialSigning.Signer.Basic

/-! The public keys of accepted private keys. The export of one names its algorithm and holds the
octets that a certificate carries for it, and from these the key is known again. On a curve the public
key determines the private key, and so every signature. -/

namespace CredentialSigning

namespace Curve

theorem eq_of_identifier_octets {curve other : Curve}
    (same : curve.identifier.octets = other.identifier.octets) : curve = other := by
  have read := Oid.ofOctets?_octets curve.identifier
  rw [same, Oid.ofOctets?_octets, Option.some.injEq] at read
  have found := ofIdentifier?_identifier curve
  rw [← read, ofIdentifier?_identifier, Option.some.injEq] at found
  exact found.symm

theorem Domain.lt_of_coordinates {d : Domain} [d.IsRegular] {element : d.Element} {x y : Nat}
    (here : d.coordinates element = .affine x y) : x < d.prime ∧ y < d.prime := by
  cases element with
  | zero => cases here
  | some first second point =>
    cases here
    exact ⟨ZMod.val_lt first, ZMod.val_lt second⟩

theorem prime_le (curve : Curve) : curve.domain.prime ≤ 256 ^ curve.domain.width := by
  cases curve <;> decide

/-- The form octet is followed by both coordinates in full width, so neither runs into the other. -/
theorem Point.uncompressed_inj {width x y otherX otherY : Nat} (x_lt : x < 256 ^ width)
    (y_lt : y < 256 ^ width) (otherX_lt : otherX < 256 ^ width) (otherY_lt : otherY < 256 ^ width)
    (same : uncompressed width (.affine x y) = uncompressed width (.affine otherX otherY)) :
    x = otherX ∧ y = otherY := by
  simp only [uncompressed, List.cons_append, List.cons.injEq, true_and] at same
  obtain ⟨first, second⟩ := List.append_inj same (by simp only [Bytes.length_ofNat])
  constructor
  · rw [← Bytes.toNat_ofNat width x x_lt, first, Bytes.toNat_ofNat width otherX otherX_lt]
  · rw [← Bytes.toNat_ofNat width y y_lt, second, Bytes.toNat_ofNat width otherY otherY_lt]

end Curve

namespace Der

/-- Numbers in a sequence are read back, so the sequence determines them. -/
theorem writeNaturals_inj {values others : List Nat}
    (short : (writeSequence (values.map writeNatural)).length < keyLimit)
    (same : writeSequence (values.map writeNatural) = writeSequence (others.map writeNatural)) :
    values = others := by
  have shortToo := same ▸ short
  have content := Rules.whole?_writeSequence short
  rw [same, Rules.whole?_writeSequence shortToo, Option.some.injEq] at content
  have fields := elements?_writeNaturals short
  rw [← content, elements?_writeNaturals shortToo, Option.some.injEq] at fields
  have read := mapM_natural?_ofNatural values
  rw [← fields, mapM_natural?_ofNatural, Option.some.injEq] at read
  exact read.symm

end Der

namespace Key.Envelope
open Der

/-- An envelope is longer than its algorithm identifier and its key, each with what stands before
it. -/
theorem length_toDer (envelope : Envelope) :
    envelope.identifier.length + envelope.info.key.length + 4 ≤ envelope.toDer.length := by
  have key := add_two_le_length_write 0x04 envelope.info.key
  have whole := add_two_le_length_writeSequence [write 0x02 envelope.version, envelope.identifier,
    write 0x04 envelope.info.key, writeElements envelope.attributes,
    writeElements envelope.publicField.toList, writeElements envelope.extensions]
  simp only [List.map_cons, List.map_nil, List.sum_cons, List.sum_nil] at whole
  rw [toDer]
  omega

end Key.Envelope

namespace Rsa
open Der

/-- None of the nine numbers takes fewer than three octets. -/
theorem Numbers.length_toDer (numbers : Numbers) :
    (writeNatural numbers.modulus).length + (writeNatural numbers.exponent).length + 23 ≤
      numbers.toDer.length := by
  have whole := add_two_le_length_writeSequence (numbers.values.map writeNatural)
  simp only [values, List.map_cons, List.map_nil, List.sum_cons, List.sum_nil] at whole
  have version := three_le_length_writeNatural 0
  have secret := three_le_length_writeNatural numbers.secret
  have p := three_le_length_writeNatural numbers.p
  have q := three_le_length_writeNatural numbers.q
  have exponentP := three_le_length_writeNatural numbers.exponentP
  have exponentQ := three_le_length_writeNatural numbers.exponentQ
  have coefficient := three_le_length_writeNatural numbers.coefficient
  rw [toDer, values]
  simp only [List.map_cons, List.map_nil]
  omega

end Rsa

namespace PublicKey
open Der

/-- The algorithm of a kind of key: its object identifier and its parameters. -/
def namedAlgorithm : PublicKey → Oid × Option Element
  | rsa _ => (Oid.rsaEncryption, some ⟨[0x05], []⟩)
  | ec curve _ => (Oid.ecPublicKey, some ⟨[0x06], curve.identifier.octets⟩)

/-- What is read from octets is the algorithm of a key and, without unused bits, the octets that a
certificate carries for it; there is nothing else. -/
def IsExport (key : PublicKey) (octets : Bytes) : Prop :=
  ∃ algorithm, (document? octets).bind Rules.key.elements? =
      some [⟨[0x30], algorithm⟩, ⟨[0x03], 0 :: key.subjectPublicKey⟩] ∧
    Key.Info.algorithm? algorithm = some key.namedAlgorithm

/-- The coordinates of a key on a curve fit the width they are written in. -/
def HasCoordinates : PublicKey → Prop
  | rsa _ => True
  | ec curve point => ∃ x y, point = .affine x y ∧
      x < 256 ^ curve.domain.width ∧ y < 256 ^ curve.domain.width

theorem algorithm_eq (key : PublicKey) : key.algorithm = writeSequence
    [write 0x06 key.namedAlgorithm.1.octets, writeElements key.namedAlgorithm.2.toList] := by
  cases key with
  | rsa inner => rfl
  | ec curve point => simp [algorithm, namedAlgorithm, Element.write_eq]

theorem algorithm?_namedAlgorithm (key : PublicKey) :
    Key.Info.algorithm? (write 0x06 key.namedAlgorithm.1.octets ++
      writeElements key.namedAlgorithm.2.toList) = some key.namedAlgorithm := by
  refine Key.Info.algorithm?_eq_some_iff.mpr ⟨?_, rfl⟩
  intro parameters present
  cases key with
  | rsa inner =>
    obtain rfl := Option.some.inj present
    exact (Rules.fits_iff (by decide)).mpr (by decide)
  | ec curve point =>
    obtain rfl := Option.some.inj present
    exact (Rules.fits_iff (by decide)).mpr (curve.identifier.length_octets_le.trans_lt (by decide))

theorem isExport_toDer {key : PublicKey} (short : key.toDer.length < keyLimit) :
    key.IsExport key.toDer := by
  have algorithmShort : key.algorithm.length < keyLimit := part_length_lt (by simp) short
  have bitsShort : (0 :: key.subjectPublicKey).length < keyLimit :=
    content_length_lt 0x03 _ (by simp [writeBitString]) short
  have opened : document? key.toDer = some _ := document?_eq_some_iff.mpr ⟨short, rfl⟩
  refine ⟨_, ?_, key.algorithm?_namedAlgorithm⟩
  rw [opened, Option.bind_some, Rules.elements?_eq_some_iff]
  constructor
  · have first := (Rules.fits_iff (by decide : isKeyTag 0x30 = true)).mpr
      ((length_lt_length_write 0x30 _).trans (key.algorithm_eq ▸ algorithmShort))
    have second := (Rules.fits_iff (by decide : isKeyTag 0x03 = true)).mpr bitsShort
    simpa using And.intro first second
  · simp [algorithm_eq, Element.write_eq, writeSequence, writeBitString]

theorem IsExport.unique {key other : PublicKey} {octets : Bytes} (exported : key.IsExport octets)
    (otherExported : other.IsExport octets) :
    key.namedAlgorithm = other.namedAlgorithm ∧ key.subjectPublicKey = other.subjectPublicKey := by
  obtain ⟨algorithm, read, named⟩ := exported
  obtain ⟨otherAlgorithm, otherRead, otherNamed⟩ := otherExported
  rw [read, Option.some.injEq] at otherRead
  simp only [List.cons.injEq, Element.mk.injEq, true_and, and_true] at otherRead
  obtain ⟨rfl, carried⟩ := otherRead
  rw [named, Option.some.injEq] at otherNamed
  exact ⟨otherNamed, carried⟩

/-- The algorithm tells the kind and the curve, so the octets in a certificate tell the key. -/
theorem eq_of_subjectPublicKey {key other : PublicKey}
    (short : key.subjectPublicKey.length < keyLimit) (coordinates : key.HasCoordinates)
    (otherCoordinates : other.HasCoordinates) (named : key.namedAlgorithm = other.namedAlgorithm)
    (carried : key.subjectPublicKey = other.subjectPublicKey) : key = other := by
  have kinds : Oid.rsaEncryption ≠ Oid.ecPublicKey := by decide
  cases key with
  | rsa inner =>
    cases other with
    | rsa otherInner =>
      have numbers := @writeNaturals_inj [inner.modulus, inner.exponent]
        [otherInner.modulus, otherInner.exponent] short carried
      obtain ⟨modulus, exponent⟩ := inner
      obtain ⟨otherModulus, otherExponent⟩ := otherInner
      simp only [List.cons.injEq, and_true] at numbers
      obtain ⟨rfl, rfl⟩ := numbers
      rfl
    | ec otherCurve otherPoint => exact absurd (congrArg Prod.fst named) kinds
  | ec curve point =>
    cases other with
    | rsa otherInner => exact absurd (congrArg Prod.fst named).symm kinds
    | ec otherCurve otherPoint =>
      have identifiers : curve.identifier.octets = otherCurve.identifier.octets := by
        simpa [namedAlgorithm] using named
      obtain rfl := Curve.eq_of_identifier_octets identifiers
      obtain ⟨x, y, rfl, x_lt, y_lt⟩ := coordinates
      obtain ⟨otherX, otherY, rfl, otherX_lt, otherY_lt⟩ := otherCoordinates
      obtain ⟨rfl, rfl⟩ := Curve.Point.uncompressed_inj x_lt y_lt otherX_lt otherY_lt carried
      rfl

/-- Two headers and the octet before the bits are all that an export adds. -/
theorem length_toDer_lt {key : PublicKey}
    (short : key.algorithm.length + key.subjectPublicKey.length + 13 < keyLimit) :
    key.toDer.length < keyLimit := by
  have limit := keyLimit_le
  have bits : (writeBitString key.subjectPublicKey).length ≤ key.subjectPublicKey.length + 7 :=
    length_write_le 0x03 (by rw [List.length_cons]; omega)
  have sum : ([key.algorithm, writeBitString key.subjectPublicKey].map List.length).sum =
      key.algorithm.length + (writeBitString key.subjectPublicKey).length := rfl
  have whole := length_writeSequence_le (sum.trans_lt (by omega))
  rw [toDer]
  omega

end PublicKey

namespace PrivateKey
open Der

theorem hasCoordinates_publicKey (key : PrivateKey) : key.publicKey.HasCoordinates := by
  cases key with
  | rsa inner => trivial
  | ec inner =>
    obtain ⟨x, y, shape⟩ := inner.exists_point
    have here := shape
    rw [Ecdsa.Key.point, Curve.Domain.baseMultiple_eq] at here
    obtain ⟨x_lt, y_lt⟩ := Curve.Domain.lt_of_coordinates here
    have fits := inner.curve.prime_le
    exact ⟨x, y, shape, x_lt.trans_le fits, y_lt.trans_le fits⟩

theorem ofDer?_of_ofInfo {info : Key.Info} {key : Rsa.PrivateKey}
    (accepted : ofInfo info = .ok (rsa key)) : Rsa.PrivateKey.ofDer? info.key = some key := by
  unfold ofInfo at accepted
  split at accepted
  · split at accepted
    · split at accepted
      · rename_i read
        cases accepted
        exact read
      · cases accepted
    · cases accepted
  · split at accepted
    · repeat' split at accepted
      all_goals cases accepted
    · cases accepted

/-- The document of an RSA key holds its modulus and its exponent among other numbers, so the export
is not longer. The export of a key on a curve is short by itself. -/
theorem length_toDer_lt {octets : Bytes} {key : PrivateKey} (accepted : ofDer octets = .ok key) :
    key.publicKey.toDer.length < keyLimit := by
  obtain ⟨info, read, admitted⟩ := ofDer_eq_ok_iff.mp accepted
  obtain ⟨envelope, wellFormed, rfl, rfl⟩ := Key.Info.ofDer?_eq_some_iff.mp read
  have algorithm : key.publicKey.algorithm = envelope.identifier := (algorithm_of_ofInfo admitted).1
  have document := envelope.length_toDer
  have short := wellFormed.short
  apply PublicKey.length_toDer_lt
  rw [algorithm]
  cases key with
  | rsa inner =>
    obtain ⟨numbers, holds, modulus, exponent⟩ :=
      Rsa.PrivateKey.exists_numbers_of_ofDer? (ofDer?_of_ofInfo admitted)
    have content := numbers.length_toDer
    rw [← holds, modulus, exponent] at content
    have limit := keyLimit_le
    have sum : ([writeNatural inner.modulus, writeNatural inner.exponent].map List.length).sum =
        (writeNatural inner.modulus).length + (writeNatural inner.exponent).length := rfl
    have carried : (publicKey (rsa inner)).subjectPublicKey.length ≤
        ([writeNatural inner.modulus, writeNatural inner.exponent].map List.length).sum + 6 :=
      length_writeSequence_le (sum.trans_lt (by omega))
    omega
  | ec inner =>
    obtain ⟨-, narrow, -⟩ := Ecdsa.width_bounds inner.curve
    have carried : (publicKey (ec inner)).subjectPublicKey.length = _ := inner.length_uncompressed
    have identifier : envelope.identifier.length ≤ 100 := by
      rw [← algorithm, publicKey, PublicKey.algorithm]
      cases inner.curve <;> decide
    have limit : 256 ≤ keyLimit := by decide
    omega

end PrivateKey

namespace PublicKey
open Der

/-- The export of a key is a sequence of its algorithm and of the octets that a certificate carries
for it, and two keys of whatever kinds are the same exactly if their exports are. -/
theorem toDer_faithful {octets otherOctets : Bytes} {key other : PrivateKey}
    (accepted : PrivateKey.ofDer octets = .ok key)
    (otherAccepted : PrivateKey.ofDer otherOctets = .ok other) :
    key.publicKey.IsExport key.publicKey.toDer ∧
      (key.publicKey = other.publicKey ↔ key.publicKey.toDer = other.publicKey.toDer) := by
  have short := PrivateKey.length_toDer_lt accepted
  have exported := isExport_toDer short
  have otherExported := isExport_toDer (PrivateKey.length_toDer_lt otherAccepted)
  refine ⟨exported, congrArg toDer, ?_⟩
  intro same
  rw [← same] at otherExported
  obtain ⟨named, carried⟩ := exported.unique otherExported
  have carriedShort : key.publicKey.subjectPublicKey.length < keyLimit :=
    Nat.lt_of_succ_lt (content_length_lt 0x03 (0 :: key.publicKey.subjectPublicKey)
      (by simp [writeBitString]) short)
  exact eq_of_subjectPublicKey carriedShort key.hasCoordinates_publicKey
    other.hasCoordinates_publicKey named carried

/-- A small RSA key and the base point of P-384. -/
theorem toDer_faithful_small :
    let numbers : Rsa.Numbers := ⟨33, 7, 3, 11, 3, 3, 1, 4⟩
    let info : Key.Info := ⟨Oid.rsaEncryption, some ⟨[0x05], []⟩, numbers.toDer⟩
    let document : Ecdsa.Document :=
      ⟨.p384, Bytes.ofNat 48 1, Bytes.length_ofNat _ _, none, none, none⟩
    let key : PrivateKey := .rsa ⟨33, 7, 3, 11, 3, by decide⟩
    let other : PrivateKey := .ec ⟨.p384, 1, by decide, by decide⟩
    PrivateKey.ofDer (info.toDer none) = .ok key ∧ PrivateKey.ofDer document.toDer = .ok other ∧
      key.publicKey.IsExport key.publicKey.toDer ∧ other.publicKey.IsExport other.publicKey.toDer ∧
      key.publicKey.toDer ≠ other.publicKey.toDer := by
  intro numbers info document key other
  have accepted : PrivateKey.ofDer (info.toDer none) = .ok key := by decide +kernel
  have otherAccepted : PrivateKey.ofDer document.toDer = .ok other := by decide +kernel
  have different : key.publicKey ≠ other.publicKey := by
    rintro ⟨⟩
  obtain ⟨exported, same⟩ := toDer_faithful accepted otherAccepted
  exact ⟨accepted, otherAccepted, exported, (toDer_faithful otherAccepted accepted).1,
    fun equal => different (same.mpr equal)⟩

end PublicKey

namespace PrivateKey

/-- Both scalars are below the order of the base point, so different scalars have different points. -/
theorem publicKey_ec_eq_iff (key other : Ecdsa.Key) :
    (ec key).publicKey = (ec other).publicKey ↔
      key.curve = other.curve ∧ key.scalar = other.scalar := by
  constructor
  · intro same
    obtain ⟨curve, scalar, positive, below⟩ := key
    obtain ⟨otherCurve, otherScalar, otherPositive, otherBelow⟩ := other
    simp only [publicKey, PublicKey.ec.injEq] at same
    obtain ⟨rfl, points⟩ := same
    have residues := (curve.baseMultiple_eq_iff scalar otherScalar).mp points
    exact ⟨rfl, Residue.eq_of_cast_eq below otherBelow residues⟩
  · intro same
    rw [Ecdsa.Key.eq_iff.mpr same]

theorem exists_ec_of_publicKey {key : PrivateKey} {curve : Curve} {point : Curve.Point}
    (onCurve : key.publicKey = .ec curve point) : ∃ inner, key = ec inner := by
  cases key with
  | rsa inner => cases onCurve
  | ec inner => exact ⟨inner, rfl⟩

end PrivateKey

namespace Signer

/-- Private keys on curves have the same public key exactly if they have the curve and the scalar in
common. So signers with one public key on a curve sign alike, wherever their keys come from. -/
theorem sign_eq_of_publicKey :
    (∀ key other : Ecdsa.Key, (PrivateKey.ec key).publicKey = (PrivateKey.ec other).publicKey ↔
      key.curve = other.curve ∧ key.scalar = other.scalar) ∧
    (∀ (signer other : Signer) (curve : Curve) (point : Curve.Point),
      signer.publicKey = .ec curve point → other.publicKey = .ec curve point →
      ∀ data hash generator, signer.sign data hash generator = other.sign data hash generator) := by
  refine ⟨PrivateKey.publicKey_ec_eq_iff, ?_⟩
  intro signer other curve point here there
  have same : signer.key.publicKey = other.key.publicKey := here.trans there.symm
  obtain ⟨key, holds⟩ := PrivateKey.exists_ec_of_publicKey here
  obtain ⟨otherKey, otherHolds⟩ := PrivateKey.exists_ec_of_publicKey there
  rw [holds, otherHolds, PrivateKey.publicKey_ec_eq_iff, ← Ecdsa.Key.eq_iff] at same
  intro data hash generator
  rw [sign, holds, same, sign, otherHolds]

/-- A document with the largest scalar on P-521 leads to the same signatures as one that holds the
point as well. -/
theorem sign_eq_of_publicKey_p521 :
    let order := Curve.p521Domain.order
    let point := Curve.p521Domain.baseMultiple (order - 1)
    let document (publicKey : Option Ecdsa.BitString) : Ecdsa.Document :=
      ⟨.p521, Bytes.ofNat 66 (order - 1), Bytes.length_ofNat _ _, none, publicKey, none⟩
    ∃ signer other : Signer, PrivateKey.ofDer (document none).toDer = .ok signer.key ∧
      PrivateKey.ofDer (document (some ⟨0, point.compressed 66⟩)).toDer = .ok other.key ∧
      signer.publicKey = .ec .p521 point ∧ other.publicKey = .ec .p521 point ∧
      signer.sign [] .sha256 (.start []) = other.sign [] .sha256 (.start []) := by
  intro order point document
  let key : PrivateKey := .ec ⟨.p521, order - 1, by decide +kernel, by decide +kernel⟩
  have plain : PrivateKey.ofDer (document none).toDer = .ok key := by decide +kernel
  have named : PrivateKey.ofDer (document (some ⟨0, point.compressed 66⟩)).toDer = .ok key := by
    decide +kernel
  let signer : Signer := ⟨key, ⟨[], [], [], [], []⟩, []⟩
  let other : Signer := ⟨key, ⟨[], [], [], [], []⟩, [⟨[], [], [], [], []⟩]⟩
  exact ⟨signer, other, plain, named, rfl, rfl,
    sign_eq_of_publicKey.2 signer other .p521 point rfl rfl [] .sha256 (.start [])⟩

end Signer
end CredentialSigning
