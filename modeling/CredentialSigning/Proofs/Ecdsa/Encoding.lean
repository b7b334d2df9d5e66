import CredentialSigning.Ecdsa.Signature
import CredentialSigning.Proofs.Der.Canonical

/-! Signatures as octets: a pair of scalars has one written form, the reader takes that form only,
and how long it can be on each curve. -/

namespace CredentialSigning.Ecdsa.Signature
open Der

/-- The most octets of a scalar as an INTEGER. On P-256 and P-384 one of them is there for the sign. -/
def scalarLength : Curve → Nat
  | .p256 => 33
  | .p384 => 49
  | .p521 => 66

/-- The most octets of a signature. On P-521 its length may take two octets. -/
def greatestLength : Curve → Nat
  | .p256 => 72
  | .p384 => 104
  | .p521 => 139

theorem order_le (curve : Curve) :
    curve.domain.order ≤ 128 * 256 ^ (scalarLength curve - 1) := by
  cases curve <;> decide

theorem length_writeNatural {curve : Curve} {scalar : Nat} (below : scalar < curve.domain.order) :
    3 ≤ (writeNatural scalar).length ∧ (writeNatural scalar).length ≤ scalarLength curve + 2 := by
  have bounds : 0 < scalarLength curve ∧ scalarLength curve < 0x80 := by
    cases curve <;> decide
  have most := length_naturalOctets_le bounds.1 (below.trans_le (order_le curve))
  have whole := length_write_of_lt 0x02 (most.trans_lt bounds.2)
  refine ⟨three_le_length_writeNatural scalar, ?_⟩
  rw [writeNatural, whole]
  exact Nat.add_le_add_right most 2

theorem length_write {curve : Curve} {signature : Signature}
    (isFor : signature.IsFor curve.domain.order) :
    8 ≤ signature.write.length ∧ signature.write.length ≤ greatestLength curve := by
  have first := length_writeNatural isFor.2.1
  have second := length_writeNatural isFor.2.2.2
  have content : [writeNatural signature.r, writeNatural signature.s].flatten.length =
      (writeNatural signature.r).length + (writeNatural signature.s).length := by
    simp only [List.flatten_cons, List.flatten_nil, List.append_nil, List.length_append]
  have header := add_two_le_length_write 0x30 [writeNatural signature.r, writeNatural signature.s].flatten
  constructor
  · rw [write, writeSequence]
    omega
  · -- only on P-521 do two scalars leave the short form of the length
    cases curve with
    | p256 =>
      simp only [scalarLength] at first second
      rw [write, writeSequence, length_write_of_lt _ (by omega), content, greatestLength]
      omega
    | p384 =>
      simp only [scalarLength] at first second
      rw [write, writeSequence, length_write_of_lt _ (by omega), content, greatestLength]
      omega
    | p521 =>
      simp only [scalarLength] at first second
      apply (length_write_le_of_lt 0x30 (by omega)).trans
      rw [content, greatestLength]
      omega

theorem length_write_lt {curve : Curve} {signature : Signature}
    (isFor : signature.IsFor curve.domain.order) : signature.write.length < keyLimit := by
  have limit : greatestLength curve < keyLimit := by
    cases curve <;> decide
  exact (length_write isFor).2.trans_lt limit

theorem read?_write (curve : Curve) {signature : Signature}
    (isFor : signature.IsFor curve.domain.order) :
    read? curve.domain.order signature.write = some signature := by
  have short := length_write_lt isFor
  have opened : Rules.key.whole? 0x30 signature.write = some _ := Rules.whole?_writeSequence short
  have first : ∀ rest, Rules.key.take? 0x02 (writeNatural signature.r ++ rest) =
      some (naturalOctets signature.r, rest) :=
    Rules.take?_write (by decide) (content_length_lt 0x02 _ (by simp [writeNatural]) short)
  have second : ∀ rest, Rules.key.take? 0x02 (writeNatural signature.s ++ rest) =
      some (naturalOctets signature.s, rest) :=
    Rules.take?_write (by decide) (content_length_lt 0x02 _ (by simp [writeNatural]) short)
  simp only [read?, opened, List.flatten_cons, List.flatten_nil, first, second,
    natural?_naturalOctets, Option.bind_eq_bind, Option.bind_some, isFor, and_self, if_true]

/-- Every step of the reader leaves one way to write what it has read. -/
theorem eq_write_of_read? {order : Nat} {octets : Bytes} {signature : Signature}
    (read : read? order octets = some signature) :
    signature.IsFor order ∧ octets = signature.write := by
  simp only [read?, Option.bind_eq_bind] at read
  obtain ⟨content, whole, read⟩ := Option.bind_eq_some_iff.mp read
  obtain ⟨⟨first, later⟩, inContent, read⟩ := Option.bind_eq_some_iff.mp read
  obtain ⟨⟨second, rest⟩, inLater, read⟩ := Option.bind_eq_some_iff.mp read
  obtain ⟨r, firstNumber, read⟩ := Option.bind_eq_some_iff.mp read
  obtain ⟨s, secondNumber, read⟩ := Option.bind_eq_some_iff.mp read
  simp only at inLater firstNumber secondNumber read
  split at read
  · rename_i conditions
    obtain ⟨nothing, isFor⟩ := conditions
    obtain rfl := Option.some.inj read
    refine ⟨isFor, ?_⟩
    have outer := ((Rules.whole?_eq_some_iff (by decide)).mp whole).2
    have one := ((Rules.take?_eq_some_iff (by decide)).mp inContent).2
    have two := ((Rules.take?_eq_some_iff (by decide)).mp inLater).2
    rw [natural?_eq_some_iff.mp firstNumber] at one
    rw [natural?_eq_some_iff.mp secondNumber, nothing] at two
    rw [outer, one, two]
    rfl
  · cases read

/-- A signature has one written form, which is read back, and nothing else is read: no superfluous
octet in an integer or a length, no scalar that is negative, zero or too large, and nothing after
the scalars or after the sequence. The form has from eight octets up to a bound for each curve. -/
theorem read?_canonical (curve : Curve) :
    (∀ octets signature, read? curve.domain.order octets = some signature ↔
      signature.IsFor curve.domain.order ∧ octets = signature.write) ∧
    ∀ signature : Signature, signature.IsFor curve.domain.order →
      8 ≤ signature.write.length ∧ signature.write.length ≤ greatestLength curve := by
  refine ⟨?_, fun signature isFor => length_write isFor⟩
  intro octets signature
  constructor
  · exact eq_write_of_read?
  · rintro ⟨isFor, rfl⟩
    exact read?_write curve isFor

/-- The least scalars take eight octets. The greatest ones on P-521 take as many as the bound allows,
in the long form of the length. -/
theorem read?_canonical_p521 :
    let order := Curve.p521.domain.order
    let least : Signature := ⟨1, 1⟩
    let greatest : Signature := ⟨order - 1, order - 1⟩
    least.IsFor order ∧ greatest.IsFor order ∧
      least.write = [0x30, 0x06, 0x02, 0x01, 0x01, 0x02, 0x01, 0x01] ∧
      read? order least.write = some least ∧ read? order greatest.write = some greatest ∧
      8 ≤ least.write.length ∧ greatest.write.length ≤ 139 ∧ greatest.write.length = 139 := by
  intro order least greatest
  have isLeast : least.IsFor order := by decide +kernel
  have isGreatest : greatest.IsFor order := by decide +kernel
  obtain ⟨reads, bounds⟩ := read?_canonical .p521
  exact ⟨isLeast, isGreatest, by decide +kernel, (reads _ _).mpr ⟨isLeast, rfl⟩,
    (reads _ _).mpr ⟨isGreatest, rfl⟩, (bounds least isLeast).1, (bounds greatest isGreatest).2,
    by decide +kernel⟩

end CredentialSigning.Ecdsa.Signature
