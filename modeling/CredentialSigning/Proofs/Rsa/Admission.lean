import CredentialSigning.Key.Private
import CredentialSigning.Proofs.Key.Envelope
import Mathlib.Algebra.Ring.Parity
import Mathlib.Data.Nat.ModEq

/-! Which RSA keys are admitted from an envelope. A factor of an odd modulus is at least three, so
nothing is divided by one less than a factor before that is known to be above one. -/

namespace CredentialSigning

namespace Der

/-- A non-negative INTEGER. -/
def Element.ofNatural (value : Nat) : Element :=
  ⟨[0x02], naturalOctets value⟩

theorem writeElements_ofNatural (values : List Nat) :
    writeElements (values.map Element.ofNatural) = (values.map writeNatural).flatten := by
  rw [writeElements, List.map_map]
  rfl

/-- Written numbers are read back, however many there are. -/
theorem mapM_natural?_ofNatural (values : List Nat) :
    (values.map Element.ofNatural).mapM (fun field => natural? field.content) = some values := by
  induction values with
  | nil => rfl
  | cons value values hypothesis =>
    rw [List.map_cons, List.mapM_cons, hypothesis, Element.ofNatural, natural?_naturalOctets]
    rfl

/-- Fields that are read as numbers are written numbers. -/
theorem eq_map_ofNatural_of_mapM {fields : List Element} {values : List Nat}
    (integers : ∀ field ∈ fields, field.tag = [0x02])
    (read : fields.mapM (fun field => natural? field.content) = some values) :
    fields = values.map Element.ofNatural := by
  induction fields generalizing values with
  | nil =>
    cases read
    rfl
  | cons field fields hypothesis =>
    simp only [List.mapM_cons, Option.bind_eq_bind, Option.bind_eq_some_iff] at read
    obtain ⟨value, first, rest, later, made⟩ := read
    cases made
    obtain ⟨tag, content⟩ := field
    obtain rfl : tag = [0x02] := integers _ List.mem_cons_self
    obtain rfl := natural?_eq_some_iff.mp first
    rw [hypothesis (fun other member => integers other (List.mem_cons_of_mem _ member)) later]
    rfl

theorem elements?_writeNaturals {values : List Nat}
    (short : (writeSequence (values.map writeNatural)).length < keyLimit) :
    Rules.key.elements? (values.map writeNatural).flatten = some (values.map Element.ofNatural) := by
  refine Rules.elements?_eq_some_iff.mpr ⟨?_, (writeElements_ofNatural values).symm⟩
  intro element member
  obtain ⟨value, among, rfl⟩ := List.mem_map.mp member
  have part : write 0x02 (naturalOctets value) ∈ values.map writeNatural :=
    List.mem_map_of_mem among
  exact (Rules.fits_iff (by decide)).mpr (content_length_lt 0x02 (naturalOctets value) part short)

end Der

namespace Rsa
open Der

/-- The numbers of a private key with two factors, in the order they are written in. -/
structure Numbers where
  modulus : Nat
  exponent : Nat
  secret : Nat
  p : Nat
  q : Nat
  exponentP : Nat
  exponentQ : Nat
  coefficient : Nat

namespace Numbers

/-- The numbers after the version. -/
def values (numbers : Numbers) : List Nat :=
  [0, numbers.modulus, numbers.exponent, numbers.secret, numbers.p, numbers.q, numbers.exponentP,
    numbers.exponentQ, numbers.coefficient]

def toDer (numbers : Numbers) : Bytes :=
  writeSequence (numbers.values.map writeNatural)

/-- The last three numbers may be any. -/
structure IsValid (numbers : Numbers) : Prop where
  product : numbers.modulus = numbers.p * numbers.q
  factor_p : 2 ≤ numbers.p
  factor_q : 2 ≤ numbers.q
  odd_modulus : Odd numbers.modulus
  odd_exponent : Odd numbers.exponent
  exponent_above : 3 ≤ numbers.exponent
  exponent_below : numbers.exponent < 2 ^ 33
  exponent_below_modulus : numbers.exponent < numbers.modulus
  inverse_p : numbers.secret * numbers.exponent ≡ 1 [MOD numbers.p - 1]
  inverse_q : numbers.secret * numbers.exponent ≡ 1 [MOD numbers.q - 1]

end Numbers

/-- One is its own remainder by one less than a factor above two. -/
theorem modEq_one_sub_one_iff {factor : Nat} (odd : Odd factor) (above : 2 ≤ factor) (value : Nat) :
    value ≡ 1 [MOD factor - 1] ↔ value % (factor - 1) = 1 := by
  have three : 3 ≤ factor := by
    obtain ⟨half, rfl⟩ := odd
    omega
  have one : 1 % (factor - 1) = 1 := Nat.mod_eq_of_lt (by omega)
  rw [Nat.ModEq, one]

theorem Numbers.isValid_iff (numbers : Numbers) :
    numbers.IsValid ↔ Admissible numbers.modulus numbers.exponent numbers.secret numbers.p
      numbers.q := by
  have factors : numbers.modulus = numbers.p * numbers.q → Odd numbers.modulus →
      Odd numbers.p ∧ Odd numbers.q := by
    intro product odd
    rw [product] at odd
    exact Nat.odd_mul.mp odd
  have limit : 1 <<< 33 = 2 ^ 33 := by decide
  constructor
  · intro valid
    obtain ⟨oddP, oddQ⟩ := factors valid.product valid.odd_modulus
    exact {
      odd_modulus := Nat.odd_iff.mp valid.odd_modulus
      odd_exponent := Nat.odd_iff.mp valid.odd_exponent
      exponent_above := valid.exponent_above
      exponent_below := limit ▸ valid.exponent_below
      exponent_below_modulus := valid.exponent_below_modulus
      factor_p := valid.factor_p
      factor_q := valid.factor_q
      product := valid.product.symm
      inverse_p := (modEq_one_sub_one_iff oddP valid.factor_p _).mp valid.inverse_p
      inverse_q := (modEq_one_sub_one_iff oddQ valid.factor_q _).mp valid.inverse_q }
  · intro admissible
    have odd := Nat.odd_iff.mpr admissible.odd_modulus
    obtain ⟨oddP, oddQ⟩ := factors admissible.product.symm odd
    exact {
      product := admissible.product.symm
      factor_p := admissible.factor_p
      factor_q := admissible.factor_q
      odd_modulus := odd
      odd_exponent := Nat.odd_iff.mpr admissible.odd_exponent
      exponent_above := admissible.exponent_above
      exponent_below := limit ▸ admissible.exponent_below
      exponent_below_modulus := admissible.exponent_below_modulus
      inverse_p := (modEq_one_sub_one_iff oddP admissible.factor_p _).mpr admissible.inverse_p
      inverse_q := (modEq_one_sub_one_iff oddQ admissible.factor_q _).mpr admissible.inverse_q }

/-- Whatever the numbers are, a verdict is reached: nothing is divided by zero. -/
theorem isSome_verdict? (modulus exponent secret p q : Nat) :
    (verdict? modulus exponent secret p q).isSome = true := by
  unfold verdict?
  split
  · rename_i earlier
    obtain ⟨-, -, -, -, -, factorP, factorQ, -⟩ := earlier
    rw [remainder?_sub_one factorP, remainder?_sub_one factorQ, Option.bind_eq_bind,
      Option.bind_some]
    split
    · rfl
    · rfl
  · rfl

namespace PrivateKey

/-- The numbers decide about a private key, which keeps those that are used. -/
theorem ofDer?_numbers (numbers : Numbers) (short : numbers.toDer.length < keyLimit) :
    ofDer? numbers.toDer =
      if admissible : Admissible numbers.modulus numbers.exponent numbers.secret numbers.p numbers.q
      then some ⟨numbers.modulus, numbers.exponent, numbers.secret, numbers.p, numbers.q, admissible⟩
      else none := by
  have opened : Rules.key.whole? 0x30 numbers.toDer = some (numbers.values.map writeNatural).flatten :=
    Rules.whole?_writeSequence short
  have fields := elements?_writeNaturals short
  have allIntegers : (numbers.values.map Element.ofNatural).all (·.tag = [0x02]) = true := by
    simp [Element.ofNatural]
  have read := mapM_natural?_ofNatural numbers.values
  simp only [ofDer?, opened, fields, allIntegers, read, Option.bind_eq_bind, Option.bind_some, if_true]
  rfl

/-- A private key is read from written numbers, some of which it keeps. -/
theorem exists_numbers_of_ofDer? {octets : Bytes} {key : PrivateKey}
    (read : ofDer? octets = some key) : ∃ numbers : Numbers, octets = numbers.toDer ∧
      numbers.modulus = key.modulus ∧ numbers.exponent = key.exponent := by
  simp only [ofDer?, Option.bind_eq_bind] at read
  obtain ⟨content, whole, read⟩ := Option.bind_eq_some_iff.mp read
  obtain ⟨fields, split, read⟩ := Option.bind_eq_some_iff.mp read
  split at read
  · rename_i integers
    obtain ⟨values, numbered, read⟩ := Option.bind_eq_some_iff.mp read
    split at read
    · rename_i modulus exponent secret p q exponentP exponentQ coefficient
      split at read
      · cases read
        let numbers : Numbers :=
          ⟨modulus, exponent, secret, p, q, exponentP, exponentQ, coefficient⟩
        have tags : ∀ field ∈ fields, field.tag = [0x02] := by
          simpa using integers
        have written : fields = numbers.values.map Element.ofNatural :=
          eq_map_ofNatural_of_mapM tags numbered
        have outer := ((Rules.whole?_eq_some_iff (by decide)).mp whole).2
        have inner := (Rules.elements?_eq_some_iff.mp split).2
        rw [written, writeElements_ofNatural] at inner
        exact ⟨numbers, by rw [outer, inner]; rfl, rfl, rfl⟩
      · cases read
    · cases read
  · cases read

end PrivateKey
end Rsa

namespace PrivateKey
open Rsa

/-- An envelope of an RSA key, with any attributes, is admitted exactly if the numbers inside are
valid. The key is then an RSA key with the modulus and the exponent, and otherwise it is refused as
an RSA key. No numbers lead to a division by zero. -/
theorem ofDer_rsa_iff {envelope : Key.Envelope} (wellFormed : envelope.IsWellFormed)
    (algorithm : envelope.info.algorithm = Oid.rsaEncryption)
    (parameters : envelope.info.parameters = some ⟨[0x05], []⟩) (numbers : Numbers)
    (holds : envelope.info.key = numbers.toDer) :
    ((∃ key, ofDer envelope.toDer = .ok key) ↔ numbers.IsValid) ∧
    (∀ key, ofDer envelope.toDer = .ok key →
      (∃ inner, key = .rsa inner) ∧ key.publicKey = .rsa ⟨numbers.modulus, numbers.exponent⟩) ∧
    (¬numbers.IsValid → ofDer envelope.toDer = .error (.invalidCredential .rsaKey)) ∧
    (verdict? numbers.modulus numbers.exponent numbers.secret numbers.p numbers.q).isSome = true := by
  have short : numbers.toDer.length < Der.keyLimit := by
    rw [← holds]
    exact Der.content_length_lt 0x04 envelope.info.key (by simp) wellFormed.short
  have inner := Rsa.PrivateKey.ofDer?_numbers numbers short
  have read := Key.Info.ofDer?_envelope wellFormed
  simp only [ofDer, read, ofInfo, if_pos algorithm, if_pos parameters, holds, inner]
  have decided := isSome_verdict? numbers.modulus numbers.exponent numbers.secret numbers.p numbers.q
  by_cases valid : numbers.IsValid
  · rw [dif_pos (numbers.isValid_iff.mp valid)]
    refine ⟨⟨fun _ => valid, fun _ => ⟨_, rfl⟩⟩, ?_, fun invalid => absurd valid invalid, decided⟩
    rintro _ ⟨⟩
    exact ⟨⟨_, rfl⟩, rfl⟩
  · rw [dif_neg fun admissible => valid (numbers.isValid_iff.mpr admissible)]
    refine ⟨⟨?_, fun invalid => absurd invalid valid⟩, ?_, fun _ => rfl, decided⟩
    · rintro ⟨_, ⟨⟩⟩
    · rintro _ ⟨⟩

/-- A modulus of eleven times three is admitted, a modulus of itself times one is not, in an envelope
with an attribute. -/
theorem ofDer_rsa_thirty_three :
    let envelope (numbers : Numbers) : Key.Envelope :=
      ⟨⟨Oid.rsaEncryption, some ⟨[0x05], []⟩, numbers.toDer⟩, [⟨[0xa0], [0x31, 0x00]⟩], none, []⟩
    (∃ key, ofDer (envelope ⟨33, 7, 3, 11, 3, 3, 1, 4⟩).toDer = .ok key) ∧
      ofDer (envelope ⟨33, 7, 3, 33, 1, 0, 0, 0⟩).toDer = .error (.invalidCredential .rsaKey) := by
  intro envelope
  have wellFormed (numbers : Numbers) (short : (envelope numbers).toDer.length < Der.keyLimit) :
      (envelope numbers).IsWellFormed := by
    refine ⟨?_, ?_, by simp [envelope], by simp [envelope], short⟩
    · rintro _ ⟨⟩
      exact ⟨0x05, rfl, by decide⟩
    · intro element member
      obtain rfl := List.mem_singleton.mp member
      exact ⟨0xa0, rfl, by decide⟩
  have valid : (⟨33, 7, 3, 11, 3, 3, 1, 4⟩ : Numbers).IsValid := by
    rw [Numbers.isValid_iff]
    decide
  have invalid : ¬(⟨33, 7, 3, 33, 1, 0, 0, 0⟩ : Numbers).IsValid := by
    rw [Numbers.isValid_iff]
    decide
  have admitted := ofDer_rsa_iff (wellFormed ⟨33, 7, 3, 11, 3, 3, 1, 4⟩ (by decide)) rfl rfl _ rfl
  have refused := ofDer_rsa_iff (wellFormed ⟨33, 7, 3, 33, 1, 0, 0, 0⟩ (by decide)) rfl rfl _ rfl
  exact ⟨admitted.1.mpr valid, refused.2.2.1 invalid⟩

end PrivateKey
end CredentialSigning
