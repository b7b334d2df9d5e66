import CredentialSigning.Der.Rules
import CredentialSigning.Der.Written
import CredentialSigning.Proofs.Octets

/-! What is written under the rules for keys is read back: lengths, elements, numbers and bit
strings. No value may be longer than the reader takes. -/

namespace CredentialSigning.Der

def Element.write (element : Element) : Bytes :=
  element.tag ++ writeLength element.content.length ++ element.content

/-- The tag is one octet that keys may use. -/
def Element.HasKeyTag (element : Element) : Prop :=
  ∃ tag, element.tag = [tag] ∧ isKeyTag tag = true

theorem keyLimit_le : keyLimit ≤ 256 ^ 4 := by
  decide

/-- A length below the limit is read, whatever follows it. -/
theorem shortestLength?_writeLength {limit size : Nat} (bounded : limit ≤ 256 ^ 4)
    (short : size < limit) (rest : Bytes) :
    shortestLength? limit (writeLength size ++ rest) = some (size, rest) := by
  unfold shortestLength?
  by_cases small : size < 0x80
  · have first : (UInt8.ofNat size).toNat = size := by
      rw [UInt8.toNat_ofNat']
      omega
    have below : UInt8.ofNat size < 0x80 := by
      rw [UInt8.lt_iff_toNat_lt, first]
      exact small
    simp only [writeLength, if_pos small, List.singleton_append, definiteLength?, if_pos below, first]
  · have count : (Bytes.minimal size).length ≤ 4 :=
      Bytes.length_minimal_le (by decide) (short.trans_le bounded)
    have first : (UInt8.ofNat (0x80 + (Bytes.minimal size).length)).toNat =
        0x80 + (Bytes.minimal size).length := by
      rw [UInt8.toNat_ofNat']
      omega
    have above : ¬UInt8.ofNat (0x80 + (Bytes.minimal size).length) < 0x80 := by
      rw [UInt8.lt_iff_toNat_lt, first]
      exact Nat.not_lt.mpr (Nat.le_add_right _ _)
    have least : 1 <<< (8 * ((Bytes.minimal size).length - 1)) ≤ size := by
      rw [Nat.shiftLeft_eq, Nat.one_mul, pow_mul]
      exact Bytes.pow_le_of_minimal (by omega)
    have nonempty : 1 ≤ (Bytes.minimal size).length := by
      rw [Bytes.length_minimal]
      omega
    simp only [writeLength, if_neg small, List.cons_append, definiteLength?, if_neg above, first,
      Nat.add_sub_cancel_left, List.take_left, List.drop_left, List.length_append,
      Bytes.toNat_minimal]
    rw [if_pos]
    refine ⟨Nat.le_add_right _ _, ?_⟩
    simp only [Bool.and_eq_true, decide_eq_true_eq]
    exact ⟨⟨⟨⟨nonempty, count⟩, by omega⟩, least⟩, short⟩

namespace Rules

/-- An element is found where the rules split off its identifier and then its length. -/
theorem element?_of_parts {rules : Rules} {octets tag after content rest : Bytes}
    (header : rules.tag? octets = some (tag, after))
    (size : rules.length? after = some (content.length, content ++ rest)) :
    rules.element? octets = some (⟨tag, content⟩, rest) := by
  simp only [element?, header, size, Option.bind_eq_bind, Option.bind_some, List.length_append,
    List.take_left, List.drop_left, if_pos (Nat.le_add_right _ _)]

theorem element?_write {tag : UInt8} (isTag : isKeyTag tag = true) {content : Bytes}
    (short : content.length < keyLimit) (rest : Bytes) :
    key.element? (write tag content ++ rest) = some (⟨[tag], content⟩, rest) := by
  have header : key.tag? (write tag content ++ rest) =
      some ([tag], writeLength content.length ++ (content ++ rest)) := by
    simp only [write, List.cons_append, List.append_assoc, key, isTag, if_true]
  have size : key.length? (writeLength content.length ++ (content ++ rest)) =
      some (content.length, content ++ rest) :=
    shortestLength?_writeLength keyLimit_le short _
  exact element?_of_parts header size

theorem take?_write {tag : UInt8} (isTag : isKeyTag tag = true) {content : Bytes}
    (short : content.length < keyLimit) (rest : Bytes) :
    key.take? tag (write tag content ++ rest) = some (content, rest) := by
  simp [take?, element?_write isTag short]

theorem whole?_write {tag : UInt8} (isTag : isKeyTag tag = true) {content : Bytes}
    (short : content.length < keyLimit) : key.whole? tag (write tag content) = some content := by
  have element := take?_write isTag short []
  rw [List.append_nil] at element
  simp [whole?, element]

end Rules

theorem add_two_le_length_write (tag : UInt8) (content : Bytes) :
    content.length + 2 ≤ (write tag content).length := by
  have header : 1 ≤ (writeLength content.length).length := by
    unfold writeLength
    split
    · exact Nat.le_refl 1
    · exact Nat.le_add_left 1 _
  simp only [write, List.cons_append, List.length_cons, List.length_append]
  omega

theorem length_lt_length_write (tag : UInt8) (content : Bytes) :
    content.length < (write tag content).length := by
  have header := add_two_le_length_write tag content
  omega

/-- A length below 128 takes one octet. -/
theorem length_write_of_lt (tag : UInt8) {content : Bytes} (short : content.length < 0x80) :
    (write tag content).length = content.length + 2 := by
  simp [write, writeLength, short]

/-- A length below 256 takes at most two octets. -/
theorem length_write_le_of_lt (tag : UInt8) {content : Bytes} (short : content.length < 0x100) :
    (write tag content).length ≤ content.length + 3 := by
  have single : (Bytes.minimal content.length).length ≤ 1 :=
    Bytes.length_minimal_le (by decide) (by simpa using short)
  have header : (writeLength content.length).length ≤ 2 := by
    unfold writeLength
    split
    · exact Nat.le_succ 1
    · rw [List.length_cons]
      omega
  simp only [write, List.cons_append, List.length_cons, List.length_append]
  omega

/-- A length that fits four octets takes at most five. -/
theorem length_write_le (tag : UInt8) {content : Bytes} (short : content.length < 256 ^ 4) :
    (write tag content).length ≤ content.length + 6 := by
  have count : (Bytes.minimal content.length).length ≤ 4 := Bytes.length_minimal_le (by decide) short
  have header : (writeLength content.length).length ≤ 5 := by
    unfold writeLength
    split
    · exact Nat.succ_le_succ (Nat.zero_le 4)
    · rw [List.length_cons]
      omega
  simp only [write, List.cons_append, List.length_cons, List.length_append]
  omega

theorem add_two_le_length_writeSequence (parts : List Bytes) :
    (parts.map List.length).sum + 2 ≤ (writeSequence parts).length := by
  rw [← List.length_flatten]
  exact add_two_le_length_write 0x30 parts.flatten

theorem length_writeSequence_le {parts : List Bytes}
    (short : (parts.map List.length).sum < 256 ^ 4) :
    (writeSequence parts).length ≤ (parts.map List.length).sum + 6 := by
  rw [← List.length_flatten] at short ⊢
  exact length_write_le 0x30 short

theorem part_length_lt {part : Bytes} {parts : List Bytes} (member : part ∈ parts)
    (short : (writeSequence parts).length < keyLimit) : part.length < keyLimit := by
  have bound := (List.sublist_flatten_of_mem member).length_le
  have outer := length_lt_length_write 0x30 parts.flatten
  exact bound.trans_lt (outer.trans short)

theorem content_length_lt (tag : UInt8) (content : Bytes) {parts : List Bytes}
    (member : write tag content ∈ parts) (short : (writeSequence parts).length < keyLimit) :
    content.length < keyLimit :=
  (length_lt_length_write tag content).trans (part_length_lt member short)

theorem Rules.whole?_writeSequence {parts : List Bytes}
    (short : (writeSequence parts).length < keyLimit) :
    key.whole? 0x30 (writeSequence parts) = some parts.flatten :=
  whole?_write (by decide) ((length_lt_length_write 0x30 parts.flatten).trans short)

theorem naturalOctets_eq (value : Nat) :
    naturalOctets value = Bytes.minimal value ∧ (Bytes.minimal value).headD 0x80 < 0x80 ∨
      naturalOctets value = 0 :: Bytes.minimal value ∧
        ∃ first rest, Bytes.minimal value = first :: rest ∧ 0x80 ≤ first := by
  have nonempty : Bytes.minimal value ≠ [] := by
    intro empty
    have length := Bytes.length_minimal value
    rw [empty] at length
    simp at length
  obtain ⟨first, rest, split⟩ := List.exists_cons_of_ne_nil nonempty
  rw [naturalOctets, split, List.headD_cons]
  by_cases below : first < 0x80
  · simp [below]
  · right
    rw [if_neg below]
    exact ⟨rfl, first, rest, rfl, UInt8.not_lt.mp below⟩

@[simp] theorem toNat_naturalOctets (value : Nat) :
    (naturalOctets value).toNat = value := by
  rcases naturalOctets_eq value with ⟨plain, -⟩ | ⟨padded, -⟩
  · rw [plain, Bytes.toNat_minimal]
  · rw [padded, Bytes.toNat_zero_cons, Bytes.toNat_minimal]

theorem one_le_length_naturalOctets (value : Nat) : 1 ≤ (naturalOctets value).length := by
  have least := Bytes.length_minimal value
  rcases naturalOctets_eq value with ⟨plain, -⟩ | ⟨padded, -⟩
  · rw [plain]
    omega
  · rw [padded, List.length_cons]
    omega

theorem three_le_length_writeNatural (value : Nat) : 3 ≤ (writeNatural value).length := by
  have content := one_le_length_naturalOctets value
  have header := add_two_le_length_write 0x02 (naturalOctets value)
  rw [writeNatural]
  omega

/-- The highest bit of the octets is not part of the number. -/
theorem length_naturalOctets_le {value width : Nat} (positive : 0 < width)
    (fits : value < 128 * 256 ^ (width - 1)) : (naturalOctets value).length ≤ width := by
  have split : 256 ^ width = 256 * 256 ^ (width - 1) := by
    rw [← pow_succ', Nat.sub_add_cancel positive]
  rcases naturalOctets_eq value with ⟨plain, -⟩ | ⟨padded, first, rest, shape, set⟩
  · rw [plain]
    apply Bytes.length_minimal_le positive
    omega
  · have high : 128 ≤ first.toNat := UInt8.le_iff_toNat_le.mp set
    have number := Bytes.toNat_minimal value
    rw [shape, Bytes.toNat_cons] at number
    have large : 128 * 256 ^ rest.length ≤ value :=
      (Nat.mul_le_mul_right _ high).trans (number ▸ Nat.le_add_right _ _)
    have fewer : rest.length < width - 1 := by
      by_contra longer
      have wider : 256 ^ (width - 1) ≤ 256 ^ rest.length :=
        Nat.pow_le_pow_right (by decide) (by omega)
      omega
    rw [padded, shape, List.length_cons, List.length_cons]
    omega

/-- A number is written without a superfluous octet and with its sign bit clear. -/
theorem natural?_naturalOctets (value : Nat) : natural? (naturalOctets value) = some value := by
  have number := toNat_naturalOctets value
  unfold natural?
  rw [if_pos, number]
  rcases naturalOctets_eq value with ⟨plain, clear⟩ | ⟨padded, first, rest, split, set⟩
  · rw [plain]
    refine ⟨?_, clear⟩
    match shape : Bytes.minimal value with
    | [] => simp [shape] at clear
    | [_] => rfl
    | first :: second :: rest =>
      have nonzero := Bytes.head_minimal_ne_zero shape
      rw [shape, List.headD_cons] at clear
      have unsigned : first ≠ 0xff := by
        intro same
        rw [same] at clear
        exact absurd clear (by decide)
      simp [isMinimalInteger, nonzero, unsigned]
  · rw [padded, split]
    have wide : ¬first < 0x80 := UInt8.not_lt.mpr set
    refine ⟨?_, ?_⟩
    · simp [isMinimalInteger, wide]
    · rw [List.headD_cons]
      decide

end CredentialSigning.Der
