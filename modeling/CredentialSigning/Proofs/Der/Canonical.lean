import CredentialSigning.Proofs.Der.Reading

/-! The rules for keys leave one way to write a value: what is read is what would be written, and what
follows it. Together with the reading of written values, every reader accepts exactly what is
written. -/

namespace CredentialSigning

namespace Bytes

/-- Octets whose first one counts are the fewest for their number. -/
theorem minimal_toNat {octets : Bytes} (nonempty : octets ≠ [])
    (least : 256 ^ (octets.length - 1) ≤ toNat octets) : minimal (toNat octets) = octets := by
  have positive : 0 < octets.length := List.length_pos_iff.mpr nonempty
  have upper := length_minimal_le positive (toNat_lt octets)
  have lower : octets.length ≤ (minimal (toNat octets)).length := by
    by_contra shorter
    have value := lt_pow_length_minimal (toNat octets)
    have power : 256 ^ (minimal (toNat octets)).length ≤ 256 ^ (octets.length - 1) :=
      Nat.pow_le_pow_right (by decide) (by omega)
    omega
  have same : (minimal (toNat octets)).length = octets.length := by omega
  rw [length_minimal] at same
  rw [minimal, same, ofNat_toNat]

theorem minimal_toNat_cons {first : UInt8} (nonzero : first ≠ 0) (rest : Bytes) :
    minimal (toNat (first :: rest)) = first :: rest := by
  apply minimal_toNat (List.cons_ne_nil first rest)
  have digit : 1 ≤ first.toNat := by
    rw [Nat.one_le_iff_ne_zero]
    intro zero
    exact nonzero (UInt8.toNat_inj.mp zero)
  rw [List.length_cons, Nat.add_sub_cancel, toNat_cons]
  calc
    256 ^ rest.length = 1 * 256 ^ rest.length := (Nat.one_mul _).symm
    _ ≤ first.toNat * 256 ^ rest.length := Nat.mul_le_mul_right _ digit
    _ ≤ first.toNat * 256 ^ rest.length + toNat rest := Nat.le_add_right _ _

end Bytes

namespace Der

/-- The octets of a number are the only ones with its sign bit clear and none to spare. -/
theorem eq_naturalOctets_of_natural? {content : Bytes} {value : Nat}
    (read : natural? content = some value) : content = naturalOctets value := by
  unfold natural? at read
  split at read
  · rename_i conditions
    obtain ⟨shortest, positive⟩ := conditions
    obtain rfl := Option.some.inj read
    cases content with
    | nil => cases shortest
    | cons first rest =>
      by_cases zero : first = 0
      · subst zero
        cases rest with
        | nil => rfl
        | cons second rest =>
          -- the zero keeps the sign bit clear, which the next octet would set
          have set : ¬second < 0x80 := by simpa [isMinimalInteger] using shortest
          have nonzero : second ≠ 0 := by
            intro nothing
            rw [nothing] at set
            exact set (by decide)
          have same := Bytes.minimal_toNat_cons nonzero rest
          rw [Bytes.toNat_zero_cons, naturalOctets, same, List.headD_cons, if_neg set]
      · have same := Bytes.minimal_toNat_cons zero rest
        rw [List.headD_cons] at positive
        rw [naturalOctets, same, List.headD_cons, if_pos positive]
  · cases read

theorem natural?_eq_some_iff {content : Bytes} {value : Nat} :
    natural? content = some value ↔ content = naturalOctets value := by
  constructor
  · exact eq_naturalOctets_of_natural?
  · rintro rfl
    exact natural?_naturalOctets value

theorem writeLength_toNat {octets : Bytes} (nonempty : octets ≠ [])
    (large : 0x80 ≤ Bytes.toNat octets)
    (least : 256 ^ (octets.length - 1) ≤ Bytes.toNat octets) :
    writeLength (Bytes.toNat octets) = UInt8.ofNat (0x80 + octets.length) :: octets := by
  have long : ¬Bytes.toNat octets < 0x80 := Nat.not_lt.mpr large
  simp only [writeLength, if_neg long, Bytes.minimal_toNat nonempty least]

theorem eq_writeLength_of_shortestLength? {limit size : Nat} {octets rest : Bytes}
    (wide : 0x80 ≤ limit) (read : shortestLength? limit octets = some (size, rest)) :
    size < limit ∧ octets = writeLength size ++ rest := by
  unfold shortestLength? at read
  match octets with
  | [] => cases read
  | first :: tail =>
    simp only [definiteLength?] at read
    split at read
    · rename_i small
      cases read
      have below : first.toNat < 0x80 := UInt8.lt_iff_toNat_lt.mp small
      rw [writeLength, if_pos below, UInt8.ofNat_toNat]
      exact ⟨by omega, rfl⟩
    · rename_i large
      have above : 0x80 ≤ first.toNat := Nat.not_lt.mp fun below =>
        large (UInt8.lt_iff_toNat_lt.mpr below)
      split at read
      · rename_i accepted
        obtain ⟨present, counts⟩ := accepted
        simp only [Option.some.injEq, Prod.mk.injEq] at read
        simp only [Bool.and_eq_true, decide_eq_true_eq] at counts
        obtain ⟨rfl, rfl⟩ := read
        obtain ⟨⟨⟨⟨one, -⟩, needed⟩, least⟩, short⟩ := counts
        have length : (tail.take (first.toNat - 0x80)).length = first.toNat - 0x80 :=
          List.length_take_of_le present
        have nonempty : tail.take (first.toNat - 0x80) ≠ [] := List.length_pos_iff.mp (by omega)
        have digits : 256 ^ ((tail.take (first.toNat - 0x80)).length - 1) ≤
            Bytes.toNat (tail.take (first.toNat - 0x80)) := by
          rw [length]
          rw [Nat.one_shiftLeft, Nat.pow_mul] at least
          exact least
        have written := writeLength_toNat nonempty needed digits
        rw [length, Nat.add_sub_cancel' above, UInt8.ofNat_toNat] at written
        rw [written, List.cons_append, List.take_append_drop]
        exact ⟨short, rfl⟩
      · cases read

/-- A tag that keys may use, and a content below the limit. -/
structure Element.Fits (element : Element) : Prop where
  tag : element.HasKeyTag
  short : element.content.length < keyLimit

theorem Element.write_eq (tag : UInt8) (content : Bytes) :
    Element.write ⟨[tag], content⟩ = Der.write tag content :=
  rfl

theorem Element.two_le_length_write {element : Element} (fits : element.HasKeyTag) :
    2 ≤ element.write.length := by
  obtain ⟨_, content⟩ := element
  obtain ⟨tag, rfl, -⟩ := fits
  have header := add_two_le_length_write tag content
  rw [Element.write_eq]
  omega

namespace Rules

theorem element?_eq_some_iff {octets rest : Bytes} {element : Element} :
    key.element? octets = some (element, rest) ↔
      element.Fits ∧ octets = element.write ++ rest := by
  constructor
  · intro read
    match octets with
    | [] => cases read
    | tag :: tail =>
      simp only [element?, key] at read
      by_cases isTag : isKeyTag tag = true
      · rw [if_pos isTag, Option.bind_eq_bind, Option.bind_some] at read
        obtain ⟨⟨size, after⟩, length, read⟩ := Option.bind_eq_some_iff.mp read
        simp only at length read
        obtain ⟨short, header⟩ := eq_writeLength_of_shortestLength? (by decide) length
        split at read
        · rename_i present
          cases read
          have exact : (after.take size).length = size := List.length_take_of_le present
          refine ⟨⟨⟨tag, rfl, isTag⟩, exact.trans_lt short⟩, ?_⟩
          rw [Element.write_eq, write, header, exact, List.cons_append, List.cons_append,
            List.append_assoc, List.take_append_drop]
        · cases read
      · rw [if_neg isTag] at read
        cases read
  · rintro ⟨⟨⟨tag, named, isTag⟩, short⟩, rfl⟩
    obtain ⟨_, content⟩ := element
    obtain rfl := named
    exact element?_write isTag short rest

theorem only?_eq_some_iff {octets : Bytes} {element : Element} :
    key.only? octets = some element ↔ element.Fits ∧ octets = element.write := by
  have read := @element?_eq_some_iff octets [] element
  rw [List.append_nil] at read
  rw [← read, only?, Option.bind_eq_bind, Option.bind_eq_some_iff]
  constructor
  · rintro ⟨⟨found, rest⟩, here, only⟩
    simp only at only
    split at only
    · rename_i nothing
      cases only
      rw [here, nothing]
    · cases only
  · intro here
    exact ⟨(element, []), here, if_pos rfl⟩

section Tag

variable {tag : UInt8} (isTag : isKeyTag tag = true)
include isTag

theorem fits_iff {content : Bytes} :
    Element.Fits ⟨[tag], content⟩ ↔ content.length < keyLimit :=
  ⟨Element.Fits.short, fun short => ⟨⟨tag, rfl, isTag⟩, short⟩⟩

theorem take?_eq_some_iff {octets content rest : Bytes} :
    key.take? tag octets = some (content, rest) ↔
      content.length < keyLimit ∧ octets = write tag content ++ rest := by
  rw [← fits_iff isTag, ← Element.write_eq, ← element?_eq_some_iff, take?, Option.bind_eq_bind,
    Option.bind_eq_some_iff]
  constructor
  · rintro ⟨⟨⟨named, found⟩, after⟩, here, same⟩
    simp only at same
    split at same
    · rename_i expected
      cases same
      rw [here, expected]
    · cases same
  · intro here
    exact ⟨(⟨[tag], content⟩, rest), here, if_pos rfl⟩

theorem whole?_eq_some_iff {octets content : Bytes} :
    key.whole? tag octets = some content ↔
      content.length < keyLimit ∧ octets = write tag content := by
  have read := @take?_eq_some_iff tag isTag octets content []
  rw [List.append_nil] at read
  rw [← read, whole?, Option.bind_eq_bind, Option.bind_eq_some_iff]
  constructor
  · rintro ⟨⟨found, rest⟩, here, only⟩
    simp only at only
    split at only
    · rename_i nothing
      cases only
      rw [here, nothing]
    · cases only
  · intro here
    exact ⟨(content, []), here, if_pos rfl⟩

end Tag

end Rules

/-- Elements one after the other. -/
def writeElements (elements : List Element) : Bytes :=
  (elements.map Element.write).flatten

@[simp] theorem writeElements_nil : writeElements [] = [] :=
  rfl

@[simp] theorem writeElements_cons (element : Element) (elements : List Element) :
    writeElements (element :: elements) = element.write ++ writeElements elements :=
  rfl

theorem length_le_length_writeElements {elements : List Element}
    (tags : ∀ element ∈ elements, element.HasKeyTag) :
    elements.length ≤ (writeElements elements).length := by
  induction elements with
  | nil => exact Nat.le_refl 0
  | cons element elements hypothesis =>
    have first := Element.two_le_length_write (tags element List.mem_cons_self)
    have later := hypothesis fun other member => tags other (List.mem_cons_of_mem _ member)
    rw [writeElements_cons, List.length_cons, List.length_append]
    omega

namespace Rules

theorem elementsUpTo?_of_writeElements {elements : List Element} {count : Nat}
    (fit : ∀ element ∈ elements, element.Fits) (enough : elements.length ≤ count) :
    key.elementsUpTo? count (writeElements elements) = some elements := by
  induction elements generalizing count with
  | nil => cases count <;> rfl
  | cons element elements hypothesis =>
    have first := fit element List.mem_cons_self
    have read := element?_eq_some_iff.mpr ⟨first, writeElements_cons element elements⟩
    obtain ⟨octet, tail, nonempty⟩ : ∃ octet tail, writeElements (element :: elements) = octet :: tail := by
      apply List.exists_cons_of_ne_nil
      intro empty
      have length := Element.two_le_length_write first.tag
      rw [writeElements_cons] at empty
      rw [(List.append_eq_nil_iff.mp empty).1] at length
      simp at length
    cases count with
    | zero => simp at enough
    | succ count =>
      have later := hypothesis (fun other member => fit other (List.mem_cons_of_mem _ member))
        (Nat.le_of_succ_le_succ enough)
      rw [nonempty] at read ⊢
      simp only [elementsUpTo?, read, later, Option.bind_eq_bind, Option.bind_some]

theorem writeElements_of_elementsUpTo? {count : Nat} {octets : Bytes} {elements : List Element}
    (read : key.elementsUpTo? count octets = some elements) :
    (∀ element ∈ elements, element.Fits) ∧ octets = writeElements elements := by
  induction count generalizing octets elements with
  | zero =>
    cases octets with
    | nil =>
      cases read
      simp
    | cons octet tail => cases read
  | succ count hypothesis =>
    cases octets with
    | nil =>
      cases read
      simp
    | cons octet tail =>
      simp only [elementsUpTo?, Option.bind_eq_bind] at read
      obtain ⟨⟨element, rest⟩, first, read⟩ := Option.bind_eq_some_iff.mp read
      obtain ⟨others, later, read⟩ := Option.bind_eq_some_iff.mp read
      cases read
      obtain ⟨fits, written⟩ := element?_eq_some_iff.mp first
      obtain ⟨othersFit, rfl⟩ := hypothesis later
      exact ⟨List.forall_mem_cons.mpr ⟨fits, othersFit⟩, written⟩

theorem elements?_eq_some_iff {octets : Bytes} {elements : List Element} :
    key.elements? octets = some elements ↔
      (∀ element ∈ elements, element.Fits) ∧ octets = writeElements elements := by
  constructor
  · exact writeElements_of_elementsUpTo?
  · rintro ⟨fit, rfl⟩
    exact elementsUpTo?_of_writeElements fit
      (length_le_length_writeElements fun element member => (fit element member).tag)

end Rules
end Der
end CredentialSigning
