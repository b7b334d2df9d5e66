import CredentialSigning.Key.Info
import CredentialSigning.Proofs.Der.Canonical

/-! Fields of the context-specific class, which may follow the values of a sequence. A field is found
after fields with lower numbers; where it is absent, what is left begins with none up to its number. -/

namespace CredentialSigning

namespace Der

namespace Element

/-- A field of the context-specific class with a number. -/
def IsField (number : UInt8) (element : Element) : Prop :=
  ∃ tag, element.tag = [tag] ∧ isKeyTag tag = true ∧ tag &&& 0xc0 = 0x80 ∧ tag &&& 0x1f = number

/-- A constructed field around a single value. -/
def IsExtension (element : Element) : Prop :=
  ∃ (tag : UInt8) (inner : Element), element.tag = [tag] ∧ isKeyTag tag = true ∧
    tag &&& 0xe0 = 0xa0 ∧ inner.HasKeyTag ∧ element.content = inner.write

theorem IsField.hasKeyTag {number : UInt8} {element : Element} (field : element.IsField number) :
    element.HasKeyTag := by
  obtain ⟨tag, named, isTag, -⟩ := field
  exact ⟨tag, named, isTag⟩

theorem IsExtension.hasKeyTag {element : Element} (extension : element.IsExtension) :
    element.HasKeyTag := by
  obtain ⟨tag, inner, named, isTag, -⟩ := extension
  exact ⟨tag, named, isTag⟩

theorem length_content_le (element : Element) : element.content.length ≤ element.write.length := by
  rw [write, List.length_append]
  exact Nat.le_add_left _ _

theorem write_eq_cons {element : Element} {tag : UInt8} (named : element.tag = [tag]) :
    element.write = tag :: (writeLength element.content.length ++ element.content) := by
  rw [write, named, List.singleton_append, List.cons_append]

end Element

theorem fits_of_short {elements : List Element}
    (tags : ∀ element ∈ elements, element.HasKeyTag)
    (short : (writeElements elements).length < keyLimit) : ∀ element ∈ elements, element.Fits := by
  intro element member
  have part := (List.sublist_flatten_of_mem (List.mem_map_of_mem (f := Element.write) member)).length_le
  exact ⟨tags element member, element.length_content_le.trans_lt (part.trans_lt short)⟩

/-- The octets do not begin with a field below a number. -/
def NoneBelow (number : UInt8) (octets : Bytes) : Prop :=
  ∀ first ∈ octets.head?, ¬(first &&& 0xc0 = 0x80 ∧ first &&& 0x1f < number)

/-- The octets may begin with a value, but not with a field up to a number. -/
def NoneUpTo (number : UInt8) (octets : Bytes) : Prop :=
  ∀ first ∈ octets.head?, isKeyTag first = true ∧ ¬(first &&& 0xc0 = 0x80 ∧ first &&& 0x1f ≤ number)

/-- An element has the octet it begins with as its tag. -/
theorem element?_cons {first : UInt8} {tail rest : Bytes} {element : Element}
    (read : Rules.key.element? (first :: tail) = some (element, rest)) :
    element.Fits ∧ element.tag = [first] ∧ isKeyTag first = true ∧
      first :: tail = element.write ++ rest := by
  obtain ⟨fits, split⟩ := Rules.element?_eq_some_iff.mp read
  obtain ⟨tag, named, isTag⟩ := fits.tag
  have same : first = tag := by
    rw [Element.write_eq_cons named] at split
    exact (List.cons.inj split).1
  subst same
  exact ⟨fits, named, isTag, split⟩

section Skip

variable {number : UInt8} {octets rest : Bytes}

theorem skipFieldsBelow?_of_noneBelow (count : Nat) (none : NoneBelow number rest) :
    skipFieldsBelow? number count rest = some rest := by
  cases count with
  | zero => rfl
  | succ count =>
    cases rest with
    | nil => rfl
    | cons first tail => rw [skipFieldsBelow?, if_neg (none first rfl)]

theorem skipFieldsBelow?_writeElements {skipped : List Element} {count : Nat}
    (fields : ∀ element ∈ skipped, element.Fits ∧ ∃ lower < number, element.IsField lower)
    (enough : skipped.length ≤ count) (none : NoneBelow number rest) :
    skipFieldsBelow? number count (writeElements skipped ++ rest) = some rest := by
  induction skipped generalizing count with
  | nil => exact skipFieldsBelow?_of_noneBelow count none
  | cons element skipped hypothesis =>
    obtain ⟨⟨fits, lower, below, tag, named, isTag, context, numbered⟩, others⟩ :=
      List.forall_mem_cons.mp fields
    cases count with
    | zero => simp at enough
    | succ count =>
      have later := hypothesis others (Nat.le_of_succ_le_succ enough)
      have first : Rules.key.element? (element.write ++ (writeElements skipped ++ rest)) =
          some (element, writeElements skipped ++ rest) :=
        Rules.element?_eq_some_iff.mpr ⟨fits, rfl⟩
      rw [Element.write_eq_cons named, List.cons_append] at first
      rw [writeElements_cons, List.append_assoc, Element.write_eq_cons named, List.cons_append,
        skipFieldsBelow?, if_pos ⟨context, numbered ▸ below⟩, first]
      exact later

theorem exists_of_skipFieldsBelow? {count : Nat} (enough : octets.length ≤ count)
    (read : skipFieldsBelow? number count octets = some rest) :
    ∃ skipped, (∀ element ∈ skipped, element.Fits ∧ ∃ lower < number, element.IsField lower) ∧
      octets = writeElements skipped ++ rest ∧ NoneBelow number rest := by
  induction count generalizing octets with
  | zero =>
    obtain rfl := List.length_eq_zero_iff.mp (Nat.le_zero.mp enough)
    cases read
    exact ⟨[], by simp, rfl, by simp [NoneBelow]⟩
  | succ count hypothesis =>
    cases octets with
    | nil =>
      cases read
      exact ⟨[], by simp, rfl, by simp [NoneBelow]⟩
    | cons first tail =>
      rw [skipFieldsBelow?] at read
      split at read
      · rename_i field
        obtain ⟨⟨element, after⟩, here, read⟩ := Option.bind_eq_some_iff.mp read
        obtain ⟨fits, named, isTag, split⟩ := element?_cons here
        have shorter : after.length ≤ count := by
          have length := Element.two_le_length_write fits.tag
          have total := congrArg List.length split
          rw [List.length_append] at total
          omega
        obtain ⟨skipped, fields, rfl, none⟩ := hypothesis shorter read
        refine ⟨element :: skipped, ?_, ?_, none⟩
        · exact List.forall_mem_cons.mpr
            ⟨⟨fits, _, field.2, first, named, isTag, field.1, rfl⟩, fields⟩
        · rw [split, writeElements_cons, List.append_assoc]
      · rename_i other
        cases read
        refine ⟨[], by simp, rfl, ?_⟩
        rintro _ ⟨⟩
        exact other

theorem skipFieldsBelow?_length {skipped : List Element}
    (fields : ∀ element ∈ skipped, element.Fits ∧ ∃ lower < number, element.IsField lower)
    (none : NoneBelow number rest) :
    skipFieldsBelow? number (writeElements skipped ++ rest).length (writeElements skipped ++ rest) =
      some rest := by
  apply skipFieldsBelow?_writeElements fields _ none
  have count := length_le_length_writeElements fun element member => (fields element member).1.tag
  rw [List.length_append]
  omega

theorem field?_writeElements_none {skipped : List Element}
    (fields : ∀ element ∈ skipped, element.Fits ∧ ∃ lower < number, element.IsField lower)
    (above : NoneUpTo number rest) :
    field? number (writeElements skipped ++ rest) = some (none, rest) := by
  have noneBelow : NoneBelow number rest := fun first member field =>
    (above first member).2 ⟨field.1, UInt8.le_of_lt field.2⟩
  rw [field?, skipFieldsBelow?_length fields noneBelow]
  cases rest with
  | nil => rfl
  | cons first tail =>
    obtain ⟨isTag, other⟩ := above first rfl
    have notField : ¬(first &&& 0xc0 = 0x80 ∧ first &&& 0x1f = number) := fun field =>
      other ⟨field.1, UInt8.le_of_eq field.2⟩
    simp only [Option.bind_eq_bind, Option.bind_some, if_neg notField, if_pos isTag]

theorem field?_writeElements_some {skipped : List Element} {element : Element}
    (fields : ∀ element ∈ skipped, element.Fits ∧ ∃ lower < number, element.IsField lower)
    (fits : element.Fits) (field : element.IsField number) :
    field? number (writeElements skipped ++ (element.write ++ rest)) = some (some element, rest) := by
  obtain ⟨tag, named, -, isField⟩ := field
  have here : Rules.key.element? (element.write ++ rest) = some (element, rest) :=
    Rules.element?_eq_some_iff.mpr ⟨fits, rfl⟩
  have noneBelow : NoneBelow number (element.write ++ rest) := by
    rw [Element.write_eq_cons named]
    rintro _ ⟨⟩ field
    rw [isField.2] at field
    exact UInt8.lt_irrefl _ field.2
  rw [field?, skipFieldsBelow?_length fields noneBelow]
  rw [Element.write_eq_cons named, List.cons_append] at here ⊢
  simp only [Option.bind_eq_bind, Option.bind_some, if_pos isField, here]

theorem exists_of_field? {found : Option Element}
    (read : field? number octets = some (found, rest)) :
    ∃ skipped, (∀ element ∈ skipped, element.Fits ∧ ∃ lower < number, element.IsField lower) ∧
      (∀ element ∈ found, element.Fits ∧ element.IsField number) ∧
      (found = none → NoneUpTo number rest) ∧
      octets = writeElements skipped ++ (writeElements found.toList ++ rest) := by
  obtain ⟨after, skips, read⟩ := Option.bind_eq_some_iff.mp read
  obtain ⟨skipped, fields, written, noneBelow⟩ := exists_of_skipFieldsBelow? (Nat.le_refl _) skips
  refine ⟨skipped, fields, ?_⟩
  rw [written]
  cases after with
  | nil =>
    cases read
    exact ⟨by simp, fun _ => by simp [NoneUpTo], rfl⟩
  | cons first tail =>
    simp only at read
    split at read
    · rename_i field
      obtain ⟨⟨element, last⟩, here, read⟩ := Option.bind_eq_some_iff.mp read
      cases read
      obtain ⟨fits, named, isTag, split⟩ := element?_cons here
      refine ⟨?_, (fun absent => nomatch absent), ?_⟩
      · rintro _ ⟨⟩
        exact ⟨fits, first, named, isTag, field⟩
      · rw [split, Option.toList_some, writeElements_cons, writeElements_nil, List.append_nil]
    · rename_i other
      split at read
      · rename_i isTag
        cases read
        refine ⟨by simp, ?_, rfl⟩
        rintro - _ ⟨⟩
        refine ⟨isTag, ?_⟩
        rintro ⟨context, upTo⟩
        rcases UInt8.lt_or_eq_of_le upTo with below | equal
        · exact noneBelow first rfl ⟨context, below⟩
        · exact other ⟨context, equal⟩
      · cases read

/-- A field is found, or none may be left unread, after fields with lower numbers. -/
theorem field?_eq_some_iff {found : Option Element} :
    field? number octets = some (found, rest) ↔
      ∃ skipped, (∀ element ∈ skipped, element.Fits ∧ ∃ lower < number, element.IsField lower) ∧
        (∀ element ∈ found, element.Fits ∧ element.IsField number) ∧
        (found = none → NoneUpTo number rest) ∧
        octets = writeElements skipped ++ (writeElements found.toList ++ rest) := by
  constructor
  · exact exists_of_field?
  · rintro ⟨skipped, fields, field, absent, rfl⟩
    cases found with
    | none => exact field?_writeElements_none fields (absent rfl)
    | some element =>
      obtain ⟨fits, isField⟩ := field element rfl
      rw [Option.toList_some, writeElements_cons, writeElements_nil, List.append_nil]
      exact field?_writeElements_some fields fits isField

end Skip

/-- The first of some elements decides whether they begin with a field. -/
theorem noneUpTo_one_iff {elements : List Element}
    (tags : ∀ element ∈ elements, element.HasKeyTag) :
    NoneUpTo 1 (writeElements elements) ↔
      ∀ element ∈ elements.head?, ¬element.IsField 0 ∧ ¬element.IsField 1 := by
  cases elements with
  | nil => simp [NoneUpTo]
  | cons element others =>
    obtain ⟨tag, named, isTag⟩ := tags element List.mem_cons_self
    rw [writeElements_cons, Element.write_eq_cons named]
    constructor
    · rintro none _ ⟨⟩
      obtain ⟨-, other⟩ := none tag rfl
      constructor
      · rintro ⟨_, same, -, context, number⟩
        cases named.symm.trans same
        exact other ⟨context, by rw [number]; decide⟩
      · rintro ⟨_, same, -, context, number⟩
        cases named.symm.trans same
        exact other ⟨context, UInt8.le_of_eq number⟩
    · rintro none _ ⟨⟩
      obtain ⟨notZero, notOne⟩ := none element rfl
      refine ⟨isTag, ?_⟩
      rintro ⟨context, upTo⟩
      rcases UInt8.lt_or_eq_of_le upTo with below | one
      · exact notZero ⟨tag, named, isTag, context, UInt8.lt_one_iff.mp below⟩
      · exact notOne ⟨tag, named, isTag, context, one⟩

theorem document?_eq_some_iff {octets content : Bytes} :
    document? octets = some content ↔ octets.length < keyLimit ∧ octets = write 0x30 content := by
  have whole := @Rules.whole?_eq_some_iff 0x30 (by decide) octets content
  unfold document?
  split
  · rename_i short
    rw [whole]
    constructor
    · rintro ⟨-, rfl⟩
      exact ⟨short, rfl⟩
    · rintro ⟨-, rfl⟩
      exact ⟨(length_lt_length_write 0x30 content).trans short, rfl⟩
  · rename_i long
    simp [long]

/-- An element that may be left out. -/
def writeOptional (tag : UInt8) : Option Bytes → Bytes
  | none => []
  | some content => write tag content

theorem optional_length_lt (tag : UInt8) (content : Option Bytes) {parts : List Bytes}
    (member : writeOptional tag content ∈ parts)
    (short : (writeSequence parts).length < keyLimit) :
    ∀ octets ∈ content, octets.length < keyLimit := by
  rintro octets rfl
  exact content_length_lt tag octets member short

theorem field?_nil (number : UInt8) : field? number [] = some (none, []) :=
  rfl

section Field

variable {number tag : UInt8} (isTag : isKeyTag tag = true)
include isTag

theorem field?_write (isField : tag &&& 0xc0 = 0x80 ∧ tag &&& 0x1f = number) {content : Bytes}
    (short : content.length < keyLimit) (rest : Bytes) :
    field? number (write tag content ++ rest) = some (some ⟨[tag], content⟩, rest) := by
  have fits : Element.Fits ⟨[tag], content⟩ := (Rules.fits_iff isTag).mpr short
  exact field?_writeElements_some (List.forall_mem_nil _) fits ⟨tag, rfl, isTag, isField⟩

/-- A field with a higher number stays unread. -/
theorem field?_write_above (above : number < tag &&& 0x1f) (content rest : Bytes) :
    field? number (write tag content ++ rest) = some (none, write tag content ++ rest) := by
  apply field?_writeElements_none (List.forall_mem_nil _)
  rintro _ ⟨⟩
  refine ⟨isTag, ?_⟩
  rintro ⟨-, upTo⟩
  exact UInt8.not_lt.mpr upTo above

theorem field?_writeOptional (isField : tag &&& 0xc0 = 0x80 ∧ tag &&& 0x1f = number)
    {content : Option Bytes} (short : ∀ octets ∈ content, octets.length < keyLimit) {rest : Bytes}
    (absent : field? number rest = some (none, rest)) :
    field? number (writeOptional tag content ++ rest) =
      some (content.map fun octets => ⟨[tag], octets⟩, rest) := by
  cases content with
  | none => exact absent
  | some octets => exact field?_write isTag isField (short octets rfl) rest

theorem field?_writeOptional_above (above : number < tag &&& 0x1f) (content : Option Bytes) :
    field? number (writeOptional tag content) = some (none, writeOptional tag content) := by
  cases content with
  | none => exact field?_nil number
  | some octets =>
    have unread := field?_write_above isTag above octets []
    rwa [List.append_nil] at unread

end Field

end Der
end CredentialSigning
