import CredentialSigning.Pem.Bundle
import CredentialSigning.Proofs.Pem.Document
import CredentialSigning.Proofs.Text

/-! Bundles of PEM blocks as they are written, with text before, between and after the blocks. No
marker starts in text without hyphens, so the blocks are found one after the other; the lines of a
block are put together again, and give the octets that it was written for. -/

namespace CredentialSigning.Pem.Bundle

/-- Octets among which no marker starts. -/
def IsPlain (octets : Bytes) : Prop :=
  0x2d ∉ octets

instance (octets : Bytes) : Decidable (IsPlain octets) :=
  inferInstanceAs (Decidable (0x2d ∉ octets))

section Search

theorem search?_append (marker found left rest : Bytes) :
    search? marker (found ++ left) (found ++ rest) = search? marker left rest := by
  induction found with
  | nil => rfl
  | cons octet found hypothesis =>
    rw [List.cons_append, List.cons_append, search?, if_pos rfl, hypothesis]

variable {first : UInt8} (marker : Bytes)

/-- Octets that differ from the first one of a marker are passed over. -/
theorem search?_skip {text : Bytes} (apart : first ∉ text) (rest : Bytes) :
    search? (first :: marker) (first :: marker) (text ++ rest) =
      search? (first :: marker) (first :: marker) rest := by
  induction text with
  | nil => rfl
  | cons octet text hypothesis =>
    rw [List.mem_cons, not_or] at apart
    rw [List.cons_append, search?, if_neg (Ne.symm apart.1), hypothesis apart.2]

theorem search?_eq_none {text : Bytes} (apart : first ∉ text) :
    search? (first :: marker) (first :: marker) text = none := by
  rw [← List.append_nil text, search?_skip marker apart]
  rfl

theorem split?_append {text : Bytes} (apart : first ∉ text) (rest : Bytes) :
    split? (first :: marker) (text ++ (first :: marker ++ rest)) = some (text, rest) := by
  have found : search? (first :: marker) (first :: marker) (first :: marker ++ rest) = some rest := by
    have here := search?_append (first :: marker) (first :: marker) [] rest
    rw [List.append_nil] at here
    rw [here, search?]
  have front : (text ++ (first :: marker ++ rest)).length - rest.length - (first :: marker).length =
      text.length := by
    simp only [List.length_append]
    omega
  rw [split?, search?_skip marker apart, found, Option.map_some, front, List.take_left]

/-- In rows that are not empty, each with an end, no end follows another one. -/
theorem search?_emptyLine {rows : List Bytes} (sound : ∀ row ∈ rows, row ≠ [] ∧ first ∉ row) :
    search? (first :: marker ++ first :: marker) (first :: marker ++ first :: marker)
      (rows.map (· ++ first :: marker)).flatten = none := by
  induction rows with
  | nil => rfl
  | cons row rows hypothesis =>
    obtain ⟨⟨-, apart⟩, later⟩ := List.forall_mem_cons.mp sound
    have none := hypothesis later
    rw [List.cons_append] at none ⊢
    rw [List.map_cons, List.flatten_cons, List.append_assoc, search?_skip _ apart, ← List.cons_append,
      search?_append]
    cases rows with
    | nil => rfl
    | cons next rows =>
      -- what has been found so far is given up at the first octet of the next row
      obtain ⟨⟨nonempty, apart⟩, -⟩ := List.forall_mem_cons.mp later
      obtain ⟨octet, next, rfl⟩ := List.exists_cons_of_ne_nil nonempty
      have differ : octet ≠ first := fun same => apart (same ▸ List.mem_cons_self)
      simp only [List.map_cons, List.flatten_cons, List.cons_append, search?, if_neg differ] at none ⊢
      exact none

theorem split?_of_plain (marker : Bytes) (hyphen : marker.head? = some 0x2d) {text : Bytes}
    (plain : IsPlain text) (rest : Bytes) : split? marker (text ++ (marker ++ rest)) = some (text, rest) := by
  obtain ⟨tail, rfl⟩ := List.head?_eq_some_iff.mp hyphen
  exact split?_append tail plain rest

end Search

/-- Octets in Base64, in lines of 64 characters, each of which has an end. -/
def body (lineEnd contents : Bytes) : Bytes :=
  ((Document.rows (Base64.write contents)).map (· ++ lineEnd)).flatten

/-- The block that holds some octets, as it is written. -/
def encapsulate (label lineEnd contents : Bytes) : Bytes :=
  beginMark ++ label ++ dashes ++ lineEnd ++ body lineEnd contents ++ endMark ++ label ++ dashes

theorem writeLines_eq_flatten {lineEnd characters : Bytes} (nonempty : characters ≠ []) :
    Document.writeLines lineEnd characters =
      ((Document.rows characters).map (· ++ lineEnd)).flatten := by
  induction characters using Document.rows.induct with
  | case1 => exact absurd rfl nonempty
  | case2 characters _ short =>
    rw [Document.writeLines, if_pos short, Document.rows, if_neg nonempty, if_pos short]
    simp
  | case3 characters _ long hypothesis =>
    have later : characters.drop Document.lineWidth ≠ [] := by
      rw [← List.length_pos_iff, List.length_drop]
      omega
    rw [Document.writeLines, if_neg long, Document.rows, if_neg nonempty, if_neg long,
      hypothesis later, List.map_cons, List.flatten_cons]

/-- A document is a block of its own, with an end of its last line. -/
theorem write_eq_encapsulate (label lineEnd : Bytes) {contents : Bytes} (nonempty : contents ≠ []) :
    Document.write label lineEnd contents = encapsulate label lineEnd contents ++ lineEnd := by
  obtain ⟨octet, rest, rfl⟩ := List.exists_cons_of_ne_nil nonempty
  obtain ⟨character, others, written⟩ := Base64.write_eq_cons octet rest
  have characters : Base64.write (octet :: rest) ≠ [] := by
    rw [written]
    exact List.cons_ne_nil character others
  rw [Document.write, writeLines_eq_flatten characters]
  rfl

theorem skipBlanks_append {blanks : Bytes} (blank : ∀ octet ∈ blanks, isBlank octet = true)
    {octet : UInt8} (seen : ¬isBlank octet = true) (rest : Bytes) :
    skipBlanks (blanks ++ octet :: rest) = octet :: rest := by
  rw [skipBlanks, List.dropWhile_append_of_pos blank, List.dropWhile_cons_of_neg seen]

theorem not_isBlank {octet : UInt8} (printable : Base64.IsPrintable octet) :
    ¬isBlank octet = true := by
  intro blank
  simp only [isBlank, Bool.or_eq_true, decide_eq_true_eq] at blank
  rcases blank with ((rfl | rfl) | rfl) | rfl <;> exact absurd printable.visible (by decide)

section Body

variable {lineEnd : Bytes} (ends : Document.IsLineEnd lineEnd) {contents : Bytes}

theorem isPrintable_of_mem_row {row : Bytes} {octet : UInt8}
    (member : row ∈ Document.rows (Base64.write contents)) (inside : octet ∈ row) :
    Base64.IsPrintable octet :=
  Base64.isPrintable_of_mem_write ((Document.of_mem_rows member).2 octet inside)

theorem notMem_row {row : Bytes} {octet : UInt8}
    (member : row ∈ Document.rows (Base64.write contents)) (control : octet ≤ 0x20) :
    octet ∉ row := by
  intro inside
  exact UInt8.not_le.mpr (isPrintable_of_mem_row member inside).visible control

theorem mem_body {octet : UInt8} (member : octet ∈ body lineEnd contents) :
    Base64.IsPrintable octet ∨ octet ∈ lineEnd := by
  obtain ⟨line, inside, here⟩ := List.mem_flatten.mp member
  obtain ⟨row, inRows, rfl⟩ := List.mem_map.mp inside
  rcases List.mem_append.mp here with inRow | atEnd
  · exact .inl (isPrintable_of_mem_row inRows inRow)
  · exact .inr atEnd

include ends

theorem isPlain_body : IsPlain (body lineEnd contents) := by
  intro member
  rcases mem_body member with printable | atEnd
  · exact printable.notHyphen rfl
  · rcases ends with rfl | rfl <;> exact absurd atEnd (by decide)

theorem isAscii_body : Text.IsAscii (body lineEnd contents) := by
  intro octet member
  rcases mem_body member with printable | atEnd
  · exact printable.ascii
  · have small : Text.IsAscii lineEnd := by rcases ends with rfl | rfl <;> decide
    exact small octet atEnd

/-- The line end of the boundary is passed over, and nothing else. -/
theorem skipBlanks_body (rest : Bytes) :
    skipBlanks (lineEnd ++ (body lineEnd contents ++ (endMark ++ rest))) =
      body lineEnd contents ++ (endMark ++ rest) := by
  have blank : ∀ octet ∈ lineEnd, isBlank octet = true := by
    rw [← List.all_eq_true]
    rcases ends with rfl | rfl <;> rfl
  have mark : ∃ tail, endMark ++ rest = 0x2d :: tail := ⟨_, rfl⟩
  obtain ⟨tail, mark⟩ := mark
  rw [mark]
  cases shape : Document.rows (Base64.write contents) with
  | nil =>
    rw [body, shape, List.map_nil, List.flatten_nil, List.nil_append]
    exact skipBlanks_append blank (by decide) tail
  | cons row rows =>
    have member : row ∈ Document.rows (Base64.write contents) := shape ▸ List.mem_cons_self
    obtain ⟨octet, later, rfl⟩ := List.exists_cons_of_ne_nil (Document.of_mem_rows member).1
    have seen := not_isBlank (isPrintable_of_mem_row member List.mem_cons_self)
    rw [body, shape, List.map_cons, List.flatten_cons, List.cons_append, List.cons_append,
      List.cons_append]
    exact skipBlanks_append blank seen _

/-- A body has no empty line, so it is all data. -/
theorem divide_body : Block.divide (body lineEnd contents) = ([], body lineEnd contents) := by
  have feeds : search? [10, 10] [10, 10] (body lineEnd contents) = none := by
    rcases ends with rfl | rfl
    · exact search?_emptyLine [] fun row member =>
        ⟨(Document.of_mem_rows member).1, notMem_row member (by decide)⟩
    · -- the carriage returns belong to the rows
      have split : body [13, 10] contents =
          (((Document.rows (Base64.write contents)).map (· ++ [13])).map (· ++ [10])).flatten := by
        simp [body, Function.comp_def]
      rw [split]
      apply search?_emptyLine []
      intro ended inside
      obtain ⟨row, member, rfl⟩ := List.mem_map.mp inside
      have apart : 10 ∉ row := notMem_row member (by decide)
      simp [apart]
  have returns : search? [13, 10, 13, 10] [13, 10, 13, 10] (body lineEnd contents) = none := by
    rcases ends with rfl | rfl
    · apply search?_eq_none
      intro member
      rcases mem_body member with printable | atEnd
      · exact absurd printable.visible (by decide)
      · exact absurd atEnd (by decide)
    · exact search?_emptyLine [10] fun row member =>
        ⟨(Document.of_mem_rows member).1, notMem_row member (by decide)⟩
  rw [Block.divide, split?, split?, feeds, returns]
  rfl

end Body

section Lines

/-- What a character does to the lines joined so far, from the last one to the first. -/
def joinCharacter (c : Char) (joined : List Char × Bool) : List Char × Bool :=
  if c = '\n' || (joined.2 && Text.isWhiteSpace c) then (joined.1, true) else (c :: joined.1, false)

theorem joinLines_eq (text : List Char) :
    Block.joinLines text = (text.foldr joinCharacter ([], true)).1 := rfl

theorem joinCharacter_of_printable {octet : UInt8} (printable : Base64.IsPrintable octet)
    (joined : List Char × Bool) : joinCharacter (Char.ofNat octet.toNat) joined =
      (Char.ofNat octet.toNat :: joined.1, false) := by
  have number := Text.toNat_character printable.ascii
  have visible : 0x20 < octet.toNat := UInt8.lt_iff_toNat_lt.mp printable.visible
  have ascii : octet.toNat < 0x80 := UInt8.lt_iff_toNat_lt.mp printable.ascii
  have notFeed : Char.ofNat octet.toNat ≠ '\n' := by
    intro same
    rw [same] at number
    change 10 = octet.toNat at number
    omega
  have notWhiteSpace : Text.isWhiteSpace (Char.ofNat octet.toNat) = false := by
    simp only [Text.isWhiteSpace, number, Bool.or_eq_false_iff, Bool.and_eq_false_iff,
      decide_eq_false_iff_not, beq_eq_false_iff_ne]
    omega
  simp [joinCharacter, notFeed, notWhiteSpace]

theorem foldr_row {row : Bytes} (printable : ∀ octet ∈ row, Base64.IsPrintable octet)
    (joined : List Char × Bool) :
    ((Text.characters row).foldr joinCharacter joined).1 = Text.characters row ++ joined.1 := by
  induction row with
  | nil => rfl
  | cons octet row hypothesis =>
    obtain ⟨here, later⟩ := List.forall_mem_cons.mp printable
    rw [Text.characters, List.map_cons, List.foldr_cons, joinCharacter_of_printable here,
      List.cons_append]
    exact congrArg _ (hypothesis later)

theorem foldr_lineEnd {lineEnd : Bytes} (ends : Document.IsLineEnd lineEnd)
    (joined : List Char × Bool) :
    (Text.characters lineEnd).foldr joinCharacter joined = (joined.1, true) := by
  rcases ends with rfl | rfl
  · rfl
  · rfl

theorem joinLines_rows {lineEnd : Bytes} (ends : Document.IsLineEnd lineEnd) {rows : List Bytes}
    (printable : ∀ row ∈ rows, ∀ octet ∈ row, Base64.IsPrintable octet) :
    Block.joinLines (Text.characters (rows.map (· ++ lineEnd)).flatten) =
      Text.characters rows.flatten := by
  rw [joinLines_eq]
  induction rows with
  | nil => rfl
  | cons row rows hypothesis =>
    obtain ⟨here, later⟩ := List.forall_mem_cons.mp printable
    rw [List.map_cons, List.flatten_cons, List.flatten_cons, Text.characters_append,
      Text.characters_append, Text.characters_append, List.foldr_append, List.foldr_append,
      foldr_lineEnd ends, foldr_row here, hypothesis later]

theorem asciiOctets?_characters {octets : Bytes} (ascii : Text.IsAscii octets) :
    Block.asciiOctets? (Text.characters octets) = some octets := by
  have low : (Text.characters octets).all (·.toNat < 0x80) = true := by
    rw [List.all_eq_true]
    intro c member
    obtain ⟨octet, inside, rfl⟩ := List.mem_map.mp member
    rw [Text.toNat_character (ascii octet inside), decide_eq_true_eq]
    exact UInt8.lt_iff_toNat_lt.mp (ascii octet inside)
  have same : (Text.characters octets).map (fun c => UInt8.ofNat c.toNat) = octets := by
    rw [Text.characters, List.map_map]
    refine (List.map_congr_left fun octet inside => ?_).trans (List.map_id octets)
    rw [Function.comp_apply, Text.toNat_character (ascii octet inside), UInt8.ofNat_toNat, id]
  rw [Block.asciiOctets?, if_pos low, same]

end Lines

/-- The block as it is found again. -/
def written (label lineEnd contents : Bytes) : Block :=
  ⟨label, body lineEnd contents, label⟩

theorem contents?_written {label lineEnd : Bytes} (nonempty : label ≠ []) (ascii : Text.IsAscii label)
    (ends : Document.IsLineEnd lineEnd) (contents : Bytes) :
    (written label lineEnd contents).contents? = some contents := by
  have bodyAscii : Text.IsAscii (body lineEnd contents) := isAscii_body ends
  have joined : Block.joinLines (Text.characters (body lineEnd contents)) =
      Text.characters (Base64.write contents) := by
    rw [body, joinLines_rows ends fun row member octet inside => isPrintable_of_mem_row member inside,
      Document.flatten_rows]
  have octets : Block.asciiOctets? (Text.characters (Base64.write contents)) =
      some (Base64.write contents) :=
    asciiOctets?_characters fun octet member => (Base64.isPrintable_of_mem_write member).ascii
  have empty : Text.ofUtf8? [] = some (String.ofList []) := Text.ofUtf8?_ascii (List.forall_mem_nil _)
  simp only [Block.contents?, written, divide_body ends, Text.ofUtf8?_ascii ascii, empty,
    Text.ofUtf8?_ascii bodyAscii, String.toList_ofList, joined, octets, Option.bind_eq_bind,
    Option.bind_some, Base64.read?_write, Block.hasHeaderLines]
  simp [nonempty]

/-- Text before a block leaves the search for its begin where it was. -/
theorem block?_append {text : Bytes} (plain : IsPlain text) (octets : Bytes) :
    block? (text ++ octets) = block? octets := by
  obtain ⟨tail, mark⟩ : ∃ tail, beginMark = 0x2d :: tail := ⟨_, rfl⟩
  simp only [block?, split?, mark, search?_skip tail plain, Option.bind_eq_bind, Option.bind_map,
    Function.comp_def]

theorem isPlain_blanks (octets : Bytes) : IsPlain (octets.takeWhile isBlank) := by
  intro member
  exact absurd (List.all_eq_true.mp List.all_takeWhile 0x2d member) (by decide)

theorem block?_skipBlanks (octets : Bytes) : block? (skipBlanks octets) = block? octets := by
  rw [← block?_append (isPlain_blanks octets), skipBlanks, List.takeWhile_append_dropWhile]

theorem block?_encapsulate {label lineEnd : Bytes} (plain : IsPlain label)
    (ends : Document.IsLineEnd lineEnd) (contents rest : Bytes) :
    block? (encapsulate label lineEnd contents ++ rest) =
      some (written label lineEnd contents, skipBlanks rest) := by
  have bodyPlain : IsPlain (body lineEnd contents) := isPlain_body ends
  have begun (rest : Bytes) : split? beginMark (beginMark ++ rest) = some ([], rest) :=
    split?_of_plain beginMark rfl List.not_mem_nil rest
  simp only [block?, encapsulate, List.append_assoc, begun,
    split?_of_plain dashes rfl plain, skipBlanks_body ends,
    split?_of_plain endMark rfl bodyPlain, Option.bind_eq_bind, Option.bind_some, written]

theorem blocks_of_block? {octets rest : Bytes} {block : Block}
    (found : block? octets = some (block, rest)) : blocks octets = block :: blocks rest := by
  rw [blocks]
  split
  · rename_i absent
    rw [found] at absent
    cases absent
  · rename_i same
    rw [found] at same
    cases same
    rfl

theorem blocks_eq_nil {octets : Bytes} (absent : block? octets = none) : blocks octets = [] := by
  rw [blocks]
  split
  · rfl
  · rename_i found
    rw [absent] at found
    cases found

theorem blocks_congr {octets others : Bytes} (same : block? octets = block? others) :
    blocks octets = blocks others := by
  cases found : block? others with
  | none =>
    rw [found] at same
    rw [blocks_eq_nil same, blocks_eq_nil found]
  | some block =>
    rw [found] at same
    rw [blocks_of_block? same, blocks_of_block? found]

theorem isPlain_append {text more : Bytes} (plain : IsPlain text) (plainToo : IsPlain more) :
    IsPlain (text ++ more) := by
  intro member
  exact (List.mem_append.mp member).elim plain plainToo

/-- A text that is made of a block for each of some octet strings, in their order, with text before,
between and after the blocks. Blocks may differ in how their lines end. -/
inductive IsBundle (label : Bytes) : List Bytes → Bytes → Prop
  | nil {text : Bytes} (plain : IsPlain text) : IsBundle label [] text
  | cons {before lineEnd contents rest : Bytes} {others : List Bytes} (plain : IsPlain before)
      (ends : Document.IsLineEnd lineEnd) (later : IsBundle label others rest) :
      IsBundle label (contents :: others) (before ++ (encapsulate label lineEnd contents ++ rest))

namespace IsBundle

variable {label text more : Bytes} {contents others : List Bytes}

theorem prepend (plain : IsPlain text) (bundle : IsBundle label contents more) :
    IsBundle label contents (text ++ more) := by
  cases bundle with
  | nil plainToo => exact .nil (isPlain_append plain plainToo)
  | cons plainToo ends later =>
    rw [← List.append_assoc]
    exact .cons (isPlain_append plain plainToo) ends later

/-- Bundles one after the other are a bundle. -/
theorem append (bundle : IsBundle label contents text) (bundleToo : IsBundle label others more) :
    IsBundle label (contents ++ others) (text ++ more) := by
  induction bundle with
  | nil plain => exact prepend plain bundleToo
  | cons plain ends later hypothesis =>
    rw [List.append_assoc, List.append_assoc, List.cons_append]
    exact .cons plain ends hypothesis

end IsBundle

end CredentialSigning.Pem.Bundle
