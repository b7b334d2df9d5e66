import CredentialSigning.Pem.Document
import CredentialSigning.Proofs.Pem.Base64
import Mathlib.Data.List.Basic

/-! PEM documents as they are written: lines of 64 characters, each ended by LF or by CR LF, between
two boundary lines. Such a document is read back to its label and its octets, if these are one DER
SEQUENCE, and is refused if they are not. -/

namespace CredentialSigning.Pem.Document

def IsLineEnd (lineEnd : Bytes) : Prop :=
  lineEnd = [10] ∨ lineEnd = [13, 10]

section
variable {lineEnd : Bytes} (ends : IsLineEnd lineEnd)
include ends

theorem afterLineEnd?_append (rest : Bytes) : afterLineEnd? (lineEnd ++ rest) = some rest := by
  rcases ends with rfl | rfl <;> rfl

/-- The octets must not end in CR themselves, which would count as part of the line end. -/
theorem beforeLineEnd?_append {octets : Bytes} (complete : octets.getLast? ≠ some 13) :
    beforeLineEnd? (octets ++ lineEnd) = some octets := by
  rcases ends with rfl | rfl
  · rw [List.getLast?_eq_head?_reverse] at complete
    rw [beforeLineEnd?, List.reverse_append, List.reverse_singleton, List.singleton_append]
    split
    · rename_i rest same
      rw [(List.cons.inj same).2] at complete
      exact absurd rfl complete
    · rename_i rest notReturn same
      rw [← (List.cons.inj same).2, List.reverse_reverse]
    · rename_i same
      cases same
    · rename_i notReturn notFeed other
      exact absurd rfl (notFeed _)
  · simp [beforeLineEnd?]

end

theorem beforeLineEnd?_of_visible {octets : Bytes} (visible : ∀ octet ∈ octets, 0x20 < octet) :
    beforeLineEnd? octets = none := by
  have seen : ∀ octet ∈ octets.reverse, 0x20 < octet := by
    intro octet member
    exact visible octet (List.mem_reverse.mp member)
  unfold beforeLineEnd?
  split
  · rename_i rest same
    rw [same] at seen
    exact absurd (seen 10 List.mem_cons_self) (by decide)
  · rename_i rest _ same
    rw [same] at seen
    exact absurd (seen 10 List.mem_cons_self) (by decide)
  · rename_i rest same
    rw [same] at seen
    exact absurd (seen 13 List.mem_cons_self) (by decide)
  · rfl

/-- Full lines and a last one, which is not empty. -/
def rows (characters : Bytes) : List Bytes :=
  if characters = [] then []
  else if characters.length ≤ lineWidth then [characters]
  else characters.take lineWidth :: rows (characters.drop lineWidth)
termination_by characters.length
decreasing_by
  simp only [List.length_drop, lineWidth] at *
  omega

/-- The lines without the end of the last one. -/
def joinRows (lineEnd characters : Bytes) : Bytes :=
  if characters.length ≤ lineWidth then characters
  else characters.take lineWidth ++ lineEnd ++ joinRows lineEnd (characters.drop lineWidth)
termination_by characters.length
decreasing_by
  simp only [List.length_drop, lineWidth] at *
  omega

theorem writeLines_eq (lineEnd characters : Bytes) :
    writeLines lineEnd characters = joinRows lineEnd characters ++ lineEnd := by
  induction characters using joinRows.induct with
  | case1 characters short => rw [writeLines, joinRows, if_pos short, if_pos short]
  | case2 characters long hypothesis =>
    rw [writeLines, joinRows, if_neg long, if_neg long, hypothesis]
    simp only [List.append_assoc]

theorem getLast?_joinRows (lineEnd characters : Bytes) :
    (joinRows lineEnd characters).getLast? = characters.getLast? := by
  induction characters using joinRows.induct with
  | case1 characters short => rw [joinRows, if_pos short]
  | case2 characters long hypothesis =>
    have nonempty : characters.drop lineWidth ≠ [] := by
      rw [← List.length_pos_iff, List.length_drop]
      omega
    have last : (characters.drop lineWidth).getLast? =
        some ((characters.drop lineWidth).getLast nonempty) := List.getLast?_eq_some_getLast nonempty
    rw [joinRows, if_neg long, List.getLast?_append, hypothesis, last, Option.some_or]
    conv_rhs => rw [← List.take_append_drop lineWidth characters]
    rw [List.getLast?_append, last, Option.some_or]

theorem lines?_joinRows {lineEnd characters : Bytes} (ends : IsLineEnd lineEnd)
    (visible : ∀ octet ∈ characters, 0x20 < octet) :
    lines? (joinRows lineEnd characters) = some (rows characters) := by
  induction characters using rows.induct with
  | case1 => simp [joinRows, rows, lines?]
  | case2 characters nonempty short =>
    rw [joinRows, if_pos short, rows, if_neg nonempty, if_pos short, lines?, if_neg nonempty,
      if_pos short, beforeLineEnd?_of_visible visible, Option.getD_none]
  | case3 characters nonempty long hypothesis =>
    have full : (characters.take lineWidth).length = lineWidth := by
      rw [List.length_take]
      omega
    have text : joinRows lineEnd characters = characters.take lineWidth ++
        (lineEnd ++ joinRows lineEnd (characters.drop lineWidth)) := by
      rw [joinRows, if_neg long, List.append_assoc]
    have longToo : ¬(joinRows lineEnd characters).length ≤ lineWidth := by
      have ending : 0 < lineEnd.length := by rcases ends with rfl | rfl <;> decide
      rw [text, List.length_append, List.length_append, full]
      omega
    have nonemptyToo : joinRows lineEnd characters ≠ [] := by
      intro empty
      rw [empty] at longToo
      exact longToo (Nat.zero_le _)
    have after : afterLineEnd? ((joinRows lineEnd characters).drop lineWidth) =
        some (joinRows lineEnd (characters.drop lineWidth)) := by
      rw [text, List.drop_left' full, afterLineEnd?_append ends]
    have later := hypothesis fun octet member => visible octet (List.mem_of_mem_drop member)
    rw [lines?, if_neg nonemptyToo, if_neg longToo, rows, if_neg nonempty, if_neg long]
    split
    · rename_i missing
      rw [after] at missing
      cases missing
    · rename_i rest found
      rw [after] at found
      cases found
      rw [later, text, List.take_left' full, Option.map_some]

theorem flatten_rows (characters : Bytes) : (rows characters).flatten = characters := by
  induction characters using rows.induct with
  | case1 => simp [rows]
  | case2 characters nonempty short => simp [rows, nonempty, short]
  | case3 characters nonempty long hypothesis =>
    rw [rows, if_neg nonempty, if_neg long, List.flatten_cons, hypothesis, List.take_append_drop]

theorem of_mem_rows {characters row : Bytes} (member : row ∈ rows characters) :
    row ≠ [] ∧ ∀ octet ∈ row, octet ∈ characters := by
  constructor
  · induction characters using rows.induct with
    | case1 => simp [rows] at member
    | case2 characters nonempty short =>
      rw [rows, if_neg nonempty, if_pos short, List.mem_singleton] at member
      rw [member]
      exact nonempty
    | case3 characters nonempty long hypothesis =>
      rw [rows, if_neg nonempty, if_neg long, List.mem_cons] at member
      rcases member with rfl | later
      · intro empty
        rw [List.take_eq_nil_iff] at empty
        exact empty.elim (by decide) nonempty
      · exact hypothesis later
  · intro octet inside
    rw [← flatten_rows characters]
    exact List.mem_flatten_of_mem member inside

/-- The lines before the last one end before the last group of four characters. -/
theorem exists_take_of_mem_dropLast_rows {characters line : Bytes} {octet : UInt8}
    (whole : characters.length % 4 = 0) (earlier : line ∈ (rows characters).dropLast)
    (member : octet ∈ line) :
    ∃ count, count + 4 ≤ characters.length ∧ octet ∈ characters.take count := by
  induction characters using rows.induct with
  | case1 => simp [rows] at earlier
  | case2 characters nonempty short => simp [rows, nonempty, short] at earlier
  | case3 characters nonempty long hypothesis =>
    have width : lineWidth = 64 := rfl
    have nonemptyRows : rows (characters.drop lineWidth) ≠ [] := by
      intro empty
      have joined := flatten_rows (characters.drop lineWidth)
      rw [empty, List.flatten_nil] at joined
      have length := congrArg List.length joined
      rw [List.length_nil, List.length_drop] at length
      omega
    rw [rows, if_neg nonempty, if_neg long, List.dropLast_cons_of_ne_nil nonemptyRows,
      List.mem_cons] at earlier
    rcases earlier with rfl | later
    · exact ⟨lineWidth, by omega, member⟩
    · have wholeToo : (characters.drop lineWidth).length % 4 = 0 := by
        rw [List.length_drop]
        omega
      obtain ⟨count, room, found⟩ := hypothesis wholeToo later
      rw [List.length_drop] at room
      refine ⟨lineWidth + count, by omega, ?_⟩
      rw [List.take_add]
      exact List.mem_append_right _ found

theorem decode?_rows_write (octets : Bytes) :
    decode? (rows (Base64.write octets)) = some octets := by
  have unpadded : (rows (Base64.write octets)).dropLast.all (!·.contains Base64.padding) = true := by
    rw [List.all_eq_true]
    intro line earlier
    rw [Bool.not_eq_true', ← Bool.not_eq_true, List.contains_iff_mem]
    intro padded
    obtain ⟨count, room, found⟩ :=
      exists_take_of_mem_dropLast_rows (Base64.length_write_mod octets) earlier padded
    exact Base64.padding_notMem_take octets room found
  rw [decode?, if_pos unpadded, flatten_rows, Base64.read?_write]

/-- Words with single blanks between them. -/
def IsLabel (label : Bytes) : Prop :=
  ∃ words : List Bytes, label = [0x20].intercalate words ∧
    ∀ word ∈ words, word ≠ [] ∧ ∀ octet ∈ word, isLabelCharacter octet = true

theorem splitLabel_word {word : Bytes} (nonempty : word ≠ [])
    (visible : ∀ octet ∈ word, isLabelCharacter octet = true) (blankAllowed : Bool) (rest : Bytes) :
    splitLabel blankAllowed (word ++ rest) =
      (word ++ (splitLabel true rest).1, (splitLabel true rest).2) := by
  induction word generalizing blankAllowed with
  | nil => exact absurd rfl nonempty
  | cons octet word hypothesis =>
    rw [List.cons_append, splitLabel, if_pos (visible octet List.mem_cons_self)]
    by_cases last : word = []
    · simp [last]
    · have later := hypothesis last
        (fun other member => visible other (List.mem_cons_of_mem octet member)) true
      simp [later]

/-- A label is split off where a hyphen follows. -/
theorem splitLabel_append {label : Bytes} (sound : IsLabel label) (rest : Bytes) :
    splitLabel false (label ++ 0x2d :: rest) = (label, 0x2d :: rest) := by
  have stops : ∀ blankAllowed, splitLabel blankAllowed (0x2d :: rest) = ([], 0x2d :: rest) := by
    intro blankAllowed
    simp [splitLabel, isLabelCharacter]
  obtain ⟨words, rfl, sound⟩ := sound
  induction words with
  | nil => exact stops false
  | cons word words hypothesis =>
    obtain ⟨⟨nonempty, visible⟩, later⟩ := List.forall_mem_cons.mp sound
    cases words with
    | nil =>
      rw [List.intercalate_singleton, splitLabel_word nonempty visible, stops, List.append_nil]
    | cons next words =>
      have blank : splitLabel true ([0x20] ++ ([0x20].intercalate (next :: words) ++ 0x2d :: rest)) =
          (0x20 :: [0x20].intercalate (next :: words), 0x2d :: rest) := by
        rw [List.singleton_append, splitLabel, if_neg (by decide), if_pos (by decide),
          hypothesis later]
      rw [List.intercalate_cons_cons, List.append_assoc, List.append_assoc,
        splitLabel_word nonempty visible, blank, List.append_assoc, List.singleton_append]

/-- A body between two boundary lines. -/
def enclose (label lineEnd body : Bytes) : Bytes :=
  beginMark ++ label ++ dashes ++ lineEnd ++ body ++ endMark ++ label ++ dashes ++ lineEnd

theorem encapsulated?_enclose {label lineEnd : Bytes} (sound : IsLabel label)
    (ends : IsLineEnd lineEnd) (body : Bytes) :
    encapsulated? (enclose label lineEnd body) = (beforeLineEnd? body).map (label, ·) := by
  have begun : afterBegin? (enclose label lineEnd body) = some (label ++ (dashes ++
      (lineEnd ++ ((body ++ endMark ++ label ++ dashes) ++ lineEnd)))) := by
    have found : beginMark.isPrefixOf? (enclose label lineEnd body) = some (label ++ (dashes ++
        (lineEnd ++ ((body ++ endMark ++ label ++ dashes) ++ lineEnd)))) := by
      rw [List.isPrefixOf?_eq_some_iff_append_eq]
      simp only [enclose, List.append_assoc]
    rw [afterBegin?, found]
  have labelled : ∀ rest, splitLabel false (label ++ (dashes ++ rest)) = (label, dashes ++ rest) :=
    fun rest => splitLabel_append sound _
  have opened : ∀ rest, dashes.isPrefixOf? (dashes ++ rest) = some rest :=
    fun rest => List.isPrefixOf?_eq_some_iff_append_eq.mpr rfl
  have last : (body ++ endMark ++ label ++ dashes).getLast? ≠ some 13 := by
    have hyphen : dashes.getLast? = some 0x2d := rfl
    rw [List.getLast?_append, hyphen, Option.some_or]
    decide
  have closed : ∀ (suffix front : Bytes), suffix.isSuffixOf? (front ++ suffix) = some front :=
    fun suffix front => List.isSuffixOf?_eq_some_iff_append_eq.mpr rfl
  simp only [encapsulated?, begun, labelled, opened, afterLineEnd?_append ends,
    beforeLineEnd?_append ends last, closed, Option.bind_eq_bind, Option.bind_some, Option.getD_some]
  cases beforeLineEnd? body <;> rfl

theorem write_eq_enclose (label lineEnd der : Bytes) : write label lineEnd der =
    enclose label lineEnd (writeLines lineEnd (Base64.write der)) := rfl

/-- A written document is read back, if it holds one DER SEQUENCE. -/
theorem read?_write {label lineEnd : Bytes} (sound : IsLabel label) (ends : IsLineEnd lineEnd)
    (der : Bytes) : read? (write label lineEnd der) = (Der.Rules.key.only? der).bind fun element =>
      if element.tag = [0x30] then some (label, der) else none := by
  have visible : ∀ octet ∈ Base64.write der, 0x20 < octet :=
    fun octet member => Base64.visible_of_mem_write member
  have complete : (joinRows lineEnd (Base64.write der)).getLast? ≠ some 13 := by
    rw [getLast?_joinRows]
    intro last
    exact absurd (visible 13 (List.mem_of_getLast? last)) (by decide)
  simp only [read?, write_eq_enclose, encapsulated?_enclose sound ends, writeLines_eq,
    beforeLineEnd?_append ends complete, Option.map_some, Option.bind_eq_bind, Option.bind_some,
    lines?_joinRows ends visible, decode?_rows_write]

end CredentialSigning.Pem.Document
