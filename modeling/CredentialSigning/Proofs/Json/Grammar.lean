import CredentialSigning.Proofs.Json.Integer
import CredentialSigning.Proofs.Json.Reading

/-! The grammar of JSON texts, as a relation between texts and trees. A string of a tree is kept as
it is written, and means nothing if it has half of a pair without the other half. A text is read as
what its tree means, and is refused if that is nothing. The only numbers are integers of at most
fifteen digits. -/

namespace CredentialSigning.Json
open Token

/-- What stands in a string: a character, or the number of sixteen bits of a numeric escape. -/
inductive Piece
  | character (c : Char)
  | unit (value : Nat)
  deriving DecidableEq

inductive Tree
  | null
  | bool (value : Bool)
  | integer (value : Int)
  | string (pieces : List Piece)
  | array (items : List Tree)
  | object (members : List (List Piece × Tree))

def blanks : List Char := [' ', '\t', '\n', '\r']

/-- The letters that stand for a character after a backslash. -/
def letterEscapes : List (Char × Char) :=
  [('"', '"'), ('\\', '\\'), ('/', '/'), ('b', '\x08'), ('f', '\x0c'), ('n', '\n'), ('r', '\r'),
    ('t', '\t')]

/-- The digits in base sixteen, in either case, with what they count. -/
def hexDigits : List (Char × Nat) :=
  "0123456789abcdef".toList.zipIdx ++ "ABCDEF".toList.zipIdx 10

/-- What may stand between the quotes of a string. -/
inductive WritesPieces : List Char → List Piece → Prop
  | nil : WritesPieces [] []
  | character {c : Char} {text : List Char} {pieces : List Piece} (unquoted : c ≠ '"')
      (unescaped : c ≠ '\\') (shown : 0x20 ≤ c.toNat) (rest : WritesPieces text pieces) :
      WritesPieces (c :: text) (.character c :: pieces)
  | letter {letter c : Char} {text : List Char} {pieces : List Piece}
      (named : (letter, c) ∈ letterEscapes) (rest : WritesPieces text pieces) :
      WritesPieces ('\\' :: letter :: text) (.character c :: pieces)
  | unit {a b c d : Char} {i j k l : Nat} {text : List Char} {pieces : List Piece}
      (first : (a, i) ∈ hexDigits) (second : (b, j) ∈ hexDigits) (third : (c, k) ∈ hexDigits)
      (fourth : (d, l) ∈ hexDigits) (rest : WritesPieces text pieces) :
      WritesPieces ('\\' :: 'u' :: a :: b :: c :: d :: text)
        (.unit (((i * 16 + j) * 16 + k) * 16 + l) :: pieces)

mutual

/-- A text of the grammar, blanks around it included. -/
inductive Writes : List Char → Tree → Prop
  | blankBefore {c : Char} {text : List Char} {tree : Tree} (blank : c ∈ blanks)
      (writes : Writes text tree) : Writes (c :: text) tree
  | blankAfter {c : Char} {text : List Char} {tree : Tree} (blank : c ∈ blanks)
      (writes : Writes text tree) : Writes (text ++ [c]) tree
  | null : Writes ['n', 'u', 'l', 'l'] .null
  | true : Writes ['t', 'r', 'u', 'e'] (.bool true)
  | false : Writes ['f', 'a', 'l', 's', 'e'] (.bool false)
  | natural {digits : List Char} (natural : IsNatural digits) :
      Writes digits (.integer (Decimal.digits digits))
  | negative {digits : List Char} (natural : IsNatural digits) :
      Writes ('-' :: digits) (.integer (-(Decimal.digits digits : Int)))
  | string {text : List Char} {pieces : List Piece} (inside : WritesPieces text pieces) :
      Writes ('"' :: (text ++ ['"'])) (.string pieces)
  | emptyArray {text : List Char} (blank : ∀ c ∈ text, c ∈ blanks) :
      Writes ('[' :: (text ++ [']'])) (.array [])
  | array {text others : List Char} {item : Tree} {items : List Tree} (first : Writes text item)
      (rest : WritesItems others items) : Writes ('[' :: (text ++ others)) (.array (item :: items))
  | emptyObject {text : List Char} (blank : ∀ c ∈ text, c ∈ blanks) :
      Writes ('\x7b' :: (text ++ ['\x7d'])) (.object [])
  | object {naming text others : List Char} {name : List Piece} {tree : Tree}
      {members : List (List Piece × Tree)} (named : Writes naming (.string name))
      (first : Writes text tree) (rest : WritesMembers others members) :
      Writes ('\x7b' :: (naming ++ ':' :: (text ++ others))) (.object ((name, tree) :: members))

/-- The items after the first one, and the closing bracket. -/
inductive WritesItems : List Char → List Tree → Prop
  | last : WritesItems [']'] []
  | next {text others : List Char} {item : Tree} {items : List Tree} (first : Writes text item)
      (rest : WritesItems others items) : WritesItems (',' :: (text ++ others)) (item :: items)

inductive WritesMembers : List Char → List (List Piece × Tree) → Prop
  | last : WritesMembers ['\x7d'] []
  | next {naming text others : List Char} {name : List Piece} {tree : Tree}
      {members : List (List Piece × Tree)} (named : Writes naming (.string name))
      (first : Writes text tree) (rest : WritesMembers others members) :
      WritesMembers (',' :: (naming ++ ':' :: (text ++ others))) ((name, tree) :: members)

end

mutual

/-- The characters of a string. Numbers from D800 to DBFF and from DC00 to DFFF are halves of a
pair, which is one character. -/
def meaning? : List Piece → Option (List Char)
  | [] => some []
  | .character c :: pieces => (meaning? pieces).map (c :: ·)
  | .unit value :: pieces =>
    if value < 0xd800 ∨ 0xe000 ≤ value then (meaning? pieces).map (Char.ofNat value :: ·)
    else if 0xdc00 ≤ value then none
    else pairMeaning? value pieces

/-- The characters of a string from a high half on; its low half has to come next. -/
def pairMeaning? (high : Nat) : List Piece → Option (List Char)
  | .unit low :: pieces =>
    if 0xdc00 ≤ low ∧ low < 0xe000 then
      (meaning? pieces).map
        (Char.ofNat (0x10000 + (high - 0xd800) * 0x400 + (low - 0xdc00)) :: ·)
    else none
  | _ => none

end

mutual

/-- What a tree means, if each of its strings means something. -/
def Tree.value? : Tree → Option Json
  | .null => some .null
  | .bool value => some (.bool value)
  | .integer value => some (.number ⟨value, 0⟩)
  | .string pieces => (meaning? pieces).map fun text => .string (String.ofList text)
  | .array items => (values? items).map .array
  | .object members => (members? members).map .object

def values? : List Tree → Option (List Json)
  | [] => some []
  | item :: items => item.value?.bind fun value => (values? items).map (value :: ·)

def members? : List (List Piece × Tree) → Option (List (String × Json))
  | [] => some []
  | (name, tree) :: members => (meaning? name).bind fun text => tree.value?.bind fun value =>
    (members? members).map ((String.ofList text, value) :: ·)

end

theorem hexDigit?_of_mem : ∀ digit ∈ hexDigits, hexDigit? digit.1 = some digit.2 := by
  decide +kernel

theorem escaped?_of_mem :
    ∀ named ∈ letterEscapes, escaped? named.1 = some named.2 ∧ named.1 ≠ 'u' := by
  decide +kernel

theorem isBlank_of_mem : ∀ c ∈ blanks, isBlank c = true :=
  List.all_eq_true.mp rfl

theorem isWordPart_of_mem_blanks {c : Char} (blank : c ∈ blanks) : isWordPart c = false := by
  rw [Bool.eq_false_iff]
  intro part
  have unblank : isBlank c = false := not_isBlank_of_isWordPart part
  rw [isBlank_of_mem c blank] at unblank
  cases unblank

namespace Token

theorem ofWord?_of_read? {word : List Char} {value : Decimal}
    (read : Decimal.read? word = some value) (finite : value.isFinite = true) :
    ofWord? word = some (number value) := by
  have notNull : word ≠ ['n', 'u', 'l', 'l'] := by
    rintro rfl
    cases read
  have notTrue : word ≠ ['t', 'r', 'u', 'e'] := by
    rintro rfl
    cases read
  have notFalse : word ≠ ['f', 'a', 'l', 's', 'e'] := by
    rintro rfl
    cases read
  simp only [ofWord?, if_neg notNull, if_neg notTrue, if_neg notFalse, read, if_pos finite]

theorem isWordPart_of_isDigit {c : Char} (decimal : c.isDigit = true) : isWordPart c = true := by
  simp [isWordPart, Char.isAlphanum, decimal]

theorem scanFrom?_natural {digits : List Char} (natural : IsNatural digits) {rest : List Char}
    (ends : EndsWord rest) (found : List Token) :
    scanFrom? ⟨found, .between⟩ (digits ++ rest) =
      scanFrom? ⟨number ⟨Decimal.digits digits, 0⟩ :: found, .between⟩ rest := by
  have parts : ∀ c ∈ digits, isWordPart c = true :=
    fun c member => isWordPart_of_isDigit (natural.decimal c member)
  have finite : Decimal.isFinite ⟨Decimal.digits digits, 0⟩ = true :=
    Decimal.isFinite_integer (by simpa using natural.digits_lt)
  exact scanFrom?_word parts (ofWord?_of_read? natural.read?_eq finite) ends found

theorem scanFrom?_negative {digits : List Char} (natural : IsNatural digits) {rest : List Char}
    (ends : EndsWord rest) (found : List Token) :
    scanFrom? ⟨found, .between⟩ ('-' :: (digits ++ rest)) =
      scanFrom? ⟨number ⟨-(Decimal.digits digits : Int), 0⟩ :: found, .between⟩ rest := by
  have parts : ∀ c ∈ '-' :: digits, isWordPart c = true := by
    intro c member
    rcases List.mem_cons.mp member with rfl | member
    · rfl
    · exact isWordPart_of_isDigit (natural.decimal c member)
  have finite : Decimal.isFinite ⟨-(Decimal.digits digits : Int), 0⟩ = true :=
    Decimal.isFinite_integer (by simpa using natural.digits_lt)
  exact scanFrom?_word parts (ofWord?_of_read? natural.read?_neg finite) ends found

theorem unit?_of_mem {a b c d : Char} {i j k l : Nat} (first : (a, i) ∈ hexDigits)
    (second : (b, j) ∈ hexDigits) (third : (c, k) ∈ hexDigits) (fourth : (d, l) ∈ hexDigits) :
    unit? [a, b, c, d] = some (((i * 16 + j) * 16 + k) * 16 + l) := by
  simp only [unit?, hexDigit?_of_mem _ first, hexDigit?_of_mem _ second, hexDigit?_of_mem _ third,
    hexDigit?_of_mem _ fourth, Option.bind_eq_bind, Option.bind_some]

/-- A numeric escape brings the scanner past its digits. -/
theorem scanFrom?_numeric {digits : List Char} {unit : Nat} (read : unit? digits = some unit)
    (found : List Token) (done rest : List Char) :
    scanFrom? ⟨found, .text done⟩ ('\\' :: 'u' :: (digits ++ rest)) =
      (afterUnit? done unit none).bind fun place => scanFrom? ⟨found, place⟩ rest := by
  have step : Scan.step? ⟨found, .escape done⟩ 'u' = some ⟨found, .numeric done none 3 0⟩ := rfl
  rw [scanFrom?_escape _ _ _ step, scanFrom?_unit read]

theorem scanFrom?_secondNumeric {digits : List Char} {unit : Nat} (read : unit? digits = some unit)
    (found : List Token) (done : List Char) (high : Nat) (rest : List Char) :
    scanFrom? ⟨found, .secondBackslash done high⟩ ('\\' :: 'u' :: (digits ++ rest)) =
      (afterUnit? done unit (some high)).bind fun place => scanFrom? ⟨found, place⟩ rest := by
  have backslash : Scan.step? ⟨found, .secondBackslash done high⟩ '\\' =
      some ⟨found, .secondLetter done high⟩ := rfl
  have letter : Scan.step? ⟨found, .secondLetter done high⟩ 'u' =
      some ⟨found, .numeric done (some high) 3 0⟩ := rfl
  rw [scanFrom?_of_step _ backslash, scanFrom?_of_step _ letter, scanFrom?_unit read]

/-- The scanner refuses a high half unless a low half follows. -/
theorem scanFrom?_secondBackslash {c : Char} (other : c ≠ '\\') (found : List Token)
    (done : List Char) (high : Nat) (rest : List Char) :
    scanFrom? ⟨found, .secondBackslash done high⟩ (c :: rest) = none := by
  simp [scanFrom?_cons, Scan.step?, other]

theorem scanFrom?_secondLetter {c : Char} (other : c ≠ 'u') (found : List Token)
    (done : List Char) (high : Nat) (rest : List Char) :
    scanFrom? ⟨found, .secondBackslash done high⟩ ('\\' :: c :: rest) = none := by
  have backslash : Scan.step? ⟨found, .secondBackslash done high⟩ '\\' =
      some ⟨found, .secondLetter done high⟩ := rfl
  rw [scanFrom?_of_step _ backslash]
  simp [scanFrom?_cons, Scan.step?, other]

/-- What a number without a high half before it leads to. -/
theorem afterUnit?_none (done : List Char) (value : Nat) : afterUnit? done value none =
    if value < 0xd800 ∨ 0xe000 ≤ value then some (.text (Char.ofNat value :: done))
    else if 0xdc00 ≤ value then none
    else some (.secondBackslash done value) := by
  simp only [afterUnit?, isHighHalf, isLowHalf, Bool.and_eq_true, decide_eq_true_eq]
  split_ifs <;> first | rfl | omega

theorem afterUnit?_some (done : List Char) (high low : Nat) : afterUnit? done low (some high) =
    if 0xdc00 ≤ low ∧ low < 0xe000 then some (.text (joinHalves high low :: done)) else none := by
  simp only [afterUnit?, isLowHalf, Bool.and_eq_true, decide_eq_true_eq]

/-- The scanner finds the string that pieces mean, also from the high half of a pair on, and goes on
after its closing quote. -/
theorem scanFrom?_pieces {text : List Char} {pieces : List Piece}
    (writes : WritesPieces text pieces) (found : List Token) (rest : List Char) :
    (∀ done, scanFrom? ⟨found, .text done⟩ (text ++ '"' :: rest) =
      (meaning? pieces).bind fun meant =>
        scanFrom? ⟨string (String.ofList (done.reverse ++ meant)) :: found, .between⟩ rest) ∧
    ∀ done high, scanFrom? ⟨found, .secondBackslash done high⟩ (text ++ '"' :: rest) =
      (pairMeaning? high pieces).bind fun meant =>
        scanFrom? ⟨string (String.ofList (done.reverse ++ meant)) :: found, .between⟩ rest := by
  induction writes with
  | nil =>
    constructor
    · intro done
      have closed : Scan.step? ⟨found, .text done⟩ '"' =
          some ⟨string (String.ofList done.reverse) :: found, .between⟩ := rfl
      rw [List.nil_append, scanFrom?_of_step _ closed, meaning?, Option.bind_some, List.append_nil]
    · intro done high
      exact scanFrom?_secondBackslash (by decide) _ _ _ _
  | @character c text pieces unquoted unescaped shown inside hypothesis =>
    constructor
    · intro done
      have step : Scan.step? ⟨found, .text done⟩ c = some ⟨found, .text (c :: done)⟩ := by
        simp only [Scan.step?, if_neg unquoted, if_neg unescaped, if_neg (Nat.not_lt.mpr shown)]
      rw [List.cons_append, scanFrom?_of_step _ step, hypothesis.1, meaning?, Option.bind_map]
      simp
    · intro done high
      exact scanFrom?_secondBackslash unescaped _ _ _ _
  | @letter letter c text pieces named inside hypothesis =>
    obtain ⟨escaped, notNumeric⟩ := escaped?_of_mem _ named
    constructor
    · intro done
      have step : Scan.step? ⟨found, .escape done⟩ letter = some ⟨found, .text (c :: done)⟩ := by
        simp only [Scan.step?, if_neg notNumeric, escaped, Option.map_some]
      rw [List.cons_append, List.cons_append, scanFrom?_escape _ _ _ step, hypothesis.1, meaning?,
        Option.bind_map]
      simp
    · intro done high
      exact scanFrom?_secondLetter notNumeric _ _ _ _
  | @unit a b c d i j k l text pieces first second third fourth inside hypothesis =>
    have read := unit?_of_mem first second third fourth
    generalize ((i * 16 + j) * 16 + k) * 16 + l = value at read ⊢
    constructor
    · intro done
      have scanned := scanFrom?_numeric read found done (text ++ '"' :: rest)
      simp only [List.cons_append, List.nil_append] at scanned ⊢
      rw [scanned, afterUnit?_none, meaning?]
      split_ifs with whole low
      · rw [Option.bind_some, hypothesis.1, Option.bind_map]
        simp
      · rfl
      · rw [Option.bind_some, hypothesis.2]
    · intro done high
      have scanned := scanFrom?_secondNumeric read found done high (text ++ '"' :: rest)
      simp only [List.cons_append, List.nil_append] at scanned ⊢
      rw [scanned, afterUnit?_some, pairMeaning?]
      split_ifs with paired
      · rw [Option.bind_some, hypothesis.1, Option.bind_map]
        simp [joinHalves]
      · rfl

theorem scanFrom?_punctuation {c : Char} {token : Token} (stands : punctuation? c = some token)
    (found : List Token) (rest : List Char) :
    scanFrom? ⟨found, .between⟩ (c :: rest) = scanFrom? ⟨token :: found, .between⟩ rest :=
  scanFrom?_of_step rest (start?_of_punctuation stands found)

theorem punctuation?_colon : punctuation? ':' = some colon := rfl

theorem scanFrom?_blank {c : Char} (blank : c ∈ blanks) (found : List Token) (rest : List Char) :
    scanFrom? ⟨found, .between⟩ (c :: rest) = scanFrom? ⟨found, .between⟩ rest := by
  have step : Scan.step? ⟨found, .between⟩ c = some ⟨found, .between⟩ := by
    simp only [Scan.step?, Scan.start?, if_pos (isBlank_of_mem c blank)]
  exact scanFrom?_of_step rest step

theorem scanFrom?_blanks {text : List Char} (blank : ∀ c ∈ text, c ∈ blanks) (found : List Token)
    (rest : List Char) :
    scanFrom? ⟨found, .between⟩ (text ++ rest) = scanFrom? ⟨found, .between⟩ rest := by
  induction text with
  | nil => rfl
  | cons c text hypothesis =>
    rw [List.cons_append, scanFrom?_blank (blank c List.mem_cons_self),
      hypothesis fun other member => blank other (List.mem_cons_of_mem c member)]

end Token

theorem WritesItems.endsWord {text : List Char} {items : List Tree}
    (writes : WritesItems text items) (rest : List Char) : EndsWord (text ++ rest) := by
  cases writes <;> exact endsWord_cons rfl _

theorem WritesMembers.endsWord {text : List Char} {members : List (List Piece × Tree)}
    (writes : WritesMembers text members) (rest : List Char) : EndsWord (text ++ rest) := by
  cases writes <;> exact endsWord_cons rfl _

mutual

/-- The scanner finds the tokens of what a tree means, if no name goes on after it. -/
theorem scanFrom?_writes {text : List Char} {tree : Tree} (writes : Writes text tree)
    {rest : List Char} (ends : EndsWord rest) (found : List Token) :
    scanFrom? ⟨found, .between⟩ (text ++ rest) = tree.value?.bind fun value =>
      scanFrom? ⟨(tokens value).reverse ++ found, .between⟩ rest := by
  match writes with
  | .blankBefore blank inside =>
    rw [List.cons_append, scanFrom?_blank blank, scanFrom?_writes inside ends]
  | @Writes.blankAfter c text tree blank inside =>
    have apart : EndsWord (c :: rest) := endsWord_cons (isWordPart_of_mem_blanks blank) rest
    rw [List.append_assoc, List.singleton_append, scanFrom?_writes inside apart]
    simp only [scanFrom?_blank blank]
  | .null => exact scanFrom?_word (List.all_eq_true.mp rfl) rfl ends found
  | .true => exact scanFrom?_word (List.all_eq_true.mp rfl) rfl ends found
  | .false => exact scanFrom?_word (List.all_eq_true.mp rfl) rfl ends found
  | .natural natural => exact scanFrom?_natural natural ends found
  | .negative natural => exact scanFrom?_negative natural ends found
  | .string inside =>
    have opened : Scan.step? ⟨found, .between⟩ '"' = some ⟨found, .text []⟩ := rfl
    rw [List.cons_append, List.append_assoc, List.singleton_append, scanFrom?_of_step _ opened,
      (scanFrom?_pieces inside _ _).1, Tree.value?, Option.bind_map]
    rfl
  | .emptyArray blank =>
    rw [List.cons_append, List.append_assoc, List.singleton_append, scanFrom?_punctuation rfl,
      scanFrom?_blanks blank, scanFrom?_punctuation rfl]
    rfl
  | .array first others =>
    rw [List.cons_append, List.append_assoc, scanFrom?_punctuation rfl,
      scanFrom?_writes first (others.endsWord rest)]
    simp only [scanFrom?_writesItems others]
    simp [Tree.value?, values?, tokens, Option.bind_assoc, Option.map_bind, Option.bind_map,
      Function.comp_def]
  | .emptyObject blank =>
    rw [List.cons_append, List.append_assoc, List.singleton_append, scanFrom?_punctuation rfl,
      scanFrom?_blanks blank, scanFrom?_punctuation rfl]
    rfl
  | .object named first others =>
    rw [List.cons_append, List.append_assoc, List.cons_append, List.append_assoc,
      scanFrom?_punctuation rfl, scanFrom?_writes named (endsWord_cons rfl _)]
    simp only [scanFrom?_punctuation punctuation?_colon,
      scanFrom?_writes first (others.endsWord rest), scanFrom?_writesMembers others]
    simp [Tree.value?, members?, tokens, Option.bind_assoc, Option.map_bind, Option.bind_map,
      Function.comp_def]

theorem scanFrom?_writesItems {text : List Char} {items : List Tree}
    (writes : WritesItems text items) (rest : List Char) (found : List Token) :
    scanFrom? ⟨found, .between⟩ (text ++ rest) = (values? items).bind fun values =>
      scanFrom? ⟨(tokensOfItems values).reverse ++ found, .between⟩ rest := by
  match writes with
  | .last =>
    rw [List.singleton_append, scanFrom?_punctuation rfl]
    rfl
  | .next first others =>
    rw [List.cons_append, List.append_assoc, scanFrom?_punctuation rfl,
      scanFrom?_writes first (others.endsWord rest)]
    simp only [scanFrom?_writesItems others]
    simp [values?, tokensOfItems, Option.bind_assoc, Option.bind_map]

theorem scanFrom?_writesMembers {text : List Char} {members : List (List Piece × Tree)}
    (writes : WritesMembers text members) (rest : List Char) (found : List Token) :
    scanFrom? ⟨found, .between⟩ (text ++ rest) = (members? members).bind fun values =>
      scanFrom? ⟨(tokensOfMembers values).reverse ++ found, .between⟩ rest := by
  match writes with
  | .last =>
    rw [List.singleton_append, scanFrom?_punctuation rfl]
    rfl
  | .next named first others =>
    rw [List.cons_append, List.append_assoc, List.cons_append, List.append_assoc,
      scanFrom?_punctuation rfl, scanFrom?_writes named (endsWord_cons rfl _)]
    simp only [scanFrom?_punctuation punctuation?_colon,
      scanFrom?_writes first (others.endsWord rest), scanFrom?_writesMembers others]
    simp [Tree.value?, members?, tokens, tokensOfMembers, Option.bind_assoc, Option.bind_map]

end

theorem scan?_of_writes {text : List Char} {tree : Tree} (writes : Writes text tree) :
    scan? text = tree.value?.map tokens := by
  have scanned := scanFrom?_writes writes endsWord_nil []
  rw [List.append_nil] at scanned
  rw [scan?, ← scanFrom?, scanned]
  simp [scanFrom?, Scan.finish?, Option.map_eq_bind]

/-- A text of the grammar is read as what its tree means, unless that nests too deep. -/
theorem read?_of_writes {text : String} {tree : Tree} (writes : Writes text.toList tree)
    (fits : ∀ value, tree.value? = some value → depth value ≤ nestingLimit) :
    read? text = tree.value? := by
  rw [read?, scan?_of_writes writes]
  cases meant : tree.value? with
  | none => rfl
  | some value => exact ofTokens?_tokens (fits value meant)

/-- A value that a text means. -/
def Denotes (text : String) (value : Json) : Prop :=
  ∃ tree, Writes text.toList tree ∧ tree.value? = some value

theorem read?_of_denotes {text : String} {value : Json} (denotes : Denotes text value)
    (fits : depth value ≤ nestingLimit) : read? text = some value := by
  obtain ⟨tree, writes, meant⟩ := denotes
  rw [← meant]
  apply read?_of_writes writes
  intro other same
  obtain rfl := Option.some.inj (meant.symm.trans same)
  exact fits

theorem depthOfItems_le {items : List Json} {bound : Nat}
    (each : ∀ item ∈ items, depth item ≤ bound) : depthOfItems items ≤ bound := by
  induction items with
  | nil => exact Nat.zero_le bound
  | cons item items hypothesis =>
    exact Nat.max_le.mpr ⟨each item List.mem_cons_self,
      hypothesis fun other inside => each other (List.mem_cons_of_mem item inside)⟩

theorem depthOfMembers_le {members : List (String × Json)} {bound : Nat}
    (each : ∀ member ∈ members, depth member.2 ≤ bound) : depthOfMembers members ≤ bound := by
  induction members with
  | nil => exact Nat.zero_le bound
  | cons member members hypothesis =>
    exact Nat.max_le.mpr ⟨each member List.mem_cons_self,
      hypothesis fun other inside => each other (List.mem_cons_of_mem member inside)⟩

/-- A string in which nothing is escaped. -/
def quoted (text : String) : List Char :=
  '"' :: (text.toList ++ ['"'])

def plainPieces (text : String) : List Piece :=
  text.toList.map .character

def isPlain (c : Char) : Bool :=
  c ≠ '"' && c ≠ '\\' && 0x20 ≤ c.toNat

theorem writesPieces_plain {text : List Char} (plain : text.all isPlain = true) :
    WritesPieces text (text.map .character) := by
  induction text with
  | nil => exact .nil
  | cons c text hypothesis =>
    simp only [List.all_cons, isPlain, Bool.and_eq_true, decide_eq_true_eq] at plain
    obtain ⟨⟨⟨unquoted, unescaped⟩, shown⟩, rest⟩ := plain
    exact .character unquoted unescaped shown (hypothesis rest)

theorem writes_quoted {text : String} (plain : text.toList.all isPlain = true) :
    Writes (quoted text) (.string (plainPieces text)) :=
  .string (writesPieces_plain plain)

end CredentialSigning.Json
