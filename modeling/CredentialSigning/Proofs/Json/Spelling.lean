import CredentialSigning.Json.Written
import Mathlib.Tactic.IntervalCases

/-! How texts spell tokens. A token may be spelled in several ways: blanks stand before and after it,
and a character in a string is written as it is, by a letter, or by one or two numbers. The scanner
finds the tokens of every spelling. -/

namespace CredentialSigning.Json.Token

/-- The number that four digits in base sixteen denote. -/
def unit? : List Char → Option Nat
  | [first, second, third, fourth] => do
    let first ← hexDigit? first
    let second ← hexDigit? second
    let third ← hexDigit? third
    let fourth ← hexDigit? fourth
    some (((first * 16 + second) * 16 + third) * 16 + fourth)
  | _ => none

/-- How characters are spelled between the quotes of a string. -/
inductive SpellsText : List Char → List Char → Prop
  | nil : SpellsText [] []
  | plain {c : Char} {spelled meant : List Char} (unquoted : c ≠ '"') (unescaped : c ≠ '\\')
      (shown : 0x20 ≤ c.toNat) (rest : SpellsText spelled meant) :
      SpellsText (c :: spelled) (c :: meant)
  | letter {letter c : Char} {spelled meant : List Char} (named : escaped? letter = some c)
      (rest : SpellsText spelled meant) : SpellsText ('\\' :: letter :: spelled) (c :: meant)
  | number {digits : List Char} {unit : Nat} {spelled meant : List Char}
      (read : unit? digits = some unit) (notHigh : isHighHalf unit = false)
      (notLow : isLowHalf unit = false) (rest : SpellsText spelled meant) :
      SpellsText ('\\' :: 'u' :: (digits ++ spelled)) (Char.ofNat unit :: meant)
  | pair {first second : List Char} {high low : Nat} {spelled meant : List Char}
      (readHigh : unit? first = some high) (isHigh : isHighHalf high = true)
      (readLow : unit? second = some low) (isLow : isLowHalf low = true)
      (rest : SpellsText spelled meant) :
      SpellsText ('\\' :: 'u' :: (first ++ '\\' :: 'u' :: (second ++ spelled)))
        (joinHalves high low :: meant)

/-- The text does not go on with a character of a number or a name. -/
def EndsWord (text : List Char) : Prop :=
  ∀ c ∈ text.head?, isWordPart c = false

theorem endsWord_nil : EndsWord [] := by
  rintro c ⟨⟩

theorem endsWord_cons {c : Char} (apart : isWordPart c = false) (text : List Char) :
    EndsWord (c :: text) := by
  rintro first ⟨⟩
  exact apart

/-- How tokens are spelled one after the other. -/
inductive Spells : List Char → List Token → Prop
  | nil : Spells [] []
  | blank {c : Char} {text : List Char} {tokens : List Token} (blank : isBlank c = true)
      (rest : Spells text tokens) : Spells (c :: text) tokens
  | punctuation {c : Char} {token : Token} {text : List Char} {tokens : List Token}
      (stands : punctuation? c = some token) (rest : Spells text tokens) :
      Spells (c :: text) (token :: tokens)
  | word {letters : List Char} {token : Token} {text : List Char} {tokens : List Token}
      (parts : ∀ c ∈ letters, isWordPart c = true) (read : ofWord? letters = some token)
      (ends : EndsWord text) (rest : Spells text tokens) :
      Spells (letters ++ text) (token :: tokens)
  | string {spelled meant : List Char} {text : List Char} {tokens : List Token}
      (inside : SpellsText spelled meant) (rest : Spells text tokens) :
      Spells ('"' :: (spelled ++ '"' :: text)) (string (String.ofList meant) :: tokens)

/-- The tokens of a text for a scanner that stands at some place. -/
def scanFrom? (scan : Scan) (text : List Char) : Option (List Token) :=
  (text.foldlM Scan.step? scan).bind Scan.finish?

theorem scanFrom?_cons (scan : Scan) (c : Char) (text : List Char) :
    scanFrom? scan (c :: text) = (scan.step? c).bind fun next => scanFrom? next text := by
  simp only [scanFrom?, List.foldlM_cons, Option.bind_eq_bind, Option.bind_assoc]

theorem scanFrom?_of_step {scan next : Scan} {c : Char} (text : List Char)
    (step : scan.step? c = some next) : scanFrom? scan (c :: text) = scanFrom? next text := by
  rw [scanFrom?_cons, step, Option.bind_some]

theorem scanFrom?_unit {digits : List Char} {unit : Nat} (read : unit? digits = some unit)
    (tokens : List Token) (done : List Char) (high : Option Nat) (text : List Char) :
    scanFrom? ⟨tokens, .numeric done high 3 0⟩ (digits ++ text) =
      (afterUnit? done unit high).bind fun place => scanFrom? ⟨tokens, place⟩ text := by
  match digits, read with
  | [first, second, third, fourth], read =>
    simp only [unit?, Option.bind_eq_bind, Option.bind_eq_some_iff, Option.some.injEq] at read
    obtain ⟨a, readFirst, b, readSecond, c, readThird, d, readFourth, rfl⟩ := read
    simp [scanFrom?_cons, Scan.step?, readFirst, readSecond, readThird, readFourth,
      Option.bind_map]

theorem scanFrom?_escape {letter : Char} {next : Scan} (tokens : List Token) (done text : List Char)
    (step : Scan.step? ⟨tokens, .escape done⟩ letter = some next) :
    scanFrom? ⟨tokens, .text done⟩ ('\\' :: letter :: text) = scanFrom? next text := by
  have opened : Scan.step? ⟨tokens, .text done⟩ '\\' = some ⟨tokens, .escape done⟩ := rfl
  rw [scanFrom?_of_step _ opened, scanFrom?_of_step _ step]

/-- The scanner passes over the spelling of a text and keeps the text. -/
theorem scanFrom?_text {spelled meant : List Char} (spells : SpellsText spelled meant)
    (tokens : List Token) (done text : List Char) :
    scanFrom? ⟨tokens, .text done⟩ (spelled ++ text) =
      scanFrom? ⟨tokens, .text (meant.reverse ++ done)⟩ text := by
  induction spells generalizing done with
  | nil => rfl
  | @plain c spelled meant unquoted unescaped shown rest hypothesis =>
    have step : Scan.step? ⟨tokens, .text done⟩ c = some ⟨tokens, .text (c :: done)⟩ := by
      simp only [Scan.step?, if_neg unquoted, if_neg unescaped, if_neg (Nat.not_lt.mpr shown)]
    rw [List.cons_append, scanFrom?_of_step _ step, hypothesis]
    simp
  | @letter letter c spelled meant named rest hypothesis =>
    have notNumeric : letter ≠ 'u' := by
      rintro rfl
      cases named
    have step : Scan.step? ⟨tokens, .escape done⟩ letter = some ⟨tokens, .text (c :: done)⟩ := by
      simp only [Scan.step?, if_neg notNumeric, named, Option.map_some]
    rw [List.cons_append, List.cons_append, scanFrom?_escape _ _ _ step, hypothesis]
    simp
  | @number digits unit spelled meant read notHigh notLow rest hypothesis =>
    have place : afterUnit? done unit none = some (.text (Char.ofNat unit :: done)) := by
      simp [afterUnit?, notHigh, notLow]
    have step : Scan.step? ⟨tokens, .escape done⟩ 'u' = some ⟨tokens, .numeric done none 3 0⟩ := rfl
    rw [List.cons_append, List.cons_append, scanFrom?_escape _ _ _ step, List.append_assoc,
      scanFrom?_unit read, place, Option.bind_some, hypothesis]
    simp
  | @pair first second high low spelled meant readHigh isHigh readLow isLow rest hypothesis =>
    have place : afterUnit? done high none = some (.secondBackslash done high) := by
      simp [afterUnit?, isHigh]
    have joined : afterUnit? done low (some high) = some (.text (joinHalves high low :: done)) := by
      simp [afterUnit?, isLow]
    have step : Scan.step? ⟨tokens, .escape done⟩ 'u' = some ⟨tokens, .numeric done none 3 0⟩ := rfl
    have backslash : Scan.step? ⟨tokens, .secondBackslash done high⟩ '\\' =
        some ⟨tokens, .secondLetter done high⟩ := rfl
    have again : Scan.step? ⟨tokens, .secondLetter done high⟩ 'u' =
        some ⟨tokens, .numeric done (some high) 3 0⟩ := rfl
    rw [List.cons_append, List.cons_append, scanFrom?_escape _ _ _ step, List.append_assoc,
      scanFrom?_unit readHigh, place, Option.bind_some, List.cons_append, List.cons_append,
      scanFrom?_of_step _ backslash, scanFrom?_of_step _ again, List.append_assoc,
      scanFrom?_unit readLow, joined, Option.bind_some, hypothesis]
    simp

theorem not_isBlank_of_isWordPart {c : Char} (part : isWordPart c = true) : isBlank c = false := by
  by_contra blank
  simp only [isBlank, Bool.not_eq_false, Bool.or_eq_true, decide_eq_true_eq] at blank
  obtain ((rfl | rfl) | rfl) | rfl := blank <;> cases part

theorem start?_of_isWordPart {c : Char} (part : isWordPart c = true) (tokens : List Token) :
    Scan.start? tokens c = some ⟨tokens, .word [c]⟩ := by
  have unquoted : c ≠ '"' := by
    rintro rfl
    cases part
  simp [Scan.start?, not_isBlank_of_isWordPart part, unquoted, part]

theorem scanFrom?_letters {letters : List Char} (parts : ∀ c ∈ letters, isWordPart c = true)
    (tokens : List Token) (done text : List Char) :
    scanFrom? ⟨tokens, .word done⟩ (letters ++ text) =
      scanFrom? ⟨tokens, .word (letters.reverse ++ done)⟩ text := by
  induction letters generalizing done with
  | nil => rfl
  | cons c letters hypothesis =>
    have step : Scan.step? ⟨tokens, .word done⟩ c = some ⟨tokens, .word (c :: done)⟩ := by
      simp only [Scan.step?, if_pos (parts c List.mem_cons_self)]
    rw [List.cons_append, scanFrom?_of_step _ step,
      hypothesis fun other member => parts other (List.mem_cons_of_mem c member)]
    simp

/-- A word is read where it ends, and the scanner goes on as if it had not been inside one. -/
theorem scanFrom?_endsWord {letters text : List Char} {token : Token}
    (read : ofWord? letters.reverse = some token) (ends : EndsWord text) (tokens : List Token) :
    scanFrom? ⟨tokens, .word letters⟩ text = scanFrom? ⟨token :: tokens, .between⟩ text := by
  cases text with
  | nil => simp [scanFrom?, Scan.finish?, read]
  | cons c text =>
    have notPart : isWordPart c = false := ends c rfl
    simp [scanFrom?_cons, Scan.step?, notPart, read]

theorem ofWord?_nil : ofWord? [] = none := rfl

theorem scanFrom?_word {letters text : List Char} {token : Token}
    (parts : ∀ c ∈ letters, isWordPart c = true) (read : ofWord? letters = some token)
    (ends : EndsWord text) (tokens : List Token) :
    scanFrom? ⟨tokens, .between⟩ (letters ++ text) = scanFrom? ⟨token :: tokens, .between⟩ text := by
  cases letters with
  | nil =>
    rw [ofWord?_nil] at read
    cases read
  | cons c letters =>
    have step : Scan.step? ⟨tokens, .between⟩ c = some ⟨tokens, .word [c]⟩ :=
      start?_of_isWordPart (parts c List.mem_cons_self) tokens
    rw [List.cons_append, scanFrom?_of_step _ step,
      scanFrom?_letters fun other member => parts other (List.mem_cons_of_mem c member)]
    apply scanFrom?_endsWord _ ends
    simpa using read

theorem start?_of_punctuation {c : Char} {token : Token} (stands : punctuation? c = some token)
    (tokens : List Token) : Scan.start? tokens c = some ⟨token :: tokens, .between⟩ := by
  unfold punctuation? at stands
  split at stands <;> cases stands <;> rfl

/-- The scanner finds the tokens that a text spells, whatever it has found before. -/
theorem scanFrom?_of_spells {text : List Char} {tokens : List Token} (spells : Spells text tokens)
    (found : List Token) :
    scanFrom? ⟨found, .between⟩ text = some (found.reverse ++ tokens) := by
  induction spells generalizing found with
  | nil => simp [scanFrom?, Scan.finish?]
  | @blank c text tokens blank rest hypothesis =>
    have step : Scan.step? ⟨found, .between⟩ c = some ⟨found, .between⟩ := by
      simp only [Scan.step?, Scan.start?, if_pos blank]
    rw [scanFrom?_of_step _ step, hypothesis]
  | @punctuation c token text tokens stands rest hypothesis =>
    have step : Scan.step? ⟨found, .between⟩ c = some ⟨token :: found, .between⟩ :=
      start?_of_punctuation stands found
    rw [scanFrom?_of_step _ step, hypothesis]
    simp
  | @word letters token text tokens parts read ends rest hypothesis =>
    rw [scanFrom?_word parts read ends, hypothesis]
    simp
  | @string spelled meant text tokens inside rest hypothesis =>
    have opened : Scan.step? ⟨found, .between⟩ '"' = some ⟨found, .text []⟩ := rfl
    have closed : Scan.step? ⟨found, .text (meant.reverse ++ [])⟩ '"' =
        some ⟨string (String.ofList meant) :: found, .between⟩ := by
      simp [Scan.step?]
    rw [scanFrom?_of_step _ opened, scanFrom?_text inside, scanFrom?_of_step _ closed, hypothesis]
    simp

theorem scan?_of_spells {text : List Char} {tokens : List Token} (spells : Spells text tokens) :
    scan? text = some tokens :=
  scanFrom?_of_spells spells []

theorem hexDigit?_digitChar {value : Nat} (small : value < 16) :
    hexDigit? (Nat.digitChar value) = some value := by
  interval_cases value <;> rfl

theorem unit?_hexPair {value : Nat} (small : value < 0x20) :
    unit? ('0' :: '0' :: hexPair value) = some value := by
  have zero : hexDigit? '0' = some 0 := rfl
  have high : hexDigit? (Nat.digitChar (value / 16 % 16)) = some (value / 16 % 16) :=
    hexDigit?_digitChar (Nat.mod_lt _ (by decide))
  have low : hexDigit? (Nat.digitChar (value % 16)) = some (value % 16) :=
    hexDigit?_digitChar (Nat.mod_lt _ (by decide))
  simp only [hexPair, unit?, zero, high, low, Option.bind_eq_bind, Option.bind_some]
  congr 1
  omega

/-- A written character spells that character. -/
theorem spellsText_writeChar (c : Char) {spelled meant : List Char}
    (rest : SpellsText spelled meant) : SpellsText (writeChar c ++ spelled) (c :: meant) := by
  unfold writeChar
  split_ifs with quote backslash backspace feed newline carriage tab control
  · exact .letter (by rw [quote]; rfl) rest
  · exact .letter (by rw [backslash]; rfl) rest
  · exact .letter (by rw [backspace]; rfl) rest
  · exact .letter (by rw [feed]; rfl) rest
  · exact .letter (by rw [newline]; rfl) rest
  · exact .letter (by rw [carriage]; rfl) rest
  · exact .letter (by rw [tab]; rfl) rest
  · have notHigh : isHighHalf c.toNat = false := by
      simp only [isHighHalf, Bool.and_eq_false_iff, decide_eq_false_iff_not]
      omega
    have notLow : isLowHalf c.toNat = false := by
      simp only [isLowHalf, Bool.and_eq_false_iff, decide_eq_false_iff_not]
      omega
    have spells := SpellsText.number (unit?_hexPair control) notHigh notLow rest
    rwa [Char.ofNat_toNat] at spells
  · exact .plain quote backslash (Nat.not_lt.mp control) rest

theorem spellsText_flatMap (text : List Char) : SpellsText (text.flatMap writeChar) text := by
  induction text with
  | nil => exact .nil
  | cons c text hypothesis =>
    rw [List.flatMap_cons]
    exact spellsText_writeChar c hypothesis

theorem spells_writeString (meant : String) {text : List Char} {tokens : List Token}
    (rest : Spells text tokens) :
    Spells (writeString meant ++ text) (string meant :: tokens) := by
  have spells := Spells.string (spellsText_flatMap meant.toList) rest
  rw [String.ofList_toList] at spells
  simpa [writeString] using spells

end CredentialSigning.Json.Token
