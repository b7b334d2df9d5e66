import CredentialSigning.Proofs.Json.Grammar
import CredentialSigning.Proofs.Json.Scanning

/-! The reader takes nothing but the grammar: if a value without numbers is read from a text, then the
grammar has a tree for the text, and the tree means the value. The tokens that were taken are the
value's, and a text that spells them is put together from the texts of its parts. -/

namespace CredentialSigning.Json
open Token

/-- The items of an array that is still open, each with the comma after it. -/
def tokensBeforeItem (items : List Json) : List Token :=
  items.flatMap fun item => tokens item ++ [.comma]

def tokensBeforeMember (members : List (String × Json)) : List Token :=
  members.flatMap fun member => .string member.1 :: .colon :: tokens member.2 ++ [.comma]

theorem tokens_array_concat (items : List Json) (last : Json) : tokens (.array (items ++ [last])) =
    .leftBracket :: tokensBeforeItem items ++ tokens last ++ [.rightBracket] := by
  cases items with
  | nil => simp [tokens, tokensOfItems, tokensBeforeItem]
  | cons first items =>
    have others : tokens first ++ tokensOfItems (items ++ [last]) =
        tokensBeforeItem (first :: items) ++ tokens last ++ [.rightBracket] := by
      induction items generalizing first with
      | nil => simp [tokensOfItems, tokensBeforeItem]
      | cons item items hypothesis =>
        have later := hypothesis item
        simp only [tokensBeforeItem, List.cons_append, tokensOfItems, List.flatMap_cons,
          List.append_assoc, List.cons_append, List.nil_append] at later ⊢
        rw [later]
    simpa [tokens] using others

theorem tokens_object_concat (members : List (String × Json)) (name : String) (last : Json) :
    tokens (.object (members ++ [(name, last)])) =
      .leftBrace :: tokensBeforeMember members ++ .string name :: .colon :: tokens last ++
        [.rightBrace] := by
  cases members with
  | nil => simp [tokens, tokensOfMembers, tokensBeforeMember]
  | cons first members =>
    have others : .string first.1 :: .colon :: tokens first.2 ++
        tokensOfMembers (members ++ [(name, last)]) =
        tokensBeforeMember (first :: members) ++ .string name :: .colon :: tokens last ++
          [.rightBrace] := by
      induction members generalizing first with
      | nil => simp [tokensOfMembers, tokensBeforeMember]
      | cons member members hypothesis =>
        have later := hypothesis member
        simp only [tokensBeforeMember, List.cons_append, tokensOfMembers, List.flatMap_cons,
          List.append_assoc, List.cons_append, List.nil_append] at later ⊢
        rw [later]
    simpa [tokens] using others

/-- The tokens of an open container, up to where a value is wanted in it. -/
def Frame.tokens : Frame → List Token
  | .items done => .leftBracket :: tokensBeforeItem done.reverse
  | .members done name => .leftBrace :: tokensBeforeMember done.reverse ++ [.string name, .colon]

def tokensOfFrames (frames : List Frame) : List Token :=
  frames.reverse.flatMap Frame.tokens

namespace Progress

/-- The tokens that were taken on the way to a progress. -/
def taken : Progress → List Token
  | wantValue frames => tokensOfFrames frames
  | wantItem frames => tokensOfFrames frames ++ [.leftBracket]
  | wantName frames done => tokensOfFrames frames ++ .leftBrace :: tokensBeforeMember done.reverse
  | wantColon frames done name =>
    tokensOfFrames frames ++ .leftBrace :: tokensBeforeMember done.reverse ++ [.string name]
  | complete frames value => tokensOfFrames frames ++ tokens value

theorem taken_begin? {frames : List Frame} {token : Token} {next : Progress}
    (begins : begin? frames token = some next) : next.taken = tokensOfFrames frames ++ [token] := by
  cases token with
  | leftBracket =>
    simp only [begin?] at begins
    split_ifs at begins
    cases begins
    rfl
  | leftBrace =>
    simp only [begin?] at begins
    split_ifs at begins
    cases begins
    rfl
  | null | bool _ | number _ | string _ =>
    cases begins
    rfl
  | _ => cases begins

theorem taken_continue? {frames : List Frame} {value : Json} {token : Token} {next : Progress}
    (continues : continue? value frames token = some next) :
    next.taken = tokensOfFrames frames ++ tokens value ++ [token] := by
  unfold continue? at continues
  split at continues
  · cases continues
    simp [taken, tokensOfFrames, Frame.tokens, tokensBeforeItem]
  · cases continues
    simp [taken, tokensOfFrames, Frame.tokens, tokens_array_concat]
  · cases continues
    simp [taken, tokensOfFrames, Frame.tokens, tokensBeforeMember]
  · cases continues
    simp [taken, tokensOfFrames, Frame.tokens, tokens_object_concat]
  · cases continues

theorem taken_step? {progress next : Progress} {token : Token}
    (step : progress.step? token = some next) : next.taken = progress.taken ++ [token] := by
  unfold step? at step
  split at step
  · exact taken_begin? step
  · cases step
    simp [taken, tokens]
  · have taken := taken_begin? step
    simpa [Progress.taken, tokensOfFrames, Frame.tokens, tokensBeforeItem] using taken
  · cases step
    simp [taken, tokens, tokensBeforeMember]
  · cases step
    simp [taken]
  · cases step
    simp [taken, tokensOfFrames, Frame.tokens]
  · exact taken_continue? step
  · cases step

theorem taken_run? {progress last : Progress} {tokens : List Token}
    (run : progress.run? tokens = some last) : last.taken = progress.taken ++ tokens := by
  induction tokens generalizing progress with
  | nil =>
    cases run
    exact (List.append_nil _).symm
  | cons token tokens hypothesis =>
    simp only [run?, List.foldlM_cons, Option.bind_eq_bind] at run
    obtain ⟨next, step, run⟩ := Option.bind_eq_some_iff.mp run
    rw [hypothesis run, taken_step? step, List.append_assoc, List.singleton_append]

end Progress

/-- A value is read from its own tokens only. -/
theorem eq_tokens_of_ofTokens? {found : List Token} {value : Json}
    (read : ofTokens? found = some value) : found = tokens value := by
  obtain ⟨last, run, finished⟩ := Option.bind_eq_some_iff.mp read
  have taken := Progress.taken_run? run
  cases last with
  | complete frames value =>
    cases frames with
    | nil =>
      cases finished
      simpa [Progress.taken, tokensOfFrames] using taken.symm
    | cons frame frames => cases finished
  | _ => cases finished

theorem mem_hexDigits {c : Char} {digit : Nat} (read : hexDigit? c = some digit) :
    (c, digit) ∈ hexDigits := by
  have same : c = Char.ofNat c.toNat := (Char.ofNat_toNat c).symm
  have ranges : 48 ≤ c.toNat ∧ c.toNat ≤ 57 ∨ 97 ≤ c.toNat ∧ c.toNat ≤ 102 ∨
      65 ≤ c.toNat ∧ c.toNat ≤ 70 := by
    simp only [hexDigit?, Char.isDigit, Bool.and_eq_true, decide_eq_true_eq, Char.le_def,
      UInt32.le_iff_toNat_le] at read
    split_ifs at read with decimal lower upper
    · exact .inl decimal
    · exact .inr (.inl lower)
    · exact .inr (.inr upper)
  generalize c.toNat = code at same ranges
  subst same
  rcases ranges with ⟨above, below⟩ | ⟨above, below⟩ | ⟨above, below⟩ <;>
    interval_cases code <;> cases read <;> decide +kernel

theorem mem_letterEscapes {letter c : Char} (named : escaped? letter = some c) :
    (letter, c) ∈ letterEscapes := by
  unfold escaped? at named
  split at named <;> cases named <;> decide

theorem exists_hexDigits {digits : List Char} {unit : Nat} (read : unit? digits = some unit) :
    ∃ a b c d i j k l, digits = [a, b, c, d] ∧ (a, i) ∈ hexDigits ∧ (b, j) ∈ hexDigits ∧
      (c, k) ∈ hexDigits ∧ (d, l) ∈ hexDigits ∧ unit = ((i * 16 + j) * 16 + k) * 16 + l := by
  unfold unit? at read
  split at read
  · simp only [Option.bind_eq_bind, Option.bind_eq_some_iff, Option.some.injEq] at read
    obtain ⟨i, first, j, second, k, third, l, fourth, rfl⟩ := read
    exact ⟨_, _, _, _, i, j, k, l, rfl, mem_hexDigits first, mem_hexDigits second,
      mem_hexDigits third, mem_hexDigits fourth, rfl⟩
  · cases read

/-- What is spelled between quotes is written in pieces that mean it. -/
theorem exists_writesPieces {spelled meant : List Char} (spells : SpellsText spelled meant) :
    ∃ pieces, WritesPieces spelled pieces ∧ meaning? pieces = some meant := by
  induction spells with
  | nil => exact ⟨[], .nil, rfl⟩
  | @plain c spelled meant unquoted unescaped shown rest hypothesis =>
    obtain ⟨pieces, writes, means⟩ := hypothesis
    refine ⟨.character c :: pieces, .character unquoted unescaped shown writes, ?_⟩
    rw [meaning?, means]
    rfl
  | @letter letter c spelled meant named rest hypothesis =>
    obtain ⟨pieces, writes, means⟩ := hypothesis
    refine ⟨.character c :: pieces, .letter (mem_letterEscapes named) writes, ?_⟩
    rw [meaning?, means]
    rfl
  | @number digits unit spelled meant read notHigh notLow rest hypothesis =>
    obtain ⟨pieces, writes, means⟩ := hypothesis
    obtain ⟨a, b, c, d, i, j, k, l, rfl, first, second, third, fourth, rfl⟩ := exists_hexDigits read
    refine ⟨_, .unit first second third fourth writes, ?_⟩
    simp only [isHighHalf, isLowHalf, Bool.and_eq_false_iff, decide_eq_false_iff_not] at notHigh notLow
    rw [meaning?, if_pos (by omega), means]
    rfl
  | @pair first second high low spelled meant readHigh isHigh readLow isLow rest hypothesis =>
    obtain ⟨pieces, writes, means⟩ := hypothesis
    obtain ⟨a, b, c, d, i, j, k, l, rfl, one, two, three, four, rfl⟩ := exists_hexDigits readHigh
    obtain ⟨a', b', c', d', i', j', k', l', rfl, one', two', three', four', rfl⟩ :=
      exists_hexDigits readLow
    refine ⟨_, .unit one two three four (.unit one' two' three' four' writes), ?_⟩
    simp only [isHighHalf, isLowHalf, Bool.and_eq_true, decide_eq_true_eq] at isHigh isLow
    rw [meaning?, if_neg (by omega), if_neg (by omega), pairMeaning?, if_pos (by omega), means]
    rfl

/-- How a token is spelled by itself. -/
inductive SpellsToken : List Char → Token → Prop
  | punctuation {c : Char} {token : Token} (stands : punctuation? c = some token) :
      SpellsToken [c] token
  | word {letters : List Char} {token : Token} (read : ofWord? letters = some token) :
      SpellsToken letters token
  | string {spelled meant : List Char} (inside : SpellsText spelled meant) :
      SpellsToken ('"' :: (spelled ++ ['"'])) (.string (String.ofList meant))

/-- The only spelling of a token that has just one. -/
def fixedSpelling : Token → Option (List Char)
  | .leftBrace => some ['\x7b']
  | .rightBrace => some ['\x7d']
  | .leftBracket => some ['[']
  | .rightBracket => some [']']
  | .colon => some [':']
  | .comma => some [',']
  | .null => some ['n', 'u', 'l', 'l']
  | .bool true => some ['t', 'r', 'u', 'e']
  | .bool false => some ['f', 'a', 'l', 's', 'e']
  | .number _ | .string _ => none

theorem fixedSpelling_of_punctuation {c : Char} {token : Token}
    (stands : punctuation? c = some token) : fixedSpelling token = some [c] := by
  unfold punctuation? at stands
  split at stands <;> cases stands <;> rfl

theorem SpellsToken.eq_fixedSpelling {spelled fixed : List Char} {token : Token}
    (spells : SpellsToken spelled token) (only : fixedSpelling token = some fixed) :
    spelled = fixed := by
  cases spells with
  | punctuation stands =>
    rw [fixedSpelling_of_punctuation stands] at only
    exact Option.some.inj only
  | word read =>
    unfold ofWord? at read
    split_ifs at read with isNull isTrue isFalse
    · cases read
      exact isNull.trans (Option.some.inj only)
    · cases read
      exact isTrue.trans (Option.some.inj only)
    · cases read
      exact isFalse.trans (Option.some.inj only)
    · split at read
      · split_ifs at read
        cases read
        cases only
      · cases read
  | string inside => cases only

theorem mem_blanks {c : Char} (blank : isBlank c = true) : c ∈ blanks := by
  simp only [isBlank, Bool.or_eq_true, decide_eq_true_eq] at blank
  rcases blank with ((rfl | rfl) | rfl) | rfl <;> decide

/-- Blanks stand before the first token. -/
theorem exists_first_of_spells {text : List Char} {token : Token} {later : List Token}
    (spells : Spells text (token :: later)) :
    ∃ before spelled rest, text = before ++ (spelled ++ rest) ∧ (∀ c ∈ before, c ∈ blanks) ∧
      SpellsToken spelled token ∧ Spells rest later := by
  generalize whole : token :: later = all at spells
  induction spells with
  | nil => cases whole
  | @blank c text all blank derived hypothesis =>
    obtain ⟨before, spelled, rest, rfl, blanks, first, spells⟩ := hypothesis whole
    exact ⟨c :: before, spelled, rest, rfl, List.forall_mem_cons.mpr ⟨mem_blanks blank, blanks⟩, first,
      spells⟩
  | @punctuation c _ text _ stands rest hypothesis =>
    cases whole
    exact ⟨[], [c], text, rfl, List.forall_mem_nil _, .punctuation stands, rest⟩
  | @word letters _ text _ parts read ends rest hypothesis =>
    cases whole
    exact ⟨[], letters, text, rfl, List.forall_mem_nil _, .word read, rest⟩
  | @string spelled meant text _ inside rest hypothesis =>
    cases whole
    refine ⟨[], '"' :: (spelled ++ ['"']), text, ?_, List.forall_mem_nil _, .string inside, rest⟩
    simp

theorem blank_of_spells_nil {text : List Char} (spells : Spells text []) :
    ∀ c ∈ text, c ∈ blanks := by
  generalize nothing : [] = all at spells
  induction spells with
  | nil => exact List.forall_mem_nil _
  | blank blank rest hypothesis =>
    exact List.forall_mem_cons.mpr ⟨mem_blanks blank, hypothesis nothing⟩
  | _ => cases nothing

theorem exists_fixed_of_spells {text fixed : List Char} {token : Token} {later : List Token}
    (only : fixedSpelling token = some fixed) (spells : Spells text (token :: later)) :
    ∃ before rest, text = before ++ (fixed ++ rest) ∧ (∀ c ∈ before, c ∈ blanks) ∧
      Spells rest later := by
  obtain ⟨before, spelled, rest, rfl, blank, first, spells⟩ := exists_first_of_spells spells
  rw [first.eq_fixedSpelling only]
  exact ⟨before, rest, rfl, blank, spells⟩

theorem ofWord?_ne_string (letters : List Char) (text : String) :
    ofWord? letters ≠ some (.string text) := by
  intro read
  unfold ofWord? at read
  split_ifs at read
  · cases read
  · cases read
  · cases read
  · split at read
    · split_ifs at read
      cases read
    · cases read

theorem exists_string_of_spells {text : List Char} {meant : String} {later : List Token}
    (spells : Spells text (.string meant :: later)) :
    ∃ before inside rest pieces, text = before ++ ('"' :: (inside ++ ['"']) ++ rest) ∧
      (∀ c ∈ before, c ∈ blanks) ∧ WritesPieces inside pieces ∧
      meaning? pieces = some meant.toList ∧ Spells rest later := by
  obtain ⟨before, spelled, rest, rfl, blank, first, others⟩ := exists_first_of_spells spells
  cases first with
  | punctuation stands =>
    cases fixedSpelling_of_punctuation stands
  | word read => exact absurd read (ofWord?_ne_string spelled meant)
  | @string inside characters writes =>
    obtain ⟨pieces, writes, means⟩ := exists_writesPieces writes
    exact ⟨before, inside, rest, pieces, rfl, blank, writes, by simpa using means, others⟩

theorem Writes.blanksBefore {before text : List Char} {tree : Tree}
    (blank : ∀ c ∈ before, c ∈ blanks) (writes : Writes text tree) :
    Writes (before ++ text) tree := by
  induction before with
  | nil => exact writes
  | cons c before hypothesis =>
    obtain ⟨first, others⟩ := List.forall_mem_cons.mp blank
    exact .blankBefore first (hypothesis others)

theorem Writes.blanksAfter {after text : List Char} {tree : Tree} (blank : ∀ c ∈ after, c ∈ blanks)
    (writes : Writes text tree) : Writes (text ++ after) tree := by
  induction after generalizing text with
  | nil => simpa using writes
  | cons c after hypothesis =>
    obtain ⟨first, others⟩ := List.forall_mem_cons.mp blank
    have longer := hypothesis others (Writes.blankAfter first writes)
    simpa using longer

/-- The name of a member with its colon. Blanks on both sides belong to the name. -/
theorem exists_named_of_spells {text : List Char} {name : String} {later : List Token}
    (spells : Spells text (.string name :: .colon :: later)) :
    ∃ naming rest pieces, text = naming ++ ':' :: rest ∧ Writes naming (.string pieces) ∧
      meaning? pieces = some name.toList ∧ Spells rest later := by
  obtain ⟨before, inside, _, pieces, rfl, blank, writes, means, others⟩ :=
    exists_string_of_spells spells
  obtain ⟨between, rest, rfl, blank', others⟩ := exists_fixed_of_spells rfl others
  exact ⟨before ++ '"' :: (inside ++ ['"']) ++ between, rest, pieces, by simp,
    ((Writes.string writes).blanksBefore blank).blanksAfter blank', means, others⟩

mutual

/-- What spells the tokens of a value, and maybe others after these, begins with a text of a tree that
means the value. -/
theorem exists_writes_of_spells (value : Json) {text : List Char} {rest : List Token}
    (plain : ∀ decimal, .number decimal ∉ tokens value)
    (spells : Spells text (tokens value ++ rest)) :
    ∃ first later tree, text = first ++ later ∧ Writes first tree ∧ tree.value? = some value ∧
      Spells later rest := by
  match value with
  | .null =>
    obtain ⟨before, later, rfl, blank, others⟩ := exists_fixed_of_spells rfl spells
    exact ⟨_, later, .null, (List.append_assoc _ _ _).symm, Writes.null.blanksBefore blank, rfl, others⟩
  | .bool true =>
    obtain ⟨before, later, rfl, blank, others⟩ := exists_fixed_of_spells rfl spells
    exact ⟨_, later, .bool true, (List.append_assoc _ _ _).symm, Writes.true.blanksBefore blank, rfl,
      others⟩
  | .bool false =>
    obtain ⟨before, later, rfl, blank, others⟩ := exists_fixed_of_spells rfl spells
    exact ⟨_, later, .bool false, (List.append_assoc _ _ _).symm, Writes.false.blanksBefore blank, rfl,
      others⟩
  | .number decimal => exact absurd List.mem_cons_self (plain decimal)
  | .string meant =>
    obtain ⟨before, inside, later, pieces, rfl, blank, writes, means, others⟩ :=
      exists_string_of_spells spells
    refine ⟨_, later, .string pieces, (List.append_assoc _ _ _).symm,
      (Writes.string writes).blanksBefore blank, ?_, others⟩
    simp [Tree.value?, means]
  | .array [] =>
    obtain ⟨before, _, rfl, blank, others⟩ := exists_fixed_of_spells rfl spells
    obtain ⟨between, later, rfl, blank', others⟩ := exists_fixed_of_spells rfl others
    refine ⟨before ++ '[' :: (between ++ [']']), later, .array [], by simp,
      (Writes.emptyArray blank').blanksBefore blank, rfl, others⟩
  | .array (item :: items) =>
    simp only [tokens, List.mem_cons, List.mem_append, not_or, List.cons_append] at plain
    simp only [tokens, List.cons_append, List.append_assoc] at spells
    obtain ⟨before, _, rfl, blank, others⟩ := exists_fixed_of_spells rfl spells
    obtain ⟨first, _, tree, rfl, writes, meant, others⟩ :=
      exists_writes_of_spells item (fun decimal => (plain decimal).2.1) others
    obtain ⟨between, body, later, trees, rfl, blank', writesItems, meantItems, others⟩ :=
      exists_writesItems_of_spells items (fun decimal => (plain decimal).2.2) others
    refine ⟨before ++ '[' :: ((first ++ between) ++ body), later, .array (tree :: trees), by simp,
      (Writes.array (writes.blanksAfter blank') writesItems).blanksBefore blank, ?_, others⟩
    simp [Tree.value?, values?, meant, meantItems]
  | .object [] =>
    obtain ⟨before, _, rfl, blank, others⟩ := exists_fixed_of_spells rfl spells
    obtain ⟨between, later, rfl, blank', others⟩ := exists_fixed_of_spells rfl others
    refine ⟨before ++ '\x7b' :: (between ++ ['\x7d']), later, .object [], by simp,
      (Writes.emptyObject blank').blanksBefore blank, rfl, others⟩
  | .object ((name, value) :: members) =>
    simp only [tokens, List.mem_cons, List.mem_append, not_or, List.cons_append] at plain
    simp only [tokens, List.cons_append, List.append_assoc] at spells
    obtain ⟨before, _, rfl, blank, others⟩ := exists_fixed_of_spells rfl spells
    obtain ⟨naming, _, pieces, rfl, named, meantName, others⟩ := exists_named_of_spells others
    obtain ⟨first, _, tree, rfl, writes, meant, others⟩ :=
      exists_writes_of_spells value (fun decimal => (plain decimal).2.2.2.1) others
    obtain ⟨between, body, later, trees, rfl, blank', writesMembers, meantMembers, others⟩ :=
      exists_writesMembers_of_spells members (fun decimal => (plain decimal).2.2.2.2) others
    refine ⟨before ++ '\x7b' :: (naming ++ ':' :: ((first ++ between) ++ body)), later,
      .object ((pieces, tree) :: trees), by simp,
      (Writes.object named (writes.blanksAfter blank') writesMembers).blanksBefore blank, ?_, others⟩
    simp [Tree.value?, members?, meantName, meant, meantMembers]

/-- Blanks may stand before the comma, and belong to the item that is before them. -/
theorem exists_writesItems_of_spells (items : List Json) {text : List Char} {rest : List Token}
    (plain : ∀ decimal, .number decimal ∉ tokensOfItems items)
    (spells : Spells text (tokensOfItems items ++ rest)) :
    ∃ before body later trees, text = before ++ (body ++ later) ∧ (∀ c ∈ before, c ∈ blanks) ∧
      WritesItems body trees ∧ values? trees = some items ∧ Spells later rest := by
  match items with
  | [] =>
    obtain ⟨before, later, rfl, blank, others⟩ := exists_fixed_of_spells rfl spells
    exact ⟨before, [']'], later, [], rfl, blank, .last, rfl, others⟩
  | item :: items =>
    simp only [tokensOfItems, List.mem_cons, List.mem_append, not_or, List.cons_append] at plain
    simp only [tokensOfItems, List.cons_append, List.append_assoc] at spells
    obtain ⟨before, _, rfl, blank, others⟩ := exists_fixed_of_spells rfl spells
    obtain ⟨first, _, tree, rfl, writes, meant, others⟩ :=
      exists_writes_of_spells item (fun decimal => (plain decimal).2.1) others
    obtain ⟨between, body, later, trees, rfl, blank', writesItems, meantItems, others⟩ :=
      exists_writesItems_of_spells items (fun decimal => (plain decimal).2.2) others
    refine ⟨before, ',' :: ((first ++ between) ++ body), later, tree :: trees, by simp, blank,
      .next (writes.blanksAfter blank') writesItems, ?_, others⟩
    simp [values?, meant, meantItems]

theorem exists_writesMembers_of_spells (members : List (String × Json)) {text : List Char}
    {rest : List Token} (plain : ∀ decimal, .number decimal ∉ tokensOfMembers members)
    (spells : Spells text (tokensOfMembers members ++ rest)) :
    ∃ before body later trees, text = before ++ (body ++ later) ∧ (∀ c ∈ before, c ∈ blanks) ∧
      WritesMembers body trees ∧ members? trees = some members ∧ Spells later rest := by
  match members with
  | [] =>
    obtain ⟨before, later, rfl, blank, others⟩ := exists_fixed_of_spells rfl spells
    exact ⟨before, ['\x7d'], later, [], rfl, blank, .last, rfl, others⟩
  | (name, value) :: members =>
    simp only [tokensOfMembers, List.mem_cons, List.mem_append, not_or, List.cons_append] at plain
    simp only [tokensOfMembers, List.cons_append, List.append_assoc] at spells
    obtain ⟨before, _, rfl, blank, others⟩ := exists_fixed_of_spells rfl spells
    obtain ⟨naming, _, pieces, rfl, named, meantName, others⟩ := exists_named_of_spells others
    obtain ⟨first, _, tree, rfl, writes, meant, others⟩ :=
      exists_writes_of_spells value (fun decimal => (plain decimal).2.2.2.1) others
    obtain ⟨between, body, later, trees, rfl, blank', writesMembers, meantMembers, others⟩ :=
      exists_writesMembers_of_spells members (fun decimal => (plain decimal).2.2.2.2) others
    refine ⟨before, ',' :: (naming ++ ':' :: ((first ++ between) ++ body)), later,
      (pieces, tree) :: trees, by simp, blank, .next named (writes.blanksAfter blank') writesMembers, ?_,
      others⟩
    simp [members?, meantName, meant, meantMembers]

end

/-- A value without numbers that does not nest too deep is read from the texts that mean it, and from
no other. -/
theorem read?_eq_some_iff {text : String} {value : Json}
    (plain : ∀ decimal, .number decimal ∉ tokens value) (fits : depth value ≤ nestingLimit) :
    read? text = some value ↔ Denotes text value := by
  constructor
  · intro read
    obtain ⟨found, scanned, finished⟩ := Option.bind_eq_some_iff.mp read
    rw [eq_tokens_of_ofTokens? finished] at scanned
    have spells := scan?_eq_some_iff.mp scanned
    rw [← List.append_nil (tokens value)] at spells
    obtain ⟨first, later, tree, split, writes, meant, nothing⟩ :=
      exists_writes_of_spells value plain spells
    refine ⟨tree, ?_, meant⟩
    rw [split]
    exact writes.blanksAfter (blank_of_spells_nil nothing)
  · exact fun denotes => read?_of_denotes denotes fits

end CredentialSigning.Json
