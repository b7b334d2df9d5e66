import CredentialSigning.Proofs.Json.Spelling

/-! The scanner finds tokens only in texts that spell them. An open string or word is followed to its
end, and what stands there is one spelling of the token that was found. -/

namespace CredentialSigning.Json.Token

variable {found tokens : List Token}

/-- In a numeric escape all four digits stand in the text. -/
theorem exists_unit_of_scanFrom? {done text : List Char} {high : Option Nat}
    (scanned : scanFrom? ⟨found, .numeric done high 3 0⟩ text = some tokens) :
    ∃ digits rest unit place, text = digits ++ rest ∧ unit? digits = some unit ∧
      afterUnit? done unit high = some place ∧ scanFrom? ⟨found, place⟩ rest = some tokens := by
  match text with
  | [] | [_] | [_, _] | [_, _, _] =>
    simp [scanFrom?, Scan.step?, Scan.finish?, Option.bind_eq_some_iff] at scanned
  | first :: second :: third :: fourth :: rest =>
    simp only [scanFrom?_cons, Scan.step?, Option.bind_assoc, Option.bind_some,
      Option.bind_map, Option.bind_eq_some_iff] at scanned
    obtain ⟨a, readFirst, b, readSecond, c, readThird, d, readFourth, place, after, later⟩ := scanned
    refine ⟨[first, second, third, fourth], rest, ((a * 16 + b) * 16 + c) * 16 + d, place, rfl, ?_, ?_,
      later⟩
    · simp only [unit?, readFirst, readSecond, readThird, readFourth, Option.bind_eq_bind,
        Option.bind_some]
    · simpa using after

/-- A high half is followed by a numeric escape of a low half. -/
theorem exists_lowHalf_of_scanFrom? {done text : List Char} {high : Nat}
    (scanned : scanFrom? ⟨found, .secondBackslash done high⟩ text = some tokens) :
    ∃ digits rest low, text = '\\' :: 'u' :: (digits ++ rest) ∧ unit? digits = some low ∧
      isLowHalf low = true ∧
      scanFrom? ⟨found, .text (joinHalves high low :: done)⟩ rest = some tokens := by
  match text with
  | [] | [_] => simp [scanFrom?, Scan.step?, Scan.finish?, Option.bind_eq_some_iff] at scanned
  | backslash :: letter :: text =>
    simp only [scanFrom?_cons, Scan.step?, Option.bind_eq_some_iff] at scanned
    obtain ⟨next, isBackslash, last, isLetter, later⟩ := scanned
    split_ifs at isBackslash with first
    cases isBackslash
    simp only at isLetter
    split_ifs at isLetter with second
    cases isLetter
    obtain ⟨digits, rest, low, place, rfl, read, after, later⟩ := exists_unit_of_scanFrom? later
    simp only [afterUnit?] at after
    split_ifs at after with isLow
    cases after
    exact ⟨digits, rest, low, by rw [first, second], read, isLow, later⟩

/-- After a backslash stands an escape of one character, whatever is spelled behind it. -/
theorem exists_escape_of_scanFrom? {done text : List Char}
    (scanned : scanFrom? ⟨found, .escape done⟩ text = some tokens) :
    ∃ escape c rest, text = escape ++ rest ∧
      (∀ spelled meant, SpellsText spelled meant →
        SpellsText ('\\' :: (escape ++ spelled)) (c :: meant)) ∧
      scanFrom? ⟨found, .text (c :: done)⟩ rest = some tokens := by
  cases text with
  | nil => simp [scanFrom?, Scan.finish?] at scanned
  | cons letter text =>
    rw [scanFrom?_cons] at scanned
    obtain ⟨next, step, later⟩ := Option.bind_eq_some_iff.mp scanned
    simp only [Scan.step?] at step
    split_ifs at step with numeric
    · cases step
      obtain ⟨digits, rest, unit, place, rfl, read, after, later⟩ := exists_unit_of_scanFrom? later
      simp only [afterUnit?] at after
      split_ifs at after with isHigh isLow
      · cases after
        obtain ⟨second, rest, low, rfl, readLow, isLow, later⟩ := exists_lowHalf_of_scanFrom? later
        refine ⟨'u' :: (digits ++ '\\' :: 'u' :: second), joinHalves unit low, rest, ?_, ?_, later⟩
        · simp [numeric]
        · intro spelled meant spells
          simpa using SpellsText.pair read isHigh readLow isLow spells
      · cases after
        refine ⟨'u' :: digits, Char.ofNat unit, rest, by rw [numeric, List.cons_append], ?_, later⟩
        intro spelled meant spells
        exact .number read (by simpa using isHigh) (by simpa using isLow) spells
    · obtain ⟨c, named, rfl⟩ := Option.map_eq_some_iff.mp step
      exact ⟨[letter], c, text, rfl, fun spelled meant spells => .letter named spells, later⟩

/-- An open string goes on to its closing quote. -/
theorem exists_spellsText_of_scanFrom? (done text : List Char)
    (scanned : scanFrom? ⟨found, .text done⟩ text = some tokens) :
    ∃ spelled meant rest, text = spelled ++ '"' :: rest ∧ SpellsText spelled meant ∧
      scanFrom? ⟨string (String.ofList (done.reverse ++ meant)) :: found, .between⟩ rest =
        some tokens := by
  -- an escape takes several characters, so the induction is on the length of the text
  induction length : text.length using Nat.strong_induction_on generalizing done text with
  | _ count hypothesis =>
  subst length
  cases text with
  | nil => simp [scanFrom?, Scan.finish?] at scanned
  | cons c text =>
    rw [scanFrom?_cons] at scanned
    obtain ⟨next, step, later⟩ := Option.bind_eq_some_iff.mp scanned
    simp only [Scan.step?] at step
    split_ifs at step with quote backslash control
    · cases step
      exact ⟨[], [], text, by rw [quote]; rfl, .nil, by simpa using later⟩
    · cases step
      obtain ⟨escape, named, rest, rfl, escapes, later⟩ := exists_escape_of_scanFrom? later
      obtain ⟨spelled, meant, rest, rfl, spells, later⟩ :=
        hypothesis rest.length (by simp only [List.length_cons, List.length_append]; omega) _ rest later rfl
      refine ⟨'\\' :: (escape ++ spelled), named :: meant, rest, ?_, escapes _ _ spells, ?_⟩
      · rw [backslash, List.cons_append, List.append_assoc]
      · simpa using later
    · cases step
      obtain ⟨spelled, meant, rest, rfl, spells, later⟩ :=
        hypothesis text.length (by simp) _ text later rfl
      refine ⟨c :: spelled, c :: meant, rest, rfl,
        .plain quote backslash (Nat.not_lt.mp control) spells, ?_⟩
      simpa using later

/-- An open word goes on to the first character that is no part of one. -/
theorem exists_word_of_scanFrom? (letters text : List Char)
    (scanned : scanFrom? ⟨found, .word letters⟩ text = some tokens) :
    ∃ more rest token, text = more ++ rest ∧ (∀ c ∈ more, isWordPart c = true) ∧ EndsWord rest ∧
      ofWord? (letters.reverse ++ more) = some token ∧
      scanFrom? ⟨token :: found, .between⟩ rest = some tokens := by
  induction text generalizing letters with
  | nil =>
    simp only [scanFrom?, List.foldlM_nil, Option.pure_def, Option.bind_some, Scan.finish?,
      Option.map_eq_some_iff] at scanned
    obtain ⟨token, read, rfl⟩ := scanned
    exact ⟨[], [], token, rfl, List.forall_mem_nil _, endsWord_nil, by simpa using read, rfl⟩
  | cons c text hypothesis =>
    rw [scanFrom?_cons] at scanned
    obtain ⟨next, step, later⟩ := Option.bind_eq_some_iff.mp scanned
    simp only [Scan.step?] at step
    split_ifs at step with part
    · cases step
      obtain ⟨more, rest, token, rfl, parts, ends, read, later⟩ := hypothesis _ later
      refine ⟨c :: more, rest, token, rfl, ?_, ends, ?_, later⟩
      · exact List.forall_mem_cons.mpr ⟨part, parts⟩
      · simpa using read
    · obtain ⟨token, read, start⟩ := Option.bind_eq_some_iff.mp step
      refine ⟨[], c :: text, token, rfl, List.forall_mem_nil _,
        endsWord_cons (by simpa using part) text, by simpa using read, ?_⟩
      rw [scanFrom?_of_step text (show Scan.step? ⟨token :: found, .between⟩ c = some next from start)]
      exact later

/-- Between tokens, what the scanner has still to find is spelled by the rest of the text. -/
theorem spells_of_scanFrom? (text : List Char)
    (scanned : scanFrom? ⟨found, .between⟩ text = some tokens) :
    ∃ later, tokens = found.reverse ++ later ∧ Spells text later := by
  induction length : text.length using Nat.strong_induction_on generalizing found text with
  | _ count hypothesis =>
  subst length
  cases text with
  | nil =>
    simp only [scanFrom?, List.foldlM_nil, Option.pure_def, Option.bind_some, Scan.finish?,
      Option.some.injEq] at scanned
    exact ⟨[], by rw [← scanned, List.append_nil], .nil⟩
  | cons c text =>
    rw [scanFrom?_cons] at scanned
    obtain ⟨next, step, later⟩ := Option.bind_eq_some_iff.mp scanned
    simp only [Scan.step?, Scan.start?] at step
    split_ifs at step with blank quote part
    · cases step
      obtain ⟨others, rfl, spells⟩ := hypothesis text.length (by simp) text later rfl
      exact ⟨others, rfl, .blank blank spells⟩
    · cases step
      obtain ⟨spelled, meant, rest, rfl, inside, later⟩ := exists_spellsText_of_scanFrom? _ _ later
      obtain ⟨others, rfl, spells⟩ :=
        hypothesis rest.length (by simp only [List.length_cons, List.length_append]; omega) rest later rfl
      refine ⟨string (String.ofList meant) :: others, by simp, ?_⟩
      rw [quote]
      exact .string inside spells
    · cases step
      obtain ⟨more, rest, token, rfl, parts, ends, read, later⟩ := exists_word_of_scanFrom? _ _ later
      obtain ⟨others, rfl, spells⟩ :=
        hypothesis rest.length (by simp only [List.length_cons, List.length_append]; omega) rest later rfl
      exact ⟨token :: others, by simp,
        .word (List.forall_mem_cons.mpr ⟨part, parts⟩) read ends spells⟩
    · obtain ⟨token, stands, rfl⟩ := Option.map_eq_some_iff.mp step
      obtain ⟨others, rfl, spells⟩ := hypothesis text.length (by simp) text later rfl
      exact ⟨token :: others, by simp, .punctuation stands spells⟩

/-- The tokens of a text are those that it spells. -/
theorem scan?_eq_some_iff {text : List Char} : scan? text = some tokens ↔ Spells text tokens := by
  constructor
  · intro scanned
    obtain ⟨later, rfl, spells⟩ := spells_of_scanFrom? text scanned
    exact spells
  · exact scan?_of_spells

end CredentialSigning.Json.Token
