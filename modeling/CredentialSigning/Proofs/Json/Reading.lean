import CredentialSigning.Proofs.Json.Spelling

/-! Reading JSON values. A value has one sequence of tokens, and from every text that spells these
tokens it is read, unless it nests too deep. What is written without numbers spells them. -/

namespace CredentialSigning.Json
open Token

mutual

def tokens : Json → List Token
  | .null => [.null]
  | .bool value => [.bool value]
  | .number value => [.number value]
  | .string text => [.string text]
  | .array [] => [.leftBracket, .rightBracket]
  | .array (item :: items) => .leftBracket :: tokens item ++ tokensOfItems items
  | .object [] => [.leftBrace, .rightBrace]
  | .object ((name, value) :: members) =>
    .leftBrace :: .string name :: .colon :: tokens value ++ tokensOfMembers members

/-- The tokens of the items after the first one, and of the closing bracket. -/
def tokensOfItems : List Json → List Token
  | [] => [.rightBracket]
  | item :: items => .comma :: tokens item ++ tokensOfItems items

def tokensOfMembers : List (String × Json) → List Token
  | [] => [.rightBrace]
  | (name, value) :: members =>
    .comma :: .string name :: .colon :: tokens value ++ tokensOfMembers members

end

mutual

/-- How many containers are nested in a value, the value included. -/
def depth : Json → Nat
  | .array items => depthOfItems items + 1
  | .object members => depthOfMembers members + 1
  | _ => 0

def depthOfItems : List Json → Nat
  | [] => 0
  | item :: items => max (depth item) (depthOfItems items)

def depthOfMembers : List (String × Json) → Nat
  | [] => 0
  | (_, value) :: members => max (depth value) (depthOfMembers members)

end

namespace Progress

/-- The progress after some tokens. -/
def run? (progress : Progress) (tokens : List Token) : Option Progress :=
  tokens.foldlM step? progress

theorem run?_of_step {progress next : Progress} {token : Token} (rest : List Token)
    (step : progress.step? token = some next) : progress.run? (token :: rest) = next.run? rest := by
  simp only [run?, List.foldlM_cons, step, Option.bind_eq_bind, Option.bind_some]

/-- Where a first item is wanted, a token that begins a value begins that item. -/
theorem run?_wantItem (frames : List Frame) {first : Token} (rest : List Token)
    (begins : first ≠ .rightBracket) :
    (wantItem frames).run? (first :: rest) = (wantValue (.items [] :: frames)).run? (first :: rest) := by
  have same : (wantItem frames).step? first = (wantValue (.items [] :: frames)).step? first := by
    cases first <;> first | rfl | contradiction
  simp only [run?, List.foldlM_cons, same]

theorem step?_leftBracket {frames : List Frame} (fits : frames.length < nestingLimit) :
    (wantValue frames).step? .leftBracket = some (wantItem frames) :=
  if_pos fits

theorem step?_leftBrace {frames : List Frame} (fits : frames.length < nestingLimit) :
    (wantValue frames).step? .leftBrace = some (wantName frames []) :=
  if_pos fits

/-- A name, a colon, and then its value is wanted. -/
theorem run?_wantName (frames : List Frame) (done : List (String × Json)) (name : String)
    (rest : List Token) : (wantName frames done).run? (.string name :: .colon :: rest) =
      (wantValue (.members done name :: frames)).run? rest := by
  have named : (wantName frames done).step? (.string name) = some (wantColon frames done name) := by
    cases done <;> rfl
  have colon : (wantColon frames done name).step? .colon =
      some (wantValue (.members done name :: frames)) := rfl
  rw [run?_of_step _ named, run?_of_step _ colon]

end Progress

theorem exists_tokens_eq_cons (value : Json) :
    ∃ first rest, tokens value = first :: rest ∧ first ≠ .rightBracket := by
  cases value with
  | array items => cases items <;> simp [tokens]
  | object members => cases members <;> simp [tokens]
  | _ => simp [tokens]

open Progress

mutual

/-- The tokens of a value complete it, whatever containers are open. -/
theorem run?_tokens (value : Json) (frames : List Frame) (rest : List Token)
    (fits : frames.length + depth value ≤ nestingLimit) :
    (wantValue frames).run? (tokens value ++ rest) = (complete frames value).run? rest := by
  match value with
  | .null => rfl
  | .bool value => rfl
  | .number value => rfl
  | .string text => rfl
  | .array [] =>
    simp only [depth, depthOfItems] at fits
    have closed : (wantItem frames).step? .rightBracket = some (complete frames (.array [])) := rfl
    rw [tokens, List.cons_append, List.cons_append, run?_of_step _ (step?_leftBracket (by omega)),
      run?_of_step _ closed, List.nil_append]
  | .array (item :: items) =>
    simp only [depth, depthOfItems] at fits
    -- after a bracket an item or another bracket may stand, so the first token decides
    obtain ⟨first, others, split, begins⟩ := exists_tokens_eq_cons item
    have inside : (wantItem frames).run? (tokens item ++ (tokensOfItems items ++ rest)) =
        (wantValue (.items [] :: frames)).run? (tokens item ++ (tokensOfItems items ++ rest)) := by
      rw [split, List.cons_append, run?_wantItem frames _ begins]
    simp only [tokens, List.cons_append, List.append_assoc]
    rw [run?_of_step _ (step?_leftBracket (by omega)), inside,
      run?_tokens item _ _ (by rw [List.length_cons]; omega),
      run?_tokensOfItems item [] items frames rest (by omega)]
    rfl
  | .object [] =>
    simp only [depth, depthOfMembers] at fits
    have closed : (wantName frames []).step? .rightBrace = some (complete frames (.object [])) := rfl
    rw [tokens, List.cons_append, List.cons_append, run?_of_step _ (step?_leftBrace (by omega)),
      run?_of_step _ closed, List.nil_append]
  | .object ((name, value) :: members) =>
    simp only [depth, depthOfMembers] at fits
    simp only [tokens, List.cons_append, List.append_assoc]
    rw [run?_of_step _ (step?_leftBrace (by omega)), run?_wantName,
      run?_tokens value _ _ (by rw [List.length_cons]; omega),
      run?_tokensOfMembers name value [] members frames rest (by omega)]
    rfl

/-- The items after one that is complete, and the closing bracket, complete the array. -/
theorem run?_tokensOfItems (value : Json) (done items : List Json) (frames : List Frame)
    (rest : List Token) (fits : frames.length + depthOfItems items < nestingLimit) :
    (complete (.items done :: frames) value).run? (tokensOfItems items ++ rest) =
      (complete frames (.array (done.reverse ++ value :: items))).run? rest := by
  match items with
  | [] =>
    have closed : (complete (.items done :: frames) value).step? .rightBracket =
        some (complete frames (.array (value :: done).reverse)) := rfl
    rw [tokensOfItems, List.cons_append, run?_of_step _ closed, List.reverse_cons, List.nil_append]
  | item :: items =>
    simp only [depthOfItems] at fits
    have comma : (complete (.items done :: frames) value).step? .comma =
        some (wantValue (.items (value :: done) :: frames)) := rfl
    simp only [tokensOfItems, List.cons_append, List.append_assoc]
    rw [run?_of_step _ comma, run?_tokens item _ _ (by rw [List.length_cons]; omega),
      run?_tokensOfItems item (value :: done) items frames rest (by omega), List.reverse_cons,
      List.append_assoc, List.singleton_append]

theorem run?_tokensOfMembers (name : String) (value : Json) (done members : List (String × Json))
    (frames : List Frame) (rest : List Token)
    (fits : frames.length + depthOfMembers members < nestingLimit) :
    (complete (.members done name :: frames) value).run? (tokensOfMembers members ++ rest) =
      (complete frames (.object (done.reverse ++ (name, value) :: members))).run? rest := by
  match members with
  | [] =>
    have closed : (complete (.members done name :: frames) value).step? .rightBrace =
        some (complete frames (.object ((name, value) :: done).reverse)) := rfl
    rw [tokensOfMembers, List.cons_append, run?_of_step _ closed, List.reverse_cons, List.nil_append]
  | (next, item) :: members =>
    simp only [depthOfMembers] at fits
    have comma : (complete (.members done name :: frames) value).step? .comma =
        some (wantName frames ((name, value) :: done)) := rfl
    simp only [tokensOfMembers, List.cons_append, List.append_assoc]
    rw [run?_of_step _ comma, run?_wantName,
      run?_tokens item _ _ (by rw [List.length_cons]; omega),
      run?_tokensOfMembers next item ((name, value) :: done) members frames rest (by omega),
      List.reverse_cons, List.append_assoc, List.singleton_append]

end

theorem ofTokens?_tokens {value : Json} (fits : depth value ≤ nestingLimit) :
    ofTokens? (tokens value) = some value := by
  have reached := run?_tokens value [] [] (by simpa using fits)
  rw [List.append_nil] at reached
  rw [ofTokens?, ← run?, reached]
  rfl

/-- A value is read from every text that spells its tokens. -/
theorem read?_of_spells {text : String} {value : Json} (fits : depth value ≤ nestingLimit)
    (spells : Spells text.toList (tokens value)) : read? text = some value := by
  rw [read?, scan?_of_spells spells, Option.bind_some, ofTokens?_tokens fits]

theorem endsWord_writeItems (items : List Json) (text : List Char) :
    EndsWord (writeItems items ++ text) := by
  cases items with
  | nil => exact endsWord_cons rfl text
  | cons item items => exact endsWord_cons rfl _

theorem endsWord_writeMembers (members : List (String × Json)) (text : List Char) :
    EndsWord (writeMembers members ++ text) := by
  cases members with
  | nil => exact endsWord_cons rfl text
  | cons member members => exact endsWord_cons rfl _

mutual

/-- What is written for a value without numbers spells its tokens, if no name goes on after it. -/
theorem spells_write (value : Json) {text : List Char} {rest : List Token}
    (plain : ∀ decimal, .number decimal ∉ tokens value) (ends : EndsWord text)
    (spells : Spells text rest) : Spells (write value ++ text) (tokens value ++ rest) := by
  match value with
  | .null => exact .word (List.all_eq_true.mp rfl) rfl ends spells
  | .bool true => exact .word (List.all_eq_true.mp rfl) rfl ends spells
  | .bool false => exact .word (List.all_eq_true.mp rfl) rfl ends spells
  | .number decimal => exact absurd List.mem_cons_self (plain decimal)
  | .string meant => exact spells_writeString meant spells
  | .array [] => exact .punctuation rfl (.punctuation rfl spells)
  | .array (item :: items) =>
    simp only [tokens, List.mem_cons, List.mem_append, not_or, List.cons_append] at plain
    simp only [write, tokens, List.cons_append, List.append_assoc]
    apply Spells.punctuation rfl
    apply spells_write item (fun decimal => (plain decimal).2.1) (endsWord_writeItems items text)
    exact spells_writeItems items (fun decimal => (plain decimal).2.2) spells
  | .object [] => exact .punctuation rfl (.punctuation rfl spells)
  | .object ((name, value) :: members) =>
    simp only [tokens, List.mem_cons, List.mem_append, not_or, List.cons_append] at plain
    simp only [write, tokens, List.cons_append, List.append_assoc]
    apply Spells.punctuation rfl
    apply spells_writeString
    apply Spells.punctuation rfl
    apply spells_write value (fun decimal => (plain decimal).2.2.2.1)
      (endsWord_writeMembers members text)
    exact spells_writeMembers members (fun decimal => (plain decimal).2.2.2.2) spells

theorem spells_writeItems (items : List Json) {text : List Char} {rest : List Token}
    (plain : ∀ decimal, .number decimal ∉ tokensOfItems items) (spells : Spells text rest) :
    Spells (writeItems items ++ text) (tokensOfItems items ++ rest) := by
  match items with
  | [] => exact .punctuation rfl spells
  | item :: items =>
    simp only [tokensOfItems, List.mem_cons, List.mem_append, not_or, List.cons_append] at plain
    simp only [writeItems, tokensOfItems, List.cons_append, List.append_assoc]
    apply Spells.punctuation rfl
    apply spells_write item (fun decimal => (plain decimal).2.1) (endsWord_writeItems items text)
    exact spells_writeItems items (fun decimal => (plain decimal).2.2) spells

theorem spells_writeMembers (members : List (String × Json)) {text : List Char} {rest : List Token}
    (plain : ∀ decimal, .number decimal ∉ tokensOfMembers members) (spells : Spells text rest) :
    Spells (writeMembers members ++ text) (tokensOfMembers members ++ rest) := by
  match members with
  | [] => exact .punctuation rfl spells
  | (name, value) :: members =>
    simp only [tokensOfMembers, List.mem_cons, List.mem_append, not_or, List.cons_append] at plain
    simp only [writeMembers, tokensOfMembers, List.cons_append, List.append_assoc]
    apply Spells.punctuation rfl
    apply spells_writeString
    apply Spells.punctuation rfl
    apply spells_write value (fun decimal => (plain decimal).2.2.2.1)
      (endsWord_writeMembers members text)
    exact spells_writeMembers members (fun decimal => (plain decimal).2.2.2.2) spells

end

/-- A value without numbers that does not nest too deep is read from what is written for it. -/
theorem read?_render {value : Json} (plain : ∀ decimal, .number decimal ∉ tokens value)
    (fits : depth value ≤ nestingLimit) : read? (render value) = some value := by
  apply read?_of_spells fits
  have spells := spells_write value plain endsWord_nil .nil
  rwa [List.append_nil, List.append_nil, ← @String.toList_ofList (write value)] at spells

end CredentialSigning.Json
