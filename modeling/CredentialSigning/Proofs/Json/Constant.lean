import CredentialSigning.Proofs.Json.Exactness
import CredentialSigning.Scheme

/-! Constants of enumerations as JSON texts. A constant is read from the texts of its name, which
may stand alone or as the only member of an object with the value null, and from no other. -/

namespace CredentialSigning.Json

/-- A text of a name alone, or of an object whose only member has that name and the value null. -/
def DenotesConstant (text name : String) : Prop :=
  Denotes text (.string name) ∨ Denotes text (.object [(name, .null)])

theorem constant?_eq_some_iff {value : Json} {name : String} :
    value.constant? = some name ↔ value = .string name ∨ value = .object [(name, .null)] := by
  constructor
  · intro constant
    unfold constant? at constant
    split at constant
    · cases constant
      exact .inl rfl
    · cases constant
      exact .inr rfl
    · cases constant
  · rintro (rfl | rfl) <;> rfl

theorem read?_constant_iff {text name : String} :
    (read? text).bind constant? = some name ↔ DenotesConstant text name := by
  have string : read? text = some (.string name) ↔ Denotes text (.string name) :=
    read?_eq_some_iff (by simp [tokens]) (Nat.zero_le _)
  have object : read? text = some (.object [(name, .null)]) ↔ Denotes text (.object [(name, .null)]) :=
    read?_eq_some_iff (by simp [tokens, tokensOfMembers]) (by simp [depth, depthOfMembers, nestingLimit])
  rw [DenotesConstant, ← string, ← object, Option.bind_eq_some_iff]
  constructor
  · rintro ⟨value, read, constant⟩
    rcases constant?_eq_some_iff.mp constant with rfl | rfl
    · exact .inl read
    · exact .inr read
  · rintro (read | read)
    · exact ⟨_, read, rfl⟩
    · exact ⟨_, read, rfl⟩

theorem eq_null_of_tokens_append {value : Json} {members : List (String × Json)}
    (same : tokens value ++ tokensOfMembers members = [.null, .rightBrace]) :
    value = .null ∧ members = [] := by
  cases value with
  | null =>
    cases members with
    | nil => exact ⟨rfl, rfl⟩
    | cons member members => simp [tokens, tokensOfMembers] at same
  | array items => cases items <;> simp [tokens] at same
  | object others => cases others <;> simp [tokens] at same
  | _ => simp [tokens] at same

theorem constant?_of_tokens_eq {value : Json} {name : String}
    (same : tokens value = tokens (.string name) ∨ tokens value = tokens (.object [(name, .null)])) :
    value.constant? = some name := by
  cases value with
  | string text =>
    simp only [tokens] at same
    rcases same with same | same
    · cases same
      rfl
    · cases same
  | object members =>
    rcases members with _ | ⟨⟨first, value⟩, members⟩
    · simp [tokens, tokensOfMembers] at same
    · simp only [tokens, tokensOfMembers, List.cons_append, List.nil_append, List.cons.injEq,
        reduceCtorEq, true_and, false_and, false_or] at same
      obtain ⟨named, inside⟩ := same
      cases named
      obtain ⟨rfl, rfl⟩ := eq_null_of_tokens_append inside
      rfl
  | array items => cases items <;> simp [tokens] at same
  | _ => simp [tokens] at same

theorem scan?_of_denotes {text : String} {value : Json} (denotes : Denotes text value) :
    Token.scan? text.toList = some (tokens value) := by
  obtain ⟨tree, writes, meant⟩ := denotes
  rw [scan?_of_writes writes, meant, Option.map_some]

/-- Whatever a text means decides whether it is a text of a constant. -/
theorem denotesConstant_iff {text name : String} {value : Json} (denotes : Denotes text value) :
    DenotesConstant text name ↔ value.constant? = some name := by
  have scanned := scan?_of_denotes denotes
  constructor
  · intro constant
    apply constant?_of_tokens_eq
    rcases constant with string | object
    · exact .inl (Option.some.inj (scanned.symm.trans (scan?_of_denotes string)))
    · exact .inr (Option.some.inj (scanned.symm.trans (scan?_of_denotes object)))
  · intro constant
    rcases constant?_eq_some_iff.mp constant with rfl | rfl
    · exact .inl denotes
    · exact .inr denotes

section Named

variable {α : Type} {name : α → String} {ofName? : String → Option α}
  (named : ∀ code value, ofName? code = some value ↔ name value = code)
include named

/-- A type whose values are found by their names is read from the texts of these names only. -/
theorem read?_named_iff (text : String) (value : α) :
    (read? text).bind (fun json => json.constant?.bind ofName?) = some value ↔
      DenotesConstant text (name value) := by
  rw [← Option.bind_assoc, Option.bind_eq_some_iff]
  simp only [named, read?_constant_iff, exists_eq_right']

theorem read?_named_none_iff (text : String) :
    (read? text).bind (fun json => json.constant?.bind ofName?) = none ↔
      ∀ value, ¬DenotesConstant text (name value) := by
  rw [Option.eq_none_iff_forall_ne_some]
  simp only [ne_eq, read?_named_iff named]

/-- Texts that mean something else are refused, however deep that is nested. -/
theorem read?_named_of_denotes {text : String} {value : Json} (denotes : Denotes text value) :
    (read? text).bind (fun json => json.constant?.bind ofName?) = value.constant?.bind ofName? := by
  ext constant
  rw [read?_named_iff named, denotesConstant_iff denotes, Option.bind_eq_some_iff]
  simp only [named, exists_eq_right']

end Named

end CredentialSigning.Json

namespace CredentialSigning

theorem HashName.ofCode?_eq_some_iff (code : String) (hash : HashName) :
    ofCode? code = some hash ↔ hash.code = code := by
  constructor
  · intro found
    unfold ofCode? at found
    have same := List.find?_some found
    exact of_decide_eq_true same
  · rintro rfl
    exact ofCode?_code hash

theorem Scheme.ofCode?_eq_some_iff (code : String) (scheme : Scheme) :
    ofCode? code = some scheme ↔ scheme.code = code := by
  constructor
  · intro found
    unfold ofCode? at found
    have same := List.find?_some found
    exact of_decide_eq_true same
  · rintro rfl
    exact ofCode?_code scheme

/-- Of all texts, a hash function is read from those that mean the string it is written as, and those
that mean an object whose only member has that name and the value null; every other text is refused.
The same holds of the algorithm of a signer, whose string is also its name in headers and messages. -/
theorem constants_read_exactly (text : String) :
    (∀ hash : HashName, HashName.read? text = some hash ↔ Json.DenotesConstant text hash.code) ∧
    (HashName.read? text = none ↔ ∀ hash : HashName, ¬Json.DenotesConstant text hash.code) ∧
    (∀ value, Json.Denotes text value → HashName.read? text = HashName.ofJson? value) ∧
    (∀ hash : HashName, hash.toJson.render = "\"" ++ hash.code ++ "\"") ∧
    (∀ scheme : Scheme, Scheme.read? text = some scheme ↔ Json.DenotesConstant text scheme.code) ∧
    (Scheme.read? text = none ↔ ∀ scheme : Scheme, ¬Json.DenotesConstant text scheme.code) ∧
    (∀ value, Json.Denotes text value → Scheme.read? text = Scheme.ofJson? value) ∧
    (∀ scheme : Scheme, scheme.toJson.render = "\"" ++ scheme.code ++ "\"" ∧
      scheme.identifier = scheme.code ∧ scheme.title = scheme.code) := by
  have hashes := HashName.ofCode?_eq_some_iff
  have schemes := Scheme.ofCode?_eq_some_iff
  refine ⟨Json.read?_named_iff hashes text, Json.read?_named_none_iff hashes text,
    fun _ denotes => Json.read?_named_of_denotes hashes denotes, ?_,
    Json.read?_named_iff schemes text, Json.read?_named_none_iff schemes text,
    fun _ denotes => Json.read?_named_of_denotes schemes denotes, ?_⟩
  · intro hash
    cases hash <;> decide
  · intro scheme
    cases scheme <;> decide

end CredentialSigning
