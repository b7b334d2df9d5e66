import CredentialSigning.Proofs.Json.Reading
import CredentialSigning.Signer.Source

/-! Sources as configuration texts. Every source is read back from its own text, which is therefore
the one canonical text of all texts that describe the source. -/

namespace CredentialSigning.Source

theorem ofJson?_toJson (source : Source) : ofJson? source.toJson = some source := by
  cases source with
  | archive path => simp [toJson, ofJson?, ofMembers?, required?, member, text?]
  | pem certificate key chain =>
    cases chain with
    | none => simp [toJson, ofJson?, ofMembers?, required?, optional?, member, text?]
    | some chain =>
      simp [toJson, ofJson?, ofMembers?, required?, optional?, nullable?, member, text?]

theorem number_notMem_tokens_toJson (source : Source) (decimal : Json.Decimal) :
    .number decimal ∉ source.toJson.tokens := by
  cases source with
  | archive path => simp [toJson, Json.tokens, Json.tokensOfMembers]
  | pem certificate key chain => cases chain <;> simp [toJson, Json.tokens, Json.tokensOfMembers]

theorem depth_toJson (source : Source) : source.toJson.depth = 1 := by
  cases source with
  | archive path => simp [toJson, Json.depth, Json.depthOfMembers]
  | pem certificate key chain => cases chain <;> simp [toJson, Json.depth, Json.depthOfMembers]

theorem read?_of_write (source : Source) : read? source.write = some source := by
  have shallow : source.toJson.depth ≤ Json.nestingLimit := by
    rw [depth_toJson]
    decide
  rw [read?, write, Json.read?_render (number_notMem_tokens_toJson source) shallow, Option.bind_some,
    ofJson?_toJson]

theorem write_injective : Function.Injective write := by
  intro first second same
  have read := congrArg read? same
  rw [read?_of_write, read?_of_write] at read
  exact Option.some.inj read

/-- The text that is written for the source that a text describes. -/
def canonical? (text : String) : Option String :=
  (read? text).map write

/-- A source is read back from its text. So the canonical text of an accepted text is its own
canonical text, and texts share it exactly if they describe the same source. -/
theorem canonical_text :
    (∀ source, read? source.write = some source) ∧
    (∀ text, (canonical? text).bind canonical? = canonical? text) ∧
    ∀ text other, canonical? text = canonical? other ↔ read? text = read? other := by
  refine ⟨read?_of_write, ?_, ?_⟩
  · intro text
    cases found : read? text with
    | none => simp [canonical?, found]
    | some source => simp [canonical?, found, read?_of_write]
  · intro text other
    exact (Option.map_injective write_injective).eq_iff

example : canonical? " [\"pkcs12\", \"\\u0061\\/\\t\"]" =
    some "\x7b\"source\":\"pkcs12\",\"path\":\"a/\\t\"\x7d" := by
  decide +kernel

end CredentialSigning.Source
