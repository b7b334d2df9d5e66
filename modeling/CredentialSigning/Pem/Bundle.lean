import CredentialSigning.Pem.Base64
import CredentialSigning.Text

/-! Files of PEM blocks, as certificates come in. Text around the blocks is ignored, lines may have
any width, and a block may start with headers. -/

namespace CredentialSigning.Pem.Bundle

def dashes : Bytes := Text.ascii "-----"

def beginMark : Bytes := Text.ascii "-----BEGIN "

def endMark : Bytes := Text.ascii "-----END "

/-- What follows a marker of which `left` is still to be seen. An octet that does not fit takes the
search back to the whole marker at the octet after it, so a marker that starts inside a broken copy
of itself is not found. -/
def search? (marker : Bytes) : Bytes → Bytes → Option Bytes
  | [], rest => some rest
  | _ :: _, [] => none
  | expected :: left, octet :: rest =>
    if octet = expected then search? marker left rest else search? marker marker rest

def split? (marker octets : Bytes) : Option (Bytes × Bytes) :=
  (search? marker marker octets).map fun rest =>
    (octets.take (octets.length - rest.length - marker.length), rest)

theorem length_search {marker left octets rest : Bytes}
    (found : search? marker left octets = some rest) (short : left.length ≤ marker.length) :
    rest.length + left.length ≤ octets.length := by
  induction octets generalizing left with
  | nil =>
    cases left with
    | nil =>
      simp only [search?, Option.some.injEq] at found
      simp [← found]
    | cons expected left => simp [search?] at found
  | cons octet octets hypothesis =>
    cases left with
    | nil =>
      simp only [search?, Option.some.injEq] at found
      simp [← found]
    | cons expected left =>
      simp only [List.length_cons] at short ⊢
      by_cases same : octet = expected
      · simp only [search?, if_pos same] at found
        have shorter := hypothesis found (by omega)
        omega
      · simp only [search?, if_neg same] at found
        have shorter := hypothesis found (Nat.le_refl _)
        omega

theorem length_split {marker octets before rest : Bytes}
    (found : split? marker octets = some (before, rest)) :
    rest.length + marker.length ≤ octets.length := by
  simp only [split?, Option.map_eq_some_iff, Prod.mk.injEq] at found
  obtain ⟨rest', found, _, rfl⟩ := found
  exact length_search found (Nat.le_refl _)

def isBlank (octet : UInt8) : Bool :=
  octet = 0x20 || octet = 0x09 || octet = 0x0a || octet = 0x0d

def skipBlanks (octets : Bytes) : Bytes :=
  octets.dropWhile isBlank

structure Block where
  label : Bytes
  body : Bytes
  endLabel : Bytes
  deriving DecidableEq

def block? (octets : Bytes) : Option (Block × Bytes) := do
  let (_, rest) ← split? beginMark octets
  let (label, rest) ← split? dashes rest
  let (body, rest) ← split? endMark (skipBlanks rest)
  let (endLabel, rest) ← split? dashes rest
  some (⟨label, body, endLabel⟩, skipBlanks rest)

theorem length_block {octets rest : Bytes} {block : Block}
    (found : block? octets = some (block, rest)) : rest.length < octets.length := by
  simp only [block?, Option.bind_eq_bind, Option.bind_eq_some_iff, Option.some.injEq,
    Prod.mk.injEq, Prod.exists] at found
  obtain ⟨_, rest1, found1, _, rest2, found2, _, rest3, found3, _, rest4, found4, _, rfl⟩ := found
  have skipped : ∀ octets : Bytes, (skipBlanks octets).length ≤ octets.length :=
    fun octets => (List.dropWhile_suffix isBlank).length_le
  have length1 := length_split found1
  have length2 := length_split found2
  have length3 := length_split found3
  have length4 := length_split found4
  have skip2 := skipped rest2
  have skip4 := skipped rest4
  have marked : beginMark.length = 11 := by decide
  omega

/-- All blocks in order. An incomplete block ends the file. -/
def blocks (octets : Bytes) : List Block :=
  match _found : block? octets with
  | none => []
  | some (block, rest) => block :: blocks rest
termination_by octets.length
decreasing_by exact length_block _found

namespace Block

/-- The headers and the data of a body: an empty line divides them, and without one all is data. -/
def divide (body : Bytes) : Bytes × Bytes :=
  match split? [10, 10] body with
  | some parts => parts
  | none => (split? [13, 10, 13, 10] body).getD ([], body)

/-- Whether every line has a colon. `started` and `colon` say whether the line being read has any
character, and a colon. -/
def hasHeaderLines (started colon : Bool) : List Char → Bool
  | [] => !started || colon
  | '\n' :: rest => colon && hasHeaderLines false false rest
  | c :: rest => hasHeaderLines true (colon || c = ':') rest

/-- The text without line feeds and without white space before them or at the end. -/
def joinLines (text : List Char) : List Char :=
  (text.foldr (fun c (kept, atEnd) =>
    if c = '\n' || (atEnd && Text.isWhiteSpace c) then (kept, true) else (c :: kept, false))
    ([], true)).1

def asciiOctets? (text : List Char) : Option Bytes :=
  if text.all (·.toNat < 0x80) then some (text.map fun c => UInt8.ofNat c.toNat) else none

/-- The octets in the block, if it is sound: equal labels that are not empty, text throughout,
headers with colons, and strict Base64. -/
def contents? (block : Block) : Option Bytes := do
  let _ ← Text.ofUtf8? block.label
  let (headers, data) := divide block.body
  let headers ← Text.ofUtf8? headers
  let data ← Text.ofUtf8? data
  if block.label ≠ [] ∧ block.label = block.endLabel ∧
      hasHeaderLines false false headers.toList then
    (asciiOctets? (joinLines data.toList)).bind Base64.read?
  else none

end Block
end CredentialSigning.Pem.Bundle
