import CredentialSigning.Der.Element
import CredentialSigning.Text

/-! Character strings in certificates. Four of their types are read as text; the characters have to
fit the type. -/

namespace CredentialSigning.Certificate.CharacterString
open Der

def isNumeric (octet : UInt8) : Bool :=
  octet = 0x20 || (0x30 ≤ octet && octet ≤ 0x39)

def isPrintable (octet : UInt8) : Bool :=
  isNumeric octet || (0x41 ≤ octet && octet ≤ 0x5a) || (0x61 ≤ octet && octet ≤ 0x7a) ||
    octet ∈ Text.ascii "'()+,-./:=?"

/-- What the first octet of a character in UTF-8 tells: how many octets follow, the highest bits of
the code, and the smallest code that needs so many octets. -/
def lead? (octet : UInt8) : Option (Nat × Nat × Nat) :=
  if octet < 0x80 then some (0, octet.toNat, 0)
  else if octet < 0xc0 then none
  else if octet < 0xe0 then some (1, octet.toNat % 32, 0x80)
  else if octet < 0xf0 then some (2, octet.toNat % 16, 0x800)
  else if octet < 0xf8 then some (3, octet.toNat % 8, 0x10000)
  else none

/-- The first character and what follows it. Of the two highest bits of a later octet only the first
has to be set; the other one is not looked at. -/
def character? : Bytes → Option (Char × Bytes)
  | [] => none
  | first :: rest => do
    let (count, high, smallest) ← lead? first
    let later := rest.take count
    let code := later.foldl (fun code octet => code * 64 + octet.toNat % 64) high
    if later.length = count ∧ later.all (0x80 ≤ ·) ∧ smallest ≤ code ∧ code.isValidChar then
      some (Char.ofNat code, rest.drop count)
    else none

theorem length_character {octets rest : Bytes} {c : Char}
    (found : character? octets = some (c, rest)) : rest.length < octets.length := by
  cases octets with
  | nil => simp [character?] at found
  | cons first later =>
    simp only [character?, Option.bind_eq_bind, Option.bind_eq_some_iff] at found
    obtain ⟨lead, _, found⟩ := found
    split at found
    · simp only [Option.some.injEq, Prod.mk.injEq] at found
      rw [← found.2, List.length_drop, List.length_cons]
      omega
    · contradiction

def characters? (octets : Bytes) : Option (List Char) :=
  if octets = [] then some []
  else
    match _found : character? octets with
    | none => none
    | some (c, rest) => (characters? rest).map (c :: ·)
termination_by octets.length
decreasing_by exact length_character _found

/-- One character for each octet, if all octets are of a kind. -/
def textOfKind? (isKind : UInt8 → Bool) (octets : Bytes) : Option String :=
  if octets.all isKind then some (String.ofList (octets.map fun octet => Char.ofNat octet.toNat))
  else none

/-- The text of a character string of one of four types. -/
def text? (element : Element) : Option String :=
  match element.tag with
  | [0x12] => textOfKind? isNumeric element.content
  | [0x13] => textOfKind? isPrintable element.content
  | [0x16] => textOfKind? (· < 0x80) element.content
  | [0x0c] => (characters? element.content).map String.ofList
  | _ => none

end CredentialSigning.Certificate.CharacterString
