import CredentialSigning.Der.Rules
import CredentialSigning.Pem.Base64
import CredentialSigning.Text

/-! A single PEM document that holds a private key: one DER SEQUENCE in Base64 between two boundary
lines. The form is strict: lines of 64 characters, no headers, and nothing after the end. -/

namespace CredentialSigning.Pem.Document

def lineWidth : Nat := 64

def dashes : Bytes := Text.ascii "-----"

def beginMark : Bytes := Text.ascii "-----BEGIN "

def endMark : Bytes := Text.ascii "-----END "

/-- The octets after a line end: LF, CR LF or CR. -/
def afterLineEnd? : Bytes → Option Bytes
  | 10 :: rest => some rest
  | 13 :: 10 :: rest => some rest
  | 13 :: rest => some rest
  | _ => none

theorem length_afterLineEnd {octets rest : Bytes} (found : afterLineEnd? octets = some rest) :
    rest.length < octets.length := by
  unfold afterLineEnd? at found
  split at found <;> simp at found <;> subst found <;> simp only [List.length_cons] <;> omega

/-- The octets before a line end that ends them. -/
def beforeLineEnd? (octets : Bytes) : Option Bytes :=
  match octets.reverse with
  | 10 :: 13 :: rest => some rest.reverse
  | 10 :: rest => some rest.reverse
  | 13 :: rest => some rest.reverse
  | _ => none

/-- The octets after the first begin mark that follows a line feed, with no zero octet before it. -/
def afterPreamble? : Bytes → Option Bytes
  | [] => none
  | octet :: rest =>
    if octet = 0 then none
    else
      match if octet = 10 then beginMark.isPrefixOf? rest else none with
      | some found => some found
      | none => afterPreamble? rest

def afterBegin? (octets : Bytes) : Option Bytes :=
  match beginMark.isPrefixOf? octets with
  | some rest => some rest
  | none => afterPreamble? octets

def isLabelCharacter (octet : UInt8) : Bool :=
  0x21 ≤ octet && octet ≤ 0x7e && octet != 0x2d

/-- The longest label at the front, and what follows it. A blank is part of a label only after a
character that is not one. -/
def splitLabel (blankAllowed : Bool) : Bytes → Bytes × Bytes
  | [] => ([], [])
  | octet :: rest =>
    if isLabelCharacter octet then
      let (label, after) := splitLabel true rest
      (octet :: label, after)
    else if (octet = 0x20 ∨ octet = 0x09) ∧ blankAllowed then
      let (label, after) := splitLabel false rest
      (octet :: label, after)
    else ([], octet :: rest)

/-- The text between the boundary lines, and their label. -/
def encapsulated? (octets : Bytes) : Option (Bytes × Bytes) := do
  let (label, rest) := splitLabel false (← afterBegin? octets)
  let body ← afterLineEnd? (← dashes.isPrefixOf? rest)
  let body ← dashes.isSuffixOf? ((beforeLineEnd? body).getD body)
  let body ← endMark.isSuffixOf? (← label.isSuffixOf? body)
  some (label, ← beforeLineEnd? body)

/-- The full lines of a text and its last line, without their ends. -/
def lines? (octets : Bytes) : Option (List Bytes) :=
  if octets = [] then some []
  else if octets.length ≤ lineWidth then some [(beforeLineEnd? octets).getD octets]
  else
    match _found : afterLineEnd? (octets.drop lineWidth) with
    | none => none
    | some rest => (lines? rest).map (octets.take lineWidth :: ·)
termination_by octets.length
decreasing_by
  have shorter := length_afterLineEnd _found
  simp only [List.length_drop] at shorter
  omega

/-- The octets that lines encode. Only the last line may hold padding, so an empty one after a full
line with padding is refused. -/
def decode? (lines : List Bytes) : Option Bytes :=
  if lines.dropLast.all (!·.contains Base64.padding) then Base64.read? lines.flatten else none

def read? (octets : Bytes) : Option (Bytes × Bytes) := do
  let (label, text) ← encapsulated? octets
  let der ← decode? (← lines? text)
  let element ← Der.Rules.key.only? der
  if element.tag = [0x30] then some (label, der) else none

/-- Lines of 64 characters and one last line, each with the given end. -/
def writeLines (lineEnd : Bytes) (characters : Bytes) : Bytes :=
  if characters.length ≤ lineWidth then characters ++ lineEnd
  else characters.take lineWidth ++ lineEnd ++ writeLines lineEnd (characters.drop lineWidth)
termination_by characters.length
decreasing_by
  simp only [List.length_drop, lineWidth] at *
  omega

def write (label lineEnd der : Bytes) : Bytes :=
  beginMark ++ label ++ dashes ++ lineEnd ++ writeLines lineEnd (Base64.write der) ++
    endMark ++ label ++ dashes ++ lineEnd

end CredentialSigning.Pem.Document
