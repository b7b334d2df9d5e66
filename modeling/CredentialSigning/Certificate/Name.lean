import CredentialSigning.Certificate.CharacterString
import CredentialSigning.Der.Rules

/-! Distinguished names: a sequence of sets of attributes. Only common names are interpreted. -/

namespace CredentialSigning.Certificate
open Der

/-- The content octets of an object identifier: at least one, the last of which ends an arc. -/
def isOid (octets : Bytes) : Bool :=
  match octets.getLast? with
  | none => false
  | some last => last < 0x80

/-- An object identifier, and the well-formed values after it. -/
def typedValues? (content : Bytes) : Option (Bytes × Bytes) := do
  let (oid, values) ← Rules.certificate.take? 0x06 content
  if isOid oid ∧ Rules.certificate.isNested values then some (oid, values) else none

structure Attribute where
  type : Bytes
  values : Bytes
  deriving DecidableEq, Repr

abbrev Name := List (List Attribute)

namespace Attribute

def read? (element : Element) : Option Attribute :=
  if element.tag = [0x30] then
    (typedValues? element.content).map fun (type, values) => ⟨type, values⟩
  else none

def commonNameType : Bytes := [0x55, 0x04, 0x03]

def text? (entry : Attribute) : Option String := do
  let (element, _) ← Rules.certificate.element? entry.values
  CharacterString.text? element

end Attribute

namespace Name

def readSet? (element : Element) : Option (List Attribute) :=
  if element.tag = [0x31] then do
    (← Rules.certificate.elements? element.content).mapM Attribute.read?
  else none

def read? (content : Bytes) : Option Name := do
  (← Rules.certificate.elements? content).mapM readSet?

def commonName? (name : Name) : Option String :=
  (name.flatten.find? (·.type = Attribute.commonNameType)).bind Attribute.text?

end Name
end CredentialSigning.Certificate
