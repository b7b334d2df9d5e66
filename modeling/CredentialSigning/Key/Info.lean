import CredentialSigning.Der.Rules
import CredentialSigning.Oid

/-! The PKCS#8 envelope of a private key: the algorithm with its parameters, and the octets of the
key itself. -/

namespace CredentialSigning

namespace Der

/-- Passes over fields of the context-specific class with numbers below the given one. -/
def skipFieldsBelow? (number : UInt8) : Nat → Bytes → Option Bytes
  | 0, octets => some octets
  | _, [] => some []
  | count + 1, first :: rest =>
    if first &&& 0xc0 = 0x80 ∧ first &&& 0x1f < number then do
      let (_, rest) ← Rules.key.element? (first :: rest)
      skipFieldsBelow? number count rest
    else some (first :: rest)

/-- The context-specific field with a number, if it comes next after fields with lower numbers,
which are ignored. -/
def field? (number : UInt8) (octets : Bytes) : Option (Option Element × Bytes) := do
  match ← skipFieldsBelow? number octets.length octets with
  | [] => some (none, [])
  | first :: rest =>
    if first &&& 0xc0 = 0x80 ∧ first &&& 0x1f = number then do
      let (element, rest) ← Rules.key.element? (first :: rest)
      some (some element, rest)
    else if isKeyTag first then some (none, first :: rest)
    else none

/-- The content of a sequence that is all there is. No document is as long as the limit of a value. -/
def document? (octets : Bytes) : Option Bytes :=
  if octets.length < keyLimit then Rules.key.whole? 0x30 octets else none

/-- The octets of a BIT STRING without unused bits. -/
def wholeBits? : Bytes → Option Bytes
  | 0 :: octets => some octets
  | _ => none

end Der

namespace Key

open Der

structure Info where
  algorithm : Oid
  parameters : Option Element
  key : Bytes
  deriving DecidableEq

namespace Info

/-- An algorithm identifier: its object identifier and at most one value. -/
def algorithm? (content : Bytes) : Option (Oid × Option Element) := do
  let (oid, rest) ← Rules.key.take? 0x06 content
  let oid ← Oid.ofOctets? oid
  if rest = [] then some (oid, none)
  else do
    let parameters ← Rules.key.only? rest
    some (oid, some parameters)

/-- Fields that may end the envelope: constructed, context-specific, with one value each. -/
def isExtension (element : Element) : Bool :=
  match element.tag with
  | [octet] => octet &&& 0xe0 = 0xa0 && (Rules.key.only? element.content).isSome
  | _ => false

/-- The version that goes with the field for a public key: 1 if there is one, which is a BIT STRING
whose value is ignored. -/
def version? : Option Element → Option Bytes
  | none => some [0]
  | some element =>
    if element.tag = [0x81] then (wholeBits? element.content).map fun _ => [1] else none

def ofDer? (octets : Bytes) : Option Info := do
  let content ← document? octets
  let (version, rest) ← Rules.key.take? 0x02 content
  let (algorithm, rest) ← Rules.key.take? 0x30 rest
  let (oid, parameters) ← algorithm? algorithm
  let (key, rest) ← Rules.key.take? 0x04 rest
  let (publicKey, rest) ← field? 1 rest
  let extensions ← Rules.key.elements? rest
  if version? publicKey = some version ∧ extensions.all isExtension then
    some ⟨oid, parameters, key⟩
  else none

/-- The parameters, if they are an object identifier. -/
def namedParameters? (info : Info) : Option Oid :=
  match info.parameters with
  | some ⟨[0x06], octets⟩ => Oid.ofOctets? octets
  | _ => none

end Info
end Key
end CredentialSigning
