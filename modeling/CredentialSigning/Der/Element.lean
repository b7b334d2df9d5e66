import CredentialSigning.Bytes

/-! Encoded values: identifier octets, a length, and that many content octets. Keys, certificates
and archives admit different identifiers and lengths, so the reader takes both as rules. -/

namespace CredentialSigning.Der

structure Element where
  tag : Bytes
  content : Bytes
  deriving DecidableEq, Repr

namespace Element

def isConstructed (element : Element) : Bool :=
  match element.tag with
  | [] => false
  | first :: _ => first &&& 0x20 ≠ 0

end Element

/-- How identifier octets and a length are split off the front of an octet string. -/
structure Rules where
  tag? : Bytes → Option (Bytes × Bytes)
  length? : Bytes → Option (Nat × Bytes)

namespace Rules

/-- The first element and what follows it. -/
def element? (rules : Rules) (octets : Bytes) : Option (Element × Bytes) := do
  let (tag, octets) ← rules.tag? octets
  let (size, octets) ← rules.length? octets
  if size ≤ octets.length then some (⟨tag, octets.take size⟩, octets.drop size) else none

/-- The content of the first element, which has the given tag, and what follows it. -/
def take? (rules : Rules) (tag : UInt8) (octets : Bytes) : Option (Bytes × Bytes) := do
  let (element, rest) ← rules.element? octets
  if element.tag = [tag] then some (element.content, rest) else none

/-- The first element if it has the given tag; one with another tag stays unread. -/
def takeOptional? (rules : Rules) (tag : UInt8) (octets : Bytes) :
    Option (Option Bytes × Bytes) :=
  if octets = [] then some (none, [])
  else do
    let (element, rest) ← rules.element? octets
    if element.tag = [tag] then some (some element.content, rest) else some (none, octets)

def only? (rules : Rules) (octets : Bytes) : Option Element := do
  let (element, rest) ← rules.element? octets
  if rest = [] then some element else none

/-- The content of the only element, which has the given tag. -/
def whole? (rules : Rules) (tag : UInt8) (octets : Bytes) : Option Bytes := do
  let (content, rest) ← rules.take? tag octets
  if rest = [] then some content else none

/-- Elements up to the end, at most `count` of them. -/
def elementsUpTo? (rules : Rules) : Nat → Bytes → Option (List Element)
  | _, [] => some []
  | 0, _ => none
  | count + 1, octets => do
    let (element, rest) ← rules.element? octets
    let elements ← elementsUpTo? rules count rest
    some (element :: elements)

def elements? (rules : Rules) (octets : Bytes) : Option (List Element) :=
  rules.elementsUpTo? octets.length octets

/-- The encodings of the elements up to the end, at most `count` of them. -/
def encodingsUpTo? (rules : Rules) : Nat → Bytes → Option (List Bytes)
  | _, [] => some []
  | 0, _ => none
  | count + 1, octets => do
    let (_, rest) ← rules.element? octets
    let encodings ← encodingsUpTo? rules count rest
    some (octets.take (octets.length - rest.length) :: encodings)

def encodings? (rules : Rules) (octets : Bytes) : Option (List Bytes) :=
  rules.encodingsUpTo? octets.length octets

/-- What follows a run of values, which ends where the octets do or, when it is `marked`, at an end
mark. There are at most `count` values, those inside others included. Here alone a constructed value
may leave its length open: then two zero octets end its contents. -/
def afterValues? (rules : Rules) (marked : Bool) : Nat → Bytes → Option Bytes
  | _, [] => if marked then none else some []
  | _, 0 :: 0 :: rest => if marked then some rest else none
  | 0, _ => none
  | count + 1, octets => do
    let (tag, rest) ← rules.tag? octets
    if (Element.mk tag []).isConstructed ∧ rest.head? = some 0x80 then
      let rest ← afterValues? rules true count rest.tail
      afterValues? rules marked count rest
    else
      let (element, rest) ← rules.element? octets
      if element.isConstructed then
        let _ ← afterValues? rules false count element.content
        afterValues? rules marked count rest
      else afterValues? rules marked count rest

/-- Whether octets are well-formed values at every depth. No value is shorter than one octet. -/
def isNested (rules : Rules) (octets : Bytes) : Bool :=
  (rules.afterValues? false octets.length octets).isSome

end Rules

/-- An INTEGER has at least one content octet and no more than it needs. -/
def isMinimalInteger : Bytes → Bool
  | [] => false
  | [_] => true
  | first :: second :: _ =>
    !(first == 0 && second < 0x80) && !(first == 0xff && 0x80 ≤ second)

/-- The value of a non-negative INTEGER. -/
def natural? (content : Bytes) : Option Nat :=
  if isMinimalInteger content ∧ content.headD 0x80 < 0x80 then some content.toNat else none

end CredentialSigning.Der
