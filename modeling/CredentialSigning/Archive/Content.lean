import CredentialSigning.Archive.Derivation
import CredentialSigning.Cipher.Des
import CredentialSigning.Cipher.Rc2
import CredentialSigning.Der.Rules

/-! The pieces an archive is made of: contents, plain or encrypted under the empty password, and the
bags in them. -/

namespace CredentialSigning.Archive
open Der

/-- Content octets of an object identifier whose arcs fit 64 bits and have no zero digit but the
last. `fresh` says that an arc ends before the octets. -/
def areArcs (fresh : Bool) (value : Nat) : Bytes → Bool
  | [] => fresh
  | octet :: rest =>
    let value := value * 128 + octet.toNat % 128
    octet != 0x80 && value < 1 <<< 64 &&
      if octet < 0x80 then areArcs true 0 rest else areArcs false value rest

def takeOid? (octets : Bytes) : Option (Bytes × Bytes) := do
  let (oid, rest) ← Rules.archive.take? 0x06 octets
  if oid ≠ [] ∧ areArcs true 0 oid then some (oid, rest) else none

def takeNumber? (bits : Nat) (octets : Bytes) : Option (Nat × Bytes) := do
  let (content, rest) ← Rules.archive.take? 0x02 octets
  let value ← natural? content
  if value < 1 <<< bits then some (value, rest) else none

namespace Oid

def data : Bytes := [0x2a, 0x86, 0x48, 0x86, 0xf7, 0x0d, 0x01, 0x07, 0x01]

def encryptedData : Bytes := [0x2a, 0x86, 0x48, 0x86, 0xf7, 0x0d, 0x01, 0x07, 0x06]

def sha1 : Bytes := [0x2b, 0x0e, 0x03, 0x02, 0x1a]

def tripleDes : Bytes := [0x2a, 0x86, 0x48, 0x86, 0xf7, 0x0d, 0x01, 0x0c, 0x01, 0x03]

def rc2 : Bytes := [0x2a, 0x86, 0x48, 0x86, 0xf7, 0x0d, 0x01, 0x0c, 0x01, 0x06]

def shroudedKeyBag : Bytes := [0x2a, 0x86, 0x48, 0x86, 0xf7, 0x0d, 0x01, 0x0c, 0x0a, 0x01, 0x02]

def certificateBag : Bytes := [0x2a, 0x86, 0x48, 0x86, 0xf7, 0x0d, 0x01, 0x0c, 0x0a, 0x01, 0x03]

def x509 : Bytes := [0x2a, 0x86, 0x48, 0x86, 0xf7, 0x0d, 0x01, 0x09, 0x16, 0x01]

def sdsi : Bytes := [0x2a, 0x86, 0x48, 0x86, 0xf7, 0x0d, 0x01, 0x09, 0x16, 0x02]

def friendlyName : Bytes := [0x2a, 0x86, 0x48, 0x86, 0xf7, 0x0d, 0x01, 0x09, 0x14]

def localKeyId : Bytes := [0x2a, 0x86, 0x48, 0x86, 0xf7, 0x0d, 0x01, 0x09, 0x15]

end Oid

/-- Encryption under a password. Of other algorithms only their form counts. -/
inductive Protection
  | tripleDes (salt : Bytes) (iterations : Nat)
  | rc2 (salt : Bytes) (iterations : Nat)
  | other
  deriving DecidableEq, Repr

namespace Protection
open Archive.Derivation

def parameters? (octets : Bytes) : Option (Bytes × Nat) := do
  let content ← Rules.archive.whole? 0x30 octets
  let (salt, rest) ← Rules.archive.take? 0x04 content
  let (iterations, rest) ← takeNumber? 64 rest
  if rest = [] then some (salt, iterations) else none

/-- An algorithm identifier. SHA-1 has the parameters NULL or none, an unknown algorithm at most one
value. -/
def read? (content : Bytes) : Option Protection := do
  let (oid, rest) ← takeOid? content
  if oid = Oid.tripleDes then (parameters? rest).map fun (salt, count) => tripleDes salt count
  else if oid = Oid.rc2 then (parameters? rest).map fun (salt, count) => rc2 salt count
  else if rest = [] then some other
  else do
    let element ← Rules.archive.only? rest
    if oid = Oid.sha1 ∧ element ≠ ⟨[0x05], []⟩ then none else some other

/-- Every block is decrypted and combined with the block before it, the first one with `vector`. -/
def chain (decrypt : Bytes → Bytes) : Bytes → List Bytes → Bytes
  | _, [] => []
  | vector, block :: blocks => (decrypt block).xor vector ++ chain decrypt block blocks

/-- The octets before padding: one to eight octets, each of which is their number. -/
def unpad? (octets : Bytes) : Option Bytes :=
  match octets.getLast? with
  | none => none
  | some last =>
    let count := last.toNat
    if 1 ≤ count ∧ count ≤ 8 ∧
        octets.drop (octets.length - count) = List.replicate count last then
      some (octets.take (octets.length - count))
    else none

/-- Decryption by a cipher of eight octets a block, in chained mode with padding. -/
def decryptChained? (decrypt : Bytes → Bytes) (vector octets : Bytes) : Option Bytes :=
  if octets.length % 8 = 0 then unpad? (chain decrypt vector (octets.blocks 8)) else none

/-- The octets under the encryption, if the algorithm is known and the padding is right. -/
def decrypt? (protection : Protection) (octets : Bytes) : Option Bytes :=
  match protection with
  | tripleDes salt iterations =>
    decryptChained? (Cipher.Des.decryptThreefold (derive .key salt iterations 24))
      (derive .vector salt iterations 8) octets
  | rc2 salt iterations =>
    decryptChained? (Cipher.Rc2.decrypt (derive .key salt iterations 5))
      (derive .vector salt iterations 8) octets
  | other => none

end Protection

inductive Content
  | plain (octets : Bytes)
  | encrypted (protection : Protection) (octets : Bytes)
  | other
  deriving DecidableEq, Repr

namespace Content

def readEncrypted? (octets : Bytes) : Option Content := do
  let content ← Rules.archive.whole? 0x30 octets
  let (_, rest) ← takeNumber? 8 content
  let content ← Rules.archive.whole? 0x30 rest
  let (_, rest) ← takeOid? content
  let (algorithm, rest) ← Rules.archive.take? 0x30 rest
  let protection ← Protection.read? algorithm
  let octets ← Rules.archive.whole? 0x80 rest
  some (encrypted protection octets)

/-- A content type and one value of it. -/
def read? (content : Bytes) : Option Content := do
  let (oid, rest) ← takeOid? content
  let value ← Rules.archive.whole? 0xa0 rest
  if oid = Oid.data then (Rules.archive.whole? 0x04 value).map plain
  else if oid = Oid.encryptedData then readEncrypted? value
  else (Rules.archive.only? value).map fun _ => other

/-- The octets of a content under the empty password. -/
def open? : Content → Option Bytes
  | plain octets => some octets
  | encrypted protection octets => protection.decrypt? octets
  | other => none

end Content

/-- What a safe holds. Of bags that are neither shrouded keys nor X.509 certificates only the type is
kept. -/
inductive Bag
  | shroudedKey (protection : Protection) (octets : Bytes)
  | certificate (octets : Bytes)
  | other (type : Bytes)
  deriving DecidableEq, Repr

namespace Bag

/-- Lexicographic order of octet strings; a string comes before its extensions. -/
def precedes : Bytes → Bytes → Bool
  | [], _ => true
  | _ :: _, [] => false
  | left :: lefts, right :: rights => left < right || (left == right && precedes lefts rights)

/-- Whether every encoding comes before the next one or equals it. -/
def areAscending : List Bytes → Bool
  | first :: second :: rest => precedes first second && areAscending (second :: rest)
  | _ => true

/-- The elements of a SET OF, which are in ascending order. -/
def setElements? (content : Bytes) : Option (List Element) := do
  let encodings ← Rules.archive.encodings? content
  if areAscending encodings then Rules.archive.elements? content else none

/-- A type and a set of values. A friendly name is one or more strings of two-octet characters, a
key identifier one or more OCTET STRINGs. -/
def isAttribute (element : Element) : Bool :=
  element.tag = [0x30] &&
    match (do
      let (oid, rest) ← takeOid? element.content
      let values ← setElements? (← Rules.archive.whole? 0x31 rest)
      some (oid, values)) with
    | none => false
    | some (oid, values) =>
      if oid = Oid.friendlyName then
        values ≠ [] && values.all fun value => value.tag = [0x1e] && value.content.length % 2 = 0
      else if oid = Oid.localKeyId then values ≠ [] && values.all (·.tag = [0x04])
      else true

def areAttributes (content : Bytes) : Bool :=
  match setElements? content with
  | none => false
  | some elements => elements.all isAttribute

/-- A certificate of a type; the text of the other known type is not kept. -/
def readCertificate? (value : Bytes) : Option Bag := do
  let content ← Rules.archive.whole? 0x30 value
  let (oid, rest) ← takeOid? content
  let value ← Rules.archive.whole? 0xa0 rest
  if oid = Oid.x509 then (Rules.archive.whole? 0x04 value).map certificate
  else if oid = Oid.sdsi then do
    let text ← Rules.archive.whole? 0x16 value
    if text.all (· < 0x80) then some (other Oid.certificateBag) else none
  else none

def readShroudedKey? (value : Bytes) : Option Bag := do
  let content ← Rules.archive.whole? 0x30 value
  let (algorithm, rest) ← Rules.archive.take? 0x30 content
  let protection ← Protection.read? algorithm
  (Rules.archive.whole? 0x04 rest).map (shroudedKey protection)

def read? (element : Element) : Option Bag :=
  if element.tag = [0x30] then do
    let (oid, rest) ← takeOid? element.content
    let (value, rest) ← Rules.archive.take? 0xa0 rest
    let bag ←
      if oid = Oid.certificateBag then readCertificate? value
      else if oid = Oid.shroudedKeyBag then readShroudedKey? value
      else (Rules.archive.only? value).map fun _ => other oid
    if rest = [] then some bag
    else do
      let attributes ← Rules.archive.whole? 0x31 rest
      if areAttributes attributes then some bag else none
  else none

def readAll? (octets : Bytes) : Option (List Bag) := do
  (← Rules.archive.elements? (← Rules.archive.whole? 0x30 octets)).mapM read?

/-- The key in a bag, if it opens under the empty password. -/
def key? : Bag → Option Bytes
  | shroudedKey protection octets => protection.decrypt? octets
  | _ => none

def certificate? : Bag → Option Bytes
  | certificate octets => some octets
  | _ => none

end Bag
end CredentialSigning.Archive
