import CredentialSigning.Certificate.Name
import CredentialSigning.Certificate.Time
import CredentialSigning.Pem.Bundle

/-! X.509 certificates as far as a signer shows them: serial number, names, and the public key with
its algorithm. The other fields have to be well formed and are not kept; nothing is verified. In PEM
files a single certificate is the first block of the file, a chain is every block with the label of
certificates, in order. -/

namespace CredentialSigning

/-- `serial` and `publicKey` are octets as encoded, `algorithm` is the content of the algorithm
identifier of the public key. -/
structure Certificate where
  serial : Bytes
  issuer : Certificate.Name
  subject : Certificate.Name
  algorithm : Bytes
  publicKey : Bytes
  deriving DecidableEq, Repr

namespace Certificate
open Der

/-- The octets of a BIT STRING. Unused bits, at most seven and only in a last octet, are zero. -/
def bits? : Bytes → Option Bytes
  | [] => none
  | unused :: octets =>
    if unused = 0 then some octets
    else
      match octets.getLast? with
      | none => none
      | some last =>
        if unused ≤ 7 ∧ last.toNat % (1 <<< unused.toNat) = 0 then some octets else none

def isVersion (content : Bytes) : Bool :=
  match Rules.certificate.whole? 0x02 content with
  | some [version] => version ≤ 2
  | _ => false

def isTime (element : Element) : Bool :=
  match element.tag with
  | [0x17] => Time.isShort element.content
  | [0x18] => Time.isLong element.content
  | _ => false

def isValidity (content : Bytes) : Bool :=
  match Rules.certificate.elements? content with
  | some [start, finish] => isTime start && isTime finish
  | _ => false

def publicKey? (content : Bytes) : Option (Bytes × Bytes) := do
  let (algorithm, rest) ← Rules.certificate.take? 0x30 content
  let _ ← typedValues? algorithm
  let bits ← bits? (← Rules.certificate.whole? 0x03 rest)
  some (algorithm, bits)

def isUniqueId (content : Bytes) : Bool :=
  ((Rules.certificate.whole? 0x03 content).bind bits?).isSome

/-- An identifier, a truth value or nothing, and an OCTET STRING. -/
def isExtension (element : Element) : Bool :=
  element.tag = [0x30] &&
    match Rules.certificate.elements? element.content with
    | some [⟨[0x06], oid⟩, ⟨[0x04], _⟩] => isOid oid
    | some [⟨[0x06], oid⟩, ⟨[0x01], [critical]⟩, ⟨[0x04], _⟩] =>
      isOid oid && (critical = 0 || critical = 0xff)
    | _ => false

def areExtensions (content : Bytes) : Bool :=
  match (Rules.certificate.whole? 0x30 content).bind Rules.certificate.elements? with
  | some extensions => extensions.all isExtension
  | none => false

def ofSigned? (content : Bytes) : Option Certificate := do
  let (version, rest) ← Rules.certificate.takeOptional? 0xa0 content
  let (serial, rest) ← Rules.certificate.take? 0x02 rest
  let (signature, rest) ← Rules.certificate.take? 0x30 rest
  let _ ← typedValues? signature
  let (issuer, rest) ← Rules.certificate.take? 0x30 rest
  let issuer ← Name.read? issuer
  let (validity, rest) ← Rules.certificate.take? 0x30 rest
  let (subject, rest) ← Rules.certificate.take? 0x30 rest
  let subject ← Name.read? subject
  let (publicKey, rest) ← Rules.certificate.take? 0x30 rest
  let (algorithm, publicKey) ← publicKey? publicKey
  let (issuerId, rest) ← Rules.certificate.takeOptional? 0xa1 rest
  let (subjectId, rest) ← Rules.certificate.takeOptional? 0xa2 rest
  let (extensions, rest) ← Rules.certificate.takeOptional? 0xa3 rest
  if version.all isVersion ∧ isMinimalInteger serial ∧ isValidity validity ∧
      issuerId.all isUniqueId ∧ subjectId.all isUniqueId ∧ extensions.all areExtensions ∧
      rest = [] then
    some ⟨serial, issuer, subject, algorithm, publicKey⟩
  else none

/-- A certificate in DER. What follows it is ignored. -/
def ofDer? (octets : Bytes) : Option Certificate := do
  let (content, _) ← Rules.certificate.take? 0x30 octets
  let (signed, rest) ← Rules.certificate.take? 0x30 content
  let (algorithm, rest) ← Rules.certificate.take? 0x30 rest
  let _ ← typedValues? algorithm
  let _ ← bits? (← Rules.certificate.whole? 0x03 rest)
  ofSigned? signed

def label : Bytes := Text.ascii "CERTIFICATE"

/-- The certificate in the first block, whatever its label. -/
def ofPem? (octets : Bytes) : Option Certificate := do
  let (block, _) ← Pem.Bundle.block? octets
  ofDer? (← block.contents?)

/-- The certificates of all blocks with their label. Blocks with other labels have to be sound, but
what they hold is not looked at. -/
def chainOfPem? (octets : Bytes) : Option (List Certificate) := do
  let sound ← (Pem.Bundle.blocks octets).mapM fun block =>
    block.contents?.map fun contents => (block.label, contents)
  (sound.filter (·.1 = label)).mapM fun block => ofDer? block.2

end Certificate
end CredentialSigning
