import CredentialSigning.Archive.Content
import CredentialSigning.Certificate.Reader
import CredentialSigning.Key.Private

/-! PKCS#12 archives: an authenticated safe, which lists contents, and a MAC over it. A signer takes
the first key, and the certificate that belongs to it. -/

namespace CredentialSigning

/-- The digest of an archive's safe with the salt and the iterations of its key. -/
structure Archive.Mac where
  digest : Bytes
  salt : Bytes
  iterations : Nat
  deriving DecidableEq, Repr

structure Archive where
  safe : Archive.Content
  mac : Option Archive.Mac
  deriving DecidableEq, Repr

namespace Archive
open Der

namespace Mac

def read? (octets : Bytes) : Option Mac := do
  let content ← Rules.archive.whole? 0x30 octets
  let (info, rest) ← Rules.archive.take? 0x30 content
  let (algorithm, digest) ← Rules.archive.take? 0x30 info
  let _ ← Protection.read? algorithm
  let digest ← Rules.archive.whole? 0x04 digest
  let (salt, rest) ← Rules.archive.take? 0x04 rest
  let (iterations, rest) ← takeNumber? 32 rest
  if rest = [] then some ⟨digest, salt, iterations⟩ else none

/-- Whether the digest is the one of the safe's octets under the empty password. -/
def holds (mac : Mac) (octets : Bytes) : Bool :=
  Hash.Hmac.sha1 (Derivation.derive .mac mac.salt mac.iterations 20) octets = mac.digest

end Mac

def read? (octets : Bytes) : Option Archive := do
  let content ← Rules.archive.whole? 0x30 octets
  let (_, rest) ← takeNumber? 8 content
  let (safe, rest) ← Rules.archive.take? 0x30 rest
  let safe ← Content.read? safe
  if rest = [] then some ⟨safe, none⟩
  else do some ⟨safe, some (← Mac.read? rest)⟩

/-- Whether the MAC is right. An archive without one passes. -/
def isIntact (archive : Archive) : Bool :=
  match archive.mac with
  | none => true
  | some mac => archive.safe.open?.any mac.holds

def bags? (archive : Archive) : Option (List Bag) := do
  let safe ← archive.safe.open?
  let elements ← Rules.archive.elements? (← Rules.archive.whole? 0x30 safe)
  let bags ← elements.mapM fun element =>
    if element.tag = [0x30] then do Bag.readAll? (← (← Content.read? element.content).open?)
    else none
  some bags.flatten

/-- The certificate that carries a public key, else the first one. All have to decode. -/
def selectLeaf (key : PublicKey) (certificates : List Bytes) : Except Failure Certificate :=
  match certificates.mapM Certificate.ofDer? with
  | none => .error (.malformedArchive .certificate)
  | some decoded =>
    match (decoded.find? (·.publicKey = key.subjectPublicKey)).or decoded.head? with
    | some leaf => .ok leaf
    | none => .error (.malformedArchive .noCertificate)

def credentials (bags : List Bag) : Except Failure (PrivateKey × Certificate) :=
  match bags.filterMap Bag.key? with
  | [] => .error .noPrivateKey
  | octets :: _ =>
    match Key.Info.ofDer? octets with
    | none => .error (.malformedArchive .keyInfo)
    | some info => do
      let key ← PrivateKey.ofInfo info
      let leaf ← selectLeaf key.publicKey (bags.filterMap Bag.certificate?)
      .ok (key, leaf)

def decode (octets : Bytes) : Except Failure (PrivateKey × Certificate) :=
  match read? octets with
  | none => .error (.malformedArchive .parsing)
  | some archive =>
    if archive.isIntact then
      match archive.bags? with
      | none => .error (.malformedArchive .contents)
      | some bags => credentials bags
    else .error (.malformedArchive .mac)

end Archive
end CredentialSigning
