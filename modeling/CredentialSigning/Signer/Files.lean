import CredentialSigning.Archive.Reader
import CredentialSigning.Certificate.Reader
import CredentialSigning.Files
import CredentialSigning.Key.Pem
import CredentialSigning.Signer.Basic

/-! Building signers from files: certificates and keys in PEM, or an archive. The first file that
cannot be read or does not decode decides the failure. -/

namespace CredentialSigning

namespace Files

def contentOf (files : Files) (path : String) : Except Failure Bytes :=
  (files.read path).mapError .io

def readCertificate (files : Files) (path : String) : Except Failure Certificate := do
  match Certificate.ofPem? (← files.contentOf path) with
  | some certificate => .ok certificate
  | none => .error (.invalidCredential .certificatePem)

/-- The certificates of a bundle in order; a bundle may be empty. -/
def readChain (files : Files) (path : String) : Except Failure (List Certificate) := do
  match Certificate.chainOfPem? (← files.contentOf path) with
  | some certificates => .ok certificates
  | none => .error (.invalidCredential .chainPem)

/-- The chain at an optional path; without a path it is empty. -/
def readOptionalChain (files : Files) : Option String → Except Failure (List Certificate)
  | none => .ok []
  | some path => files.readChain path

def readKeyInfo (files : Files) (path : String) : Except Failure Key.Info := do
  Key.Info.ofPem (Text.utf8 (← (files.readText path).mapError .io))

def readKey (files : Files) (path : String) : Except Failure PrivateKey := do
  PrivateKey.ofInfo (← files.readKeyInfo path)

end Files

namespace Signer

/-- A signer from a certificate, a key and a chain, which are read in this order. -/
def ofPem (files : Files) (certificate key : String) (chain : Option String) :
    Except Failure Signer := do
  let certificate ← files.readCertificate certificate
  let key ← files.readKey key
  let chain ← files.readOptionalChain chain
  .ok ⟨key, certificate, chain⟩

/-- The same with the envelope of the key decoded first and its key only after the chain. -/
def ofPemEnvelope (files : Files) (certificate key : String) (chain : Option String) :
    Except Failure Signer := do
  let certificate ← files.readCertificate certificate
  let info ← files.readKeyInfo key
  let chain ← files.readOptionalChain chain
  ofInfo info certificate chain

/-- A signer from an archive. Certificates other than the leaf are not kept. -/
def ofArchive (files : Files) (path : String) : Except Failure Signer := do
  let (key, certificate) ← Archive.decode (← files.contentOf path)
  .ok ⟨key, certificate, []⟩

end Signer
end CredentialSigning
