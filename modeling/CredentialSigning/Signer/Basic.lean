import CredentialSigning.Certificate.Reader
import CredentialSigning.Key.Private

/-! Signers: a private key with the certificate and the chain that are presented with its
signatures. That the certificate belongs to the key is not checked. -/

namespace CredentialSigning

structure Signer where
  key : PrivateKey
  certificate : Certificate
  chain : List Certificate
  deriving DecidableEq

namespace Signer

/-- A signer from a key that is still in its envelope. -/
def ofInfo (info : Key.Info) (certificate : Certificate) (chain : List Certificate) :
    Except Failure Signer := do
  .ok ⟨← PrivateKey.ofInfo info, certificate, chain⟩

def scheme (signer : Signer) : Scheme :=
  signer.key.scheme

def publicKey (signer : Signer) : PublicKey :=
  signer.key.publicKey

/-- Hashes the data and signs the digest; the generator moves on by what was used of it. -/
def sign (signer : Signer) (data : Bytes) (hash : HashName) (generator : Generator) :
    Except Failure Bytes × Generator :=
  signer.key.sign data hash generator

end Signer

/-- What is logged: signers that were built, and requests to close one. -/
inductive Event
  | built (scheme : Scheme) (chainLength : Nat)
  | builtFromArchive (path : String) (scheme : Scheme)
  | closing
  deriving DecidableEq, Repr

end CredentialSigning
