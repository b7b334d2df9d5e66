import CredentialSigning.Curve.Domain
import CredentialSigning.HashName
import CredentialSigning.Oid

/-! Why building a signer, signing or verifying fails. A failure has a kind, and a detail that names
the hash, key, stage or file fault in question; its message is made from both. -/

namespace CredentialSigning

/-- A key of an algorithm or on a curve that no signer supports. -/
inductive UnsupportedKey
  | algorithm (oid : Oid)
  | curve (oid : Oid)
  deriving DecidableEq

namespace UnsupportedKey

def text : UnsupportedKey → String
  | algorithm oid => "private key algorithm " ++ oid.dotted
  | curve oid => "elliptic curve " ++ oid.dotted

end UnsupportedKey

/-- The signature that could not be made. -/
inductive FailedSignature
  | ecdsa (curve : Curve)
  | rsa (hash : HashName)
  deriving DecidableEq

namespace FailedSignature

def text : FailedSignature → String
  | ecdsa curve => curve.name ++ " ECDSA"
  | rsa hash => "RSA PKCS#1 v1.5 with " ++ hash.title

end FailedSignature

/-- The part of a PEM or DER credential that does not decode. -/
inductive CredentialStage
  | keyPem
  | keyInfo
  | rsaKey
  | curveParameters
  | ecKey (curve : Curve)
  | certificatePem
  | chainPem
  deriving DecidableEq

namespace CredentialStage

def text : CredentialStage → String
  | keyPem => "PKCS#8 PEM"
  | keyInfo => "PKCS#8 private key"
  | rsaKey => "RSA private key"
  | curveParameters => "EC private key without named curve"
  | ecKey curve => curve.name ++ " private key"
  | certificatePem => "certificate PEM"
  | chainPem => "certificate chain PEM"

end CredentialStage

/-- The step of opening an archive that fails. -/
inductive ArchiveStage
  | parsing
  | mac
  | contents
  | keyInfo
  | certificate
  | noCertificate
  deriving DecidableEq

namespace ArchiveStage

def text : ArchiveStage → String
  | parsing => "parsing PKCS#12"
  | mac => "MAC verification failed with the empty password"
  | contents => "extracting keys"
  | keyInfo => "private key bag"
  | certificate => "certificate bag"
  | noCertificate => "PKCS#12 has no certificate"

end ArchiveStage

/-- Why a file could not be read, with the operating system's number where it has one. -/
inductive FileFault
  | notFound
  | isDirectory
  | notDirectory
  | nameTooLong
  | nulInName
  | notUtf8
  deriving DecidableEq, Repr

namespace FileFault

def text : FileFault → String
  | notFound => "No such file or directory (os error 2)"
  | isDirectory => "Is a directory (os error 21)"
  | notDirectory => "Not a directory (os error 20)"
  | nameTooLong => "File name too long (os error 36)"
  | nulInName => "file name contained an unexpected NUL byte"
  | notUtf8 => "stream did not contain valid UTF-8"

end FileFault

inductive FailureKind
  | unsupportedDigest
  | unsupportedAlgorithm
  | signingFailed
  | io
  | malformedArchive
  | noPrivateKey
  | invalidCredential
  | invalidSignature
  deriving DecidableEq, Repr

namespace FailureKind

/-- The message of a failure of this kind with the given detail. Two kinds have no detail, and file
faults are passed on as they are. -/
def message : FailureKind → String → String
  | unsupportedDigest, detail => "unsupported digest: " ++ detail
  | unsupportedAlgorithm, detail => "unsupported algorithm: " ++ detail
  | signingFailed, detail => "signing failed: " ++ detail
  | io, detail => detail
  | malformedArchive, detail => "malformed PKCS#12 archive: " ++ detail
  | noPrivateKey, _ => "PKCS#12 has no private key"
  | invalidCredential, detail => "invalid credential: " ++ detail
  | invalidSignature, _ => "signature verification failed"

/-- Whether trying again could succeed: a file may appear, a rejected key stays rejected. -/
def isRetryable (kind : FailureKind) : Bool :=
  kind = io

end FailureKind

inductive Failure
  | unsupportedDigest (hash : HashName)
  | unsupportedAlgorithm (key : UnsupportedKey)
  | signingFailed (signature : FailedSignature)
  | io (fault : FileFault)
  | malformedArchive (stage : ArchiveStage)
  | noPrivateKey
  | invalidCredential (stage : CredentialStage)
  | invalidSignature
  deriving DecidableEq

namespace Failure

def kind : Failure → FailureKind
  | unsupportedDigest _ => .unsupportedDigest
  | unsupportedAlgorithm _ => .unsupportedAlgorithm
  | signingFailed _ => .signingFailed
  | io _ => .io
  | malformedArchive _ => .malformedArchive
  | noPrivateKey => .noPrivateKey
  | invalidCredential _ => .invalidCredential
  | invalidSignature => .invalidSignature

def detail : Failure → String
  | unsupportedDigest hash => hash.title
  | unsupportedAlgorithm key => key.text
  | signingFailed signature => signature.text
  | io fault => fault.text
  | malformedArchive stage => stage.text
  | noPrivateKey => ""
  | invalidCredential stage => stage.text
  | invalidSignature => ""

def message (failure : Failure) : String :=
  failure.kind.message failure.detail

def isRetryable (failure : Failure) : Bool :=
  failure.kind.isRetryable

end Failure

namespace HashName

/-- The digest, or the refusal of a hash function that is not computed. -/
def digest (hash : HashName) (message : Bytes) : Except Failure Bytes :=
  match hash.digest? message with
  | some digest => .ok digest
  | none => .error (.unsupportedDigest hash)

end HashName
end CredentialSigning
