import CredentialSigning.Hash.Sha256
import CredentialSigning.Hash.Sha512
import CredentialSigning.Json.Value

/-! The hash functions that a request may name. Only the 256, 384 and 512 bit members of the SHA-2
family are computed; the weak ones exist so that naming them can be refused. -/

namespace CredentialSigning

inductive HashName
  | sha1
  | sha224
  | sha256
  | sha384
  | sha512
  deriving DecidableEq, Repr

namespace HashName

def all : List HashName :=
  [sha1, sha224, sha256, sha384, sha512]

/-- The name in JSON. -/
def code : HashName → String
  | sha1 => "sha1"
  | sha224 => "sha224"
  | sha256 => "sha256"
  | sha384 => "sha384"
  | sha512 => "sha512"

/-- The name in messages. -/
def title : HashName → String
  | sha1 => "SHA-1"
  | sha224 => "SHA-224"
  | sha256 => "SHA-256"
  | sha384 => "SHA-384"
  | sha512 => "SHA-512"

def ofCode? (code : String) : Option HashName :=
  all.find? (·.code = code)

def ofJson? (value : Json) : Option HashName :=
  value.constant?.bind ofCode?

def read? (text : String) : Option HashName :=
  (Json.read? text).bind ofJson?

def toJson (hash : HashName) : Json :=
  .string hash.code

def digest? : HashName → Bytes → Option Bytes
  | sha1, _ => none
  | sha224, _ => none
  | sha256, message => some (Hash.Sha256.digest message)
  | sha384, message => some (Hash.Sha512.digest384 message)
  | sha512, message => some (Hash.Sha512.digest512 message)

def size : HashName → Nat
  | sha1 => 20
  | sha224 => 28
  | sha256 => 32
  | sha384 => 48
  | sha512 => 64

theorem length_digest {hash : HashName} {message digest : Bytes}
    (computed : hash.digest? message = some digest) : digest.length = hash.size := by
  cases hash <;> simp [digest?] at computed <;> subst computed <;> simp [size]

@[simp] theorem ofCode?_code (hash : HashName) : ofCode? hash.code = some hash := by
  cases hash <;> decide

end HashName
end CredentialSigning
