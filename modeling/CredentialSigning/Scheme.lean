import CredentialSigning.HashName

/-! The identifier of a signer's algorithm in request headers. It depends on the kind of the key
alone, never on the hash function of a request. -/

namespace CredentialSigning

inductive Scheme
  | rsa
  | ecdsa
  deriving DecidableEq, Repr

namespace Scheme

def all : List Scheme :=
  [rsa, ecdsa]

/-- The name in JSON. -/
def code : Scheme → String
  | rsa => "aws4-x509-rsa-sha256"
  | ecdsa => "aws4-x509-ecdsa-sha256"

/-- The name in request headers. -/
def identifier : Scheme → String
  | rsa => "aws4-x509-rsa-sha256"
  | ecdsa => "aws4-x509-ecdsa-sha256"

/-- The name in messages. -/
def title (scheme : Scheme) : String :=
  scheme.identifier

def ofCode? (code : String) : Option Scheme :=
  all.find? (·.code = code)

def ofJson? (value : Json) : Option Scheme :=
  value.constant?.bind ofCode?

def read? (text : String) : Option Scheme :=
  (Json.read? text).bind ofJson?

def toJson (scheme : Scheme) : Json :=
  .string scheme.code

@[simp] theorem ofCode?_code (scheme : Scheme) : ofCode? scheme.code = some scheme := by
  cases scheme <;> decide

end Scheme
end CredentialSigning
