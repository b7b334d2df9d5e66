import CredentialSigning.Json.Written
import CredentialSigning.Signer.Files

/-! Where a signer's key and certificates come from, as configured in JSON: an archive, or PEM
files. -/

namespace CredentialSigning

inductive Source
  | archive (path : String)
  | pem (certificate key : String) (chain : Option String)
  deriving DecidableEq, Repr

namespace Source

/-- A member of an object. A name may be repeated only if it is not asked for. -/
inductive Member
  | absent
  | repeated
  | only (value : Json)

def member (members : List (String × Json)) (name : String) : Member :=
  match members.filter (·.1 = name) with
  | [] => .absent
  | [found] => .only found.2
  | _ => .repeated

def text? : Json → Option String
  | .string text => some text
  | _ => none

def required? (members : List (String × Json)) (name : String) : Option String :=
  match member members name with
  | .only value => text? value
  | _ => none

def nullable? : Json → Option (Option String)
  | .null => some none
  | .string text => some (some text)
  | _ => none

def optional? (members : List (String × Json)) (name : String) : Option (Option String) :=
  match member members name with
  | .absent => some none
  | .only value => nullable? value
  | .repeated => none

/-- The source of a kind with its fields by name. -/
def ofMembers? (members : List (String × Json)) : String → Option Source
  | "pkcs12" => (required? members "path").map archive
  | "pem" => do
    let certificate ← required? members "certificate"
    let key ← required? members "private_key"
    let chain ← optional? members "certificate_chain"
    some (pem certificate key chain)
  | _ => none

/-- The source of a kind with its fields in their order. -/
def ofFields? : String → List Json → Option Source
  | "pkcs12", [.string path] => some (archive path)
  | "pem", [.string certificate, .string key] => some (pem certificate key none)
  | "pem", [.string certificate, .string key, chain] =>
    (nullable? chain).map (pem certificate key)
  | _, _ => none

/-- An object whose member `source` names the kind, or an array that starts with the kind. -/
def ofJson? : Json → Option Source
  | .object members => (required? members "source").bind (ofMembers? members)
  | .array (.string kind :: fields) => ofFields? kind fields
  | _ => none

def read? (text : String) : Option Source :=
  (Json.read? text).bind ofJson?

/-- The kind comes first, then the fields in order. A missing chain is left out. -/
def toJson : Source → Json
  | archive path => .object [("source", .string "pkcs12"), ("path", .string path)]
  | pem certificate key chain =>
    .object ([("source", .string "pem"), ("certificate", .string certificate),
      ("private_key", .string key)] ++
      chain.toList.map fun path => ("certificate_chain", .string path))

def write (source : Source) : String :=
  source.toJson.render

/-- The signer that a source describes, and the event that reports it. -/
def build (files : Files) : Source → Except Failure (Signer × Event)
  | archive path => do
    let signer ← Signer.ofArchive files path
    .ok (signer, .builtFromArchive path signer.scheme)
  | pem certificate key chain => do
    let signer ← Signer.ofPem files certificate key chain
    .ok (signer, .built signer.scheme signer.chain.length)

end Source
end CredentialSigning
