import CredentialSigning.Failure
import CredentialSigning.Text

/-! A working directory with files, as far as reading them by path can tell: names lead to contents
or to directories, and every path is looked up from the working directory. -/

namespace CredentialSigning

/-- What a name stands for. -/
inductive Entry
  | file (content : Bytes)
  | directory
  deriving DecidableEq, Repr

/-- Entries by the names that lead to them. The working directory is the one without names. -/
structure Files where
  entries : List (List String × Entry)
  deriving Repr

namespace Files

def empty : Files :=
  ⟨[]⟩

def lookup? (files : Files) (names : List String) : Option Entry :=
  if names = [] then some .directory
  else (files.entries.find? (·.1 = names)).map (·.2)

/-- Where a path has led so far. Outside of the working directory nothing is known but that its
parents are directories. -/
inductive Place
  | within (names : List String)
  | outside
  | file (content : Bytes)
  deriving DecidableEq, Repr

/-- One name further. -/
def follow (files : Files) (place : Place) (name : String) : Except FileFault Place :=
  match place with
  | .file _ => .error .notDirectory
  | .outside =>
    if name = "" ∨ name = "." ∨ name = ".." then .ok .outside
    else if 255 < name.utf8ByteSize then .error .nameTooLong
    else .error .notFound
  | .within names =>
    if name = "" ∨ name = "." then .ok (.within names)
    else if name = ".." then .ok (if names = [] then .outside else .within names.dropLast)
    else if 255 < name.utf8ByteSize then .error .nameTooLong
    else
      match files.lookup? (names ++ [name]) with
      | none => .error .notFound
      | some .directory => .ok (.within (names ++ [name]))
      | some (.file content) => .ok (.file content)

/-- The names in a path, between slashes. -/
def namesOf (path : String) : List String :=
  (path.toList.splitOn '/').map String.ofList

/-- The content of the file at a path. -/
def read (files : Files) (path : String) : Except FileFault Bytes := do
  if '\x00' ∈ path.toList then .error .nulInName
  else if path = "" then .error .notFound
  else if 4096 ≤ path.utf8ByteSize then .error .nameTooLong
  else
    let start := if path.front = '/' then Place.outside else .within []
    match ← (namesOf path).foldlM files.follow start with
    | .file content => .ok content
    | _ => .error .isDirectory

/-- The content of the file at a path, which has to be text. -/
def readText (files : Files) (path : String) : Except FileFault String := do
  match Text.ofUtf8? (← files.read path) with
  | some text => .ok text
  | none => .error .notUtf8

/-- The names that a path leads through. -/
def plainNames (path : String) : List String :=
  (namesOf path).filter fun name => name ≠ "" ∧ name ≠ "."

/-- All proper beginnings of some names but the empty one, shortest first. -/
def parents (names : List String) : List (List String) :=
  (List.range names.length).tail.map names.take

/-- Puts an entry at a path, in place of the former one, and makes the directories above it. -/
def write (files : Files) (path : String) (entry : Entry) : Files :=
  let names := plainNames path
  let kept := files.entries.filter (·.1 ≠ names)
  let missing := (parents names).filter fun above => !kept.any (·.1 = above)
  ⟨(names, entry) :: missing.map (·, .directory) ++ kept⟩

/-- Removes the entry at a path, and all below it. -/
def remove (files : Files) (path : String) : Files :=
  let names := plainNames path
  ⟨files.entries.filter fun entry => !names.isPrefixOf entry.1⟩

end Files
end CredentialSigning
