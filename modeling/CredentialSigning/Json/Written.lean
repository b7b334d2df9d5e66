import CredentialSigning.Json.Value

/-! The compact text of a JSON value: no blanks, members in order, and in strings an escape only
where the grammar requires one. -/

namespace CredentialSigning.Json

def hexPair (value : Nat) : List Char :=
  [Nat.digitChar (value / 16 % 16), Nat.digitChar (value % 16)]

/-- A character inside a string: quotes and backslashes escaped, control characters by their letter
or their number, all others as they are. -/
def writeChar (c : Char) : List Char :=
  if c = '"' then ['\\', '"']
  else if c = '\\' then ['\\', '\\']
  else if c = '\x08' then ['\\', 'b']
  else if c = '\x0c' then ['\\', 'f']
  else if c = '\n' then ['\\', 'n']
  else if c = '\r' then ['\\', 'r']
  else if c = '\t' then ['\\', 't']
  else if c.toNat < 0x20 then '\\' :: 'u' :: '0' :: '0' :: hexPair c.toNat
  else [c]

def writeString (text : String) : List Char :=
  '"' :: text.toList.flatMap writeChar ++ ['"']

def writeNumber (value : Decimal) : List Char :=
  (toString value.significand).toList ++
    if value.exponent = 0 then [] else 'e' :: (toString value.exponent).toList

mutual

def write : Json → List Char
  | .null => ['n', 'u', 'l', 'l']
  | .bool true => ['t', 'r', 'u', 'e']
  | .bool false => ['f', 'a', 'l', 's', 'e']
  | .number value => writeNumber value
  | .string text => writeString text
  | .array [] => ['[', ']']
  | .array (item :: items) => '[' :: write item ++ writeItems items
  | .object [] => ['\x7b', '\x7d']
  | .object ((name, value) :: members) =>
    '\x7b' :: writeString name ++ ':' :: write value ++ writeMembers members

/-- The items after the first one, and the closing bracket. -/
def writeItems : List Json → List Char
  | [] => [']']
  | item :: items => ',' :: write item ++ writeItems items

def writeMembers : List (String × Json) → List Char
  | [] => ['\x7d']
  | (name, value) :: members =>
    ',' :: writeString name ++ ':' :: write value ++ writeMembers members

end

def render (value : Json) : String :=
  String.ofList (write value)

end CredentialSigning.Json
