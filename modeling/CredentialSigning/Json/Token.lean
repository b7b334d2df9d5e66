import CredentialSigning.Json.Decimal

/-! The tokens of a JSON text, and the scanner that finds them. The scanner reads one character at a
time, so a text is scanned in one pass over its characters. -/

namespace CredentialSigning.Json

inductive Token
  | leftBrace
  | rightBrace
  | leftBracket
  | rightBracket
  | colon
  | comma
  | null
  | bool (value : Bool)
  | number (value : Decimal)
  | string (text : String)
  deriving DecidableEq, Repr

namespace Token

def isBlank (c : Char) : Bool :=
  c = ' ' || c = '\t' || c = '\n' || c = '\r'

/-- Characters of numbers and of the three literal names. -/
def isWordPart (c : Char) : Bool :=
  c.isAlphanum || c = '-' || c = '+' || c = '.'

def punctuation? : Char → Option Token
  | '{' => some leftBrace
  | '}' => some rightBrace
  | '[' => some leftBracket
  | ']' => some rightBracket
  | ':' => some colon
  | ',' => some comma
  | _ => none

def ofWord? (word : List Char) : Option Token :=
  if word = ['n', 'u', 'l', 'l'] then some null
  else if word = ['t', 'r', 'u', 'e'] then some (bool true)
  else if word = ['f', 'a', 'l', 's', 'e'] then some (bool false)
  else match Decimal.read? word with
    | some value => if value.isFinite then some (number value) else none
    | none => none

/-- The character that a one-letter escape stands for. -/
def escaped? : Char → Option Char
  | '"' => some '"'
  | '\\' => some '\\'
  | '/' => some '/'
  | 'b' => some '\x08'
  | 'f' => some '\x0c'
  | 'n' => some '\n'
  | 'r' => some '\r'
  | 't' => some '\t'
  | _ => none

def hexDigit? (c : Char) : Option Nat :=
  if c.isDigit then some (c.toNat - '0'.toNat)
  else if 'a' ≤ c ∧ c ≤ 'f' then some (c.toNat - 'a'.toNat + 10)
  else if 'A' ≤ c ∧ c ≤ 'F' then some (c.toNat - 'A'.toNat + 10)
  else none

def isHighHalf (unit : Nat) : Bool :=
  0xd800 ≤ unit && unit < 0xdc00

def isLowHalf (unit : Nat) : Bool :=
  0xdc00 ≤ unit && unit < 0xe000

/-- The character above U+FFFF that a high and a low half name together. -/
def joinHalves (high low : Nat) : Char :=
  Char.ofNat (0x10000 + (high - 0xd800) * 0x400 + (low - 0xdc00))

/-- Where the scanner stands. Characters of the token being read are kept in reverse. In a numeric
escape `high` is the high half it has to complete, and `count` digits are left to read. -/
inductive Place
  | between
  | word (letters : List Char)
  | text (done : List Char)
  | escape (done : List Char)
  | numeric (done : List Char) (high : Option Nat) (count : Nat) (value : Nat)
  | secondBackslash (done : List Char) (high : Nat)
  | secondLetter (done : List Char) (high : Nat)
  deriving DecidableEq, Repr

/-- The place after the last digit of a numeric escape; a half without its partner is refused. -/
def afterUnit? (done : List Char) (unit : Nat) : Option Nat → Option Place
  | none =>
    if isHighHalf unit then some (.secondBackslash done unit)
    else if isLowHalf unit then none
    else some (.text (Char.ofNat unit :: done))
  | some high =>
    if isLowHalf unit then some (.text (joinHalves high unit :: done)) else none

/-- Tokens found so far in reverse, and the place reached. -/
structure Scan where
  tokens : List Token
  place : Place

namespace Scan

/-- A character that does not belong to an open token. -/
def start? (tokens : List Token) (c : Char) : Option Scan :=
  if isBlank c then some ⟨tokens, .between⟩
  else if c = '"' then some ⟨tokens, .text []⟩
  else if isWordPart c then some ⟨tokens, .word [c]⟩
  else (punctuation? c).map fun token => ⟨token :: tokens, .between⟩

def step? (scan : Scan) (c : Char) : Option Scan :=
  match scan.place with
  | .between => start? scan.tokens c
  | .word letters =>
    if isWordPart c then some ⟨scan.tokens, .word (c :: letters)⟩
    else (ofWord? letters.reverse).bind fun token => start? (token :: scan.tokens) c
  | .text done =>
    if c = '"' then some ⟨string (String.ofList done.reverse) :: scan.tokens, .between⟩
    else if c = '\\' then some ⟨scan.tokens, .escape done⟩
    else if c.toNat < 0x20 then none
    else some ⟨scan.tokens, .text (c :: done)⟩
  | .escape done =>
    if c = 'u' then some ⟨scan.tokens, .numeric done none 3 0⟩
    else (escaped? c).map fun meant => ⟨scan.tokens, .text (meant :: done)⟩
  | .numeric done high count value =>
    (hexDigit? c).bind fun digit =>
      match count with
      | 0 => (afterUnit? done (value * 16 + digit) high).map fun place => ⟨scan.tokens, place⟩
      | count + 1 => some ⟨scan.tokens, .numeric done high count (value * 16 + digit)⟩
  | .secondBackslash done high =>
    if c = '\\' then some ⟨scan.tokens, .secondLetter done high⟩ else none
  | .secondLetter done high =>
    if c = 'u' then some ⟨scan.tokens, .numeric done (some high) 3 0⟩ else none

def finish? (scan : Scan) : Option (List Token) :=
  match scan.place with
  | .between => some scan.tokens.reverse
  | .word letters => (ofWord? letters.reverse).map fun token => (token :: scan.tokens).reverse
  | _ => none

end Scan

def scan? (text : List Char) : Option (List Token) :=
  (text.foldlM Scan.step? ⟨[], .between⟩).bind Scan.finish?

end Token
end CredentialSigning.Json
