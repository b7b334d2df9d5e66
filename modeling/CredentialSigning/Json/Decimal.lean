/-! Numbers as JSON writes them: a signed significand of 64 bits and a power of ten. Digits that do
not fit are dropped, and the number has to be within the range of a double. -/

namespace CredentialSigning.Json

structure Decimal where
  significand : Int
  exponent : Int
  deriving DecidableEq, Repr

namespace Decimal

def digitValue (digit : Char) : Nat :=
  digit.toNat - '0'.toNat

def digits (text : List Char) : Nat :=
  text.foldl (fun value digit => value * 10 + digitValue digit) 0

/-- A number followed by as many digits as 64 bits hold, and the count of these digits. -/
def extend (value : Nat) : List Char → Nat × Nat
  | [] => (value, 0)
  | digit :: rest =>
    let longer := value * 10 + digitValue digit
    if longer < 1 <<< 64 then
      let (value, count) := extend longer rest
      (value, count + 1)
    else (value, 0)

/-- The number with the given digits before and after the point and a power of ten. A digit that is
dropped before the point still counts as a place; one after the point leaves no trace. -/
def ofParts (whole fraction : List Char) (power : Int) : Decimal :=
  let (value, kept) := extend 0 whole
  let (value, places) := extend value fraction
  ⟨value, (whole.length : Int) - kept - places + power⟩

/-- An exponent after its `e`: an optional sign and at least one digit. -/
def readExponent? : List Char → Option Int
  | '-' :: text => if text.all Char.isDigit ∧ text ≠ [] then some (-(digits text : Int)) else none
  | '+' :: text => if text.all Char.isDigit ∧ text ≠ [] then some (digits text) else none
  | text => if text.all Char.isDigit ∧ text ≠ [] then some (digits text) else none

/-- What follows the digits before the point: nothing, a fraction, an exponent, or both. -/
def readTail? (whole : List Char) : List Char → Option Decimal
  | [] => some (ofParts whole [] 0)
  | '.' :: text =>
    let fraction := text.takeWhile Char.isDigit
    if fraction = [] then none
    else match text.dropWhile Char.isDigit with
      | [] => some (ofParts whole fraction 0)
      | mark :: power =>
        if mark = 'e' ∨ mark = 'E' then (readExponent? power).map (ofParts whole fraction)
        else none
  | mark :: power =>
    if mark = 'e' ∨ mark = 'E' then (readExponent? power).map (ofParts whole []) else none

/-- A number without sign. A leading zero stands alone before the point. -/
def readUnsigned? (text : List Char) : Option Decimal :=
  let whole := text.takeWhile Char.isDigit
  if whole = [] ∨ (whole.head? = some '0' ∧ whole.length > 1) then none
  else readTail? whole (text.dropWhile Char.isDigit)

def read? : List Char → Option Decimal
  | '-' :: text => (readUnsigned? text).map fun value => ⟨-value.significand, value.exponent⟩
  | text => readUnsigned? text

/-- The nearest number with 53 binary digits; halfway the one whose last digit is even. -/
def nearest (value : Nat) : Nat :=
  let unit := 1 <<< (value.log2 - 52)
  let quotient := value / unit
  let twice := 2 * (value % unit)
  if twice < unit ∨ (twice = unit ∧ quotient % 2 = 0) then quotient * unit
  else (quotient + 1) * unit

/-- Whether the product of significand and power of ten, both rounded before and the product rounded
after, stays below the largest power of two of a double. A division cannot leave the range. -/
def isFinite (value : Decimal) : Bool :=
  let size := value.significand.natAbs
  size = 0 || value.exponent < 0 || value.exponent ≤ 308 &&
    nearest size * nearest (Nat.pow 10 value.exponent.toNat) < 1 <<< 1024 - 1 <<< 970

end Decimal
end CredentialSigning.Json
