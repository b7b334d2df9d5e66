import CredentialSigning.Bytes

/-! The two forms of a time in a certificate: a year of two or four characters, then month, day,
hour, minute and second in two characters each, and the letter Z. It has to be a real date. -/

namespace CredentialSigning.Certificate.Time

/-- A number in decimal digits, at least one of them. -/
def digits? (octets : Bytes) : Option Nat :=
  if octets ≠ [] ∧ octets.all fun octet => 0x30 ≤ octet && octet ≤ 0x39 then
    some (octets.foldl (fun value octet => value * 10 + (octet.toNat - 0x30)) 0)
  else none

/-- A number; a plus sign may stand for its first digit. -/
def number? : Bytes → Option Nat
  | 0x2b :: octets => digits? octets
  | octets => digits? octets

/-- A year; either sign may stand for its first digit. -/
def year? : Bytes → Option Int
  | 0x2d :: octets => (digits? octets).map fun value => -(value : Int)
  | octets => (number? octets).map Int.ofNat

/-- Leap years of the Gregorian calendar, which is continued to all years before it. -/
def isLeapYear (year : Int) : Bool :=
  year % 4 = 0 && (year % 100 ≠ 0 || year % 400 = 0)

def daysIn (year : Int) (month : Nat) : Nat :=
  if month = 2 then (if isLeapYear year then 29 else 28)
  else if month = 4 ∨ month = 6 ∨ month = 9 ∨ month = 11 then 30
  else 31

/-- The month, day, hour, minute and second of a year, followed by Z. -/
def isRest (year : Int) (octets : Bytes) : Bool :=
  octets.length = 11 && octets.getLast? = some 0x5a &&
    match (Bytes.blocks 2 (octets.take 10)).mapM number? with
    | some [month, day, hour, minute, second] =>
      1 ≤ month && month ≤ 12 && 1 ≤ day && day ≤ daysIn year month &&
        hour < 24 && minute < 60 && second < 60
    | _ => false

/-- A year of two characters; from 50 on it lies in the last century. -/
def isShort (octets : Bytes) : Bool :=
  match year? (octets.take 2) with
  | some year => isRest (if 50 ≤ year then 1900 + year else 2000 + year) (octets.drop 2)
  | none => false

def isLong (octets : Bytes) : Bool :=
  match year? (octets.take 4) with
  | some year => isRest year (octets.drop 4)
  | none => false

end CredentialSigning.Certificate.Time
