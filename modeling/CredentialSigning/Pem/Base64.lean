import CredentialSigning.Bytes

/-! Base64 with the standard alphabet. The reader wants padding, and zeros in the bits that padding
leaves over, so every octet string has exactly one written form. -/

namespace CredentialSigning.Pem.Base64

def padding : UInt8 := 61

def write6 (digit : Nat) : UInt8 :=
  if digit < 26 then UInt8.ofNat (digit + 65)
  else if digit < 52 then UInt8.ofNat (digit + 71)
  else if digit < 62 then UInt8.ofNat (digit - 4)
  else if digit = 62 then 43
  else 47

def read6? (character : UInt8) : Option Nat :=
  let value := character.toNat
  if 65 ≤ value ∧ value ≤ 90 then some (value - 65)
  else if 97 ≤ value ∧ value ≤ 122 then some (value - 71)
  else if 48 ≤ value ∧ value ≤ 57 then some (value + 4)
  else if value = 43 then some 62
  else if value = 47 then some 63
  else none

/-- Groups of three octets as four characters, and padding in the last group. -/
def write : Bytes → Bytes
  | [] => []
  | [a] => [write6 (a.toNat / 4), write6 (a.toNat % 4 * 16), padding, padding]
  | [a, b] =>
    [write6 (a.toNat / 4), write6 (a.toNat % 4 * 16 + b.toNat / 16), write6 (b.toNat % 16 * 4),
      padding]
  | a :: b :: c :: rest =>
    write6 (a.toNat / 4) :: write6 (a.toNat % 4 * 16 + b.toNat / 16) ::
      write6 (b.toNat % 16 * 4 + c.toNat / 64) :: write6 (c.toNat % 64) :: write rest

/-- The octets of a last group, whose third or fourth character may be padding. -/
def readLast? (w x : Nat) (third fourth : UInt8) : Option Bytes :=
  if third = padding then
    if fourth = padding ∧ x % 16 = 0 then some [UInt8.ofNat (w * 4 + x / 16)] else none
  else do
    let y ← read6? third
    if fourth = padding then
      if y % 4 = 0 then some [UInt8.ofNat (w * 4 + x / 16), UInt8.ofNat (x % 16 * 16 + y / 4)]
      else none
    else do
      let z ← read6? fourth
      some [UInt8.ofNat (w * 4 + x / 16), UInt8.ofNat (x % 16 * 16 + y / 4),
        UInt8.ofNat (y % 4 * 64 + z)]

def read? : Bytes → Option Bytes
  | [] => some []
  | [a, b, c, d] => do readLast? (← read6? a) (← read6? b) c d
  | a :: b :: c :: d :: rest => do
    let w ← read6? a
    let x ← read6? b
    let y ← read6? c
    let z ← read6? d
    let octets ← read? rest
    some (UInt8.ofNat (w * 4 + x / 16) :: UInt8.ofNat (x % 16 * 16 + y / 4) ::
      UInt8.ofNat (y % 4 * 64 + z) :: octets)
  | _ => none

end CredentialSigning.Pem.Base64
