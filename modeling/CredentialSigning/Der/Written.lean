import CredentialSigning.Bytes

/-! Writing encoded values: the shortest length, the shortest INTEGER, and the few composite values
that keys and signatures are exported as. -/

namespace CredentialSigning.Der

def writeLength (size : Nat) : Bytes :=
  if size < 0x80 then [UInt8.ofNat size]
  else
    let octets := Bytes.minimal size
    UInt8.ofNat (0x80 + octets.length) :: octets

def write (tag : UInt8) (content : Bytes) : Bytes :=
  tag :: writeLength content.length ++ content

/-- The content octets of a non-negative INTEGER; the highest bit is the sign. -/
def naturalOctets (value : Nat) : Bytes :=
  let octets := Bytes.minimal value
  if octets.headD 0 < 0x80 then octets else 0 :: octets

def writeNatural (value : Nat) : Bytes :=
  write 0x02 (naturalOctets value)

def writeSequence (parts : List Bytes) : Bytes :=
  write 0x30 parts.flatten

/-- A BIT STRING of whole octets. -/
def writeBitString (octets : Bytes) : Bytes :=
  write 0x03 (0 :: octets)

def writeNull : Bytes :=
  write 0x05 []

end CredentialSigning.Der
