import CredentialSigning.Bytes

/-! Text in octet strings: ASCII literals, UTF-8, and the characters that count as white space. -/

namespace CredentialSigning.Text

def ascii (text : String) : Bytes :=
  text.toList.map fun c => UInt8.ofNat c.toNat

def utf8 (text : String) : Bytes :=
  text.toUTF8.data.toList

def ofUtf8? (octets : Bytes) : Option String :=
  String.fromUTF8? ⟨octets.toArray⟩

/-- The characters with the property White_Space. -/
def isWhiteSpace (c : Char) : Bool :=
  let code := c.toNat
  (0x09 ≤ code && code ≤ 0x0d) || code == 0x20 || code == 0x85 || code == 0xa0 || code == 0x1680 ||
    (0x2000 ≤ code && code ≤ 0x200a) || code == 0x2028 || code == 0x2029 || code == 0x202f ||
    code == 0x205f || code == 0x3000

end CredentialSigning.Text
