import CredentialSigning.Der.Element

/-! Which identifiers and lengths keys, certificates and archives admit. All lengths are definite. -/

namespace CredentialSigning.Der

/-- A length in one octet below 0x80, or in a number of octets that the first one counts and that
must be acceptable for the value. -/
def definiteLength? (acceptable : Nat → Nat → Bool) : Bytes → Option (Nat × Bytes)
  | [] => none
  | first :: rest =>
    if first < 0x80 then some (first.toNat, rest)
    else
      let count := first.toNat - 0x80
      let value := Bytes.toNat (rest.take count)
      if count ≤ rest.length ∧ acceptable count value then some (value, rest.drop count) else none

/-- The fewest octets that hold the value, at most four, for a value below a limit. -/
def shortestLength? (limit : Nat) : Bytes → Option (Nat × Bytes) :=
  definiteLength? fun count value =>
    1 ≤ count && count ≤ 4 && 0x80 ≤ value && 1 <<< (8 * (count - 1)) ≤ value && value < limit

/-- Any number of octets, leading zeros included, for a value that needs the long form. -/
def longLength? : Bytes → Option (Nat × Bytes) :=
  definiteLength? fun count value => count ≤ 126 && 0x80 ≤ value

/-- Identifiers of one octet: the universal types that keys may use, and the other three classes
with numbers up to 30. -/
def isKeyTag (octet : UInt8) : Bool :=
  octet ∈ ([0x01, 0x02, 0x03, 0x04, 0x05, 0x06, 0x09, 0x0a, 0x0c, 0x12, 0x13, 0x14, 0x15, 0x16,
    0x17, 0x18, 0x1a, 0x1e, 0x30, 0x31] : Bytes) || (0x40 ≤ octet && octet &&& 0x1f ≠ 0x1f)

/-- Octets up to the first one below 0x80, which is included, at most `limit` of them. -/
def base128? : Nat → Bytes → Option (Bytes × Bytes)
  | 0, _ => none
  | _, [] => none
  | limit + 1, octet :: rest =>
    if octet < 0x80 then some ([octet], rest)
    else (base128? limit rest).map fun (octets, rest) => (octet :: octets, rest)

/-- Identifiers of one octet or, when its low five bits are ones, of up to `limit` more octets. -/
def longTag? (limit : Bytes → Nat) : Bytes → Option (Bytes × Bytes)
  | [] => none
  | first :: rest =>
    if first &&& 0x1f = 0x1f then
      (base128? (limit rest) rest).map fun (octets, rest) => (first :: octets, rest)
    else some ([first], rest)

/-- No value in a key or an ECDSA signature is as long as this. -/
def keyLimit : Nat := 1 <<< 28

namespace Rules

/-- Keys and ECDSA signatures. -/
def key : Rules where
  tag?
    | [] => none
    | octet :: rest => if isKeyTag octet then some ([octet], rest) else none
  length? := shortestLength? keyLimit

/-- Certificates. The identifier 0 stands for no value: it marks the end of contents. -/
def certificate : Rules where
  tag? octets := (longTag? (fun _ => 3) octets).filter (·.1 ≠ [0])
  length? := shortestLength? (1 <<< 32)

/-- The number in the later octets of a long identifier. -/
def tagNumber (octets : Bytes) : Nat :=
  octets.foldl (fun value octet => value * 128 + octet.toNat % 128) 0

/-- Archives. The number 0 stands for no value, constructed or not; a long identifier is a number of
31 or more that fits 64 bits. -/
def archive : Rules where
  tag? octets := (longTag? List.length octets).filter fun (tag, _) =>
    if tag.length = 1 then tag ≠ [0x00] && tag ≠ [0x20]
    else 31 ≤ tagNumber (tag.drop 1) && tagNumber (tag.drop 1) < 1 <<< 64
  length? := longLength?

end Rules
end CredentialSigning.Der
