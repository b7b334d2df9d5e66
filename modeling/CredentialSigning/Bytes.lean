/-! Octet strings, the natural numbers they denote, and their division into pieces. A number is
written most significant octet first, either in a fixed width or in the fewest octets. -/

namespace CredentialSigning

abbrev Bytes := List UInt8

namespace Bytes

/-- The number an octet string denotes, most significant octet first. -/
def toNat (octets : Bytes) : Nat :=
  octets.foldl (fun value octet => value * 256 + octet.toNat) 0

/-- The low `width` octets of a number. -/
def ofNat : Nat → Nat → Bytes
  | 0, _ => []
  | width + 1, value => ofNat width (value / 256) ++ [UInt8.ofNat value]

/-- The fewest octets that hold a number; zero takes one. -/
def minimal (value : Nat) : Bytes :=
  ofNat (value.log2 / 8 + 1) value

@[simp] theorem length_ofNat (width value : Nat) : (ofNat width value).length = width := by
  induction width generalizing value with
  | zero => rfl
  | succ width hypothesis => simp [ofNat, hypothesis]

@[simp] theorem toNat_nil : toNat [] = 0 := rfl

@[simp] theorem toNat_concat (octets : Bytes) (octet : UInt8) :
    toNat (octets ++ [octet]) = toNat octets * 256 + octet.toNat := by
  simp [toNat]

/-- The first `count` pieces of `size` octets. -/
def pieces (size : Nat) : Nat → Bytes → List Bytes
  | 0, _ => []
  | count + 1, octets => octets.take size :: pieces size count (octets.drop size)

def blocks (size : Nat) (octets : Bytes) : List Bytes :=
  pieces size (octets.length / size) octets

/-- Octet by octet exclusive or, as long as the shorter argument. -/
def xor (left right : Bytes) : Bytes :=
  List.zipWith (· ^^^ ·) left right

/-- The octet string again and again, cut after `count` octets. -/
def cycle (octets : Bytes) (count : Nat) : Bytes :=
  if octets.isEmpty then []
  else (List.replicate (count / octets.length + 1) octets).flatten.take count

end Bytes
end CredentialSigning
