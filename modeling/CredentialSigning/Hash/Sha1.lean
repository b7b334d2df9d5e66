import CredentialSigning.Hash.Word

/-! SHA-1, which archives use for their integrity check and for deriving keys from a password. The
digest is 20 octets long. -/

namespace CredentialSigning.Hash

namespace Sha1
open Word

/-- The five chaining words. -/
structure Chain where
  a : UInt32
  b : UInt32
  c : UInt32
  d : UInt32
  e : UInt32
  deriving DecidableEq

namespace Chain

def start : Chain :=
  ⟨0x67452301, 0xefcdab89, 0x98badcfe, 0x10325476, 0xc3d2e1f0⟩

def add (x y : Chain) : Chain :=
  ⟨x.a + y.a, x.b + y.b, x.c + y.c, x.d + y.d, x.e + y.e⟩

def words (x : Chain) : List UInt32 :=
  [x.a, x.b, x.c, x.d, x.e]

end Chain

/-- Appends `count` schedule words, each from the words 3, 8, 14 and 16 places before it. -/
def extend : Nat → Array UInt32 → Array UInt32
  | 0, words => words
  | count + 1, words =>
    let back (places : Nat) := words.getD (words.size - places) 0
    extend count (words.push (rotateLeft32 (back 3 ^^^ back 8 ^^^ back 14 ^^^ back 16) 1))

def schedule (block : Bytes) : List UInt32 :=
  (extend 64 (read32 block).toArray).toList

/-- One round; the mixing function and the constant change every twenty rounds. -/
def round (x : Chain) (stage : Nat) (word : UInt32) : Chain :=
  let (mixed, constant) : UInt32 × UInt32 := match stage with
    | 0 => ((x.b &&& x.c) ||| (~~~x.b &&& x.d), 0x5a827999)
    | 1 => (x.b ^^^ x.c ^^^ x.d, 0x6ed9eba1)
    | 2 => ((x.b &&& x.c) ||| (x.b &&& x.d) ||| (x.c &&& x.d), 0x8f1bbcdc)
    | _ => (x.b ^^^ x.c ^^^ x.d, 0xca62c1d6)
  ⟨rotateLeft32 x.a 5 + mixed + x.e + constant + word, x.a, rotateLeft32 x.b 30, x.c, x.d⟩

def stages : List Nat :=
  [0, 1, 2, 3].flatMap (List.replicate 20)

def compress (chain : Chain) (block : Bytes) : Chain :=
  chain.add ((stages.zip (schedule block)).foldl
    (fun state (stage, word) => round state stage word) chain)

def digest (message : Bytes) : Bytes :=
  (((pad 64 8 message).blocks 64).foldl compress Chain.start).words.flatMap write32

end Sha1

namespace Hmac

def sha1 : Bytes → Bytes → Bytes :=
  hmac Sha1.digest 64

end Hmac
end CredentialSigning.Hash
