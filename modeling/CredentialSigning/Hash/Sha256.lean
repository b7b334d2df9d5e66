import CredentialSigning.Hash.Word

/-! SHA-256: the message schedule and the compression of eight 32-bit words, block by block. The
digest is 32 octets long. -/

namespace CredentialSigning.Hash

namespace Sha256
open Word

/-- The eight chaining words. -/
structure Chain where
  a : UInt32
  b : UInt32
  c : UInt32
  d : UInt32
  e : UInt32
  f : UInt32
  g : UInt32
  h : UInt32
  deriving DecidableEq

namespace Chain

def start : Chain :=
  ⟨0x6a09e667, 0xbb67ae85, 0x3c6ef372, 0xa54ff53a, 0x510e527f, 0x9b05688c, 0x1f83d9ab, 0x5be0cd19⟩

def add (x y : Chain) : Chain :=
  ⟨x.a + y.a, x.b + y.b, x.c + y.c, x.d + y.d, x.e + y.e, x.f + y.f, x.g + y.g, x.h + y.h⟩

def words (x : Chain) : List UInt32 :=
  [x.a, x.b, x.c, x.d, x.e, x.f, x.g, x.h]

end Chain

def roundConstants : List UInt32 :=
  [0x428a2f98, 0x71374491, 0xb5c0fbcf, 0xe9b5dba5, 0x3956c25b, 0x59f111f1, 0x923f82a4, 0xab1c5ed5,
   0xd807aa98, 0x12835b01, 0x243185be, 0x550c7dc3, 0x72be5d74, 0x80deb1fe, 0x9bdc06a7, 0xc19bf174,
   0xe49b69c1, 0xefbe4786, 0x0fc19dc6, 0x240ca1cc, 0x2de92c6f, 0x4a7484aa, 0x5cb0a9dc, 0x76f988da,
   0x983e5152, 0xa831c66d, 0xb00327c8, 0xbf597fc7, 0xc6e00bf3, 0xd5a79147, 0x06ca6351, 0x14292967,
   0x27b70a85, 0x2e1b2138, 0x4d2c6dfc, 0x53380d13, 0x650a7354, 0x766a0abb, 0x81c2c92e, 0x92722c85,
   0xa2bfe8a1, 0xa81a664b, 0xc24b8b70, 0xc76c51a3, 0xd192e819, 0xd6990624, 0xf40e3585, 0x106aa070,
   0x19a4c116, 0x1e376c08, 0x2748774c, 0x34b0bcb5, 0x391c0cb3, 0x4ed8aa4a, 0x5b9cca4f, 0x682e6ff3,
   0x748f82ee, 0x78a5636f, 0x84c87814, 0x8cc70208, 0x90befffa, 0xa4506ceb, 0xbef9a3f7, 0xc67178f2]

/-- Appends `count` schedule words, each from the words 2, 7, 15 and 16 places before it. -/
def extend : Nat → Array UInt32 → Array UInt32
  | 0, words => words
  | count + 1, words =>
    let back (places : Nat) := words.getD (words.size - places) 0
    let w2 := back 2
    let w15 := back 15
    let low := rotateRight32 w15 7 ^^^ rotateRight32 w15 18 ^^^ (w15 >>> 3)
    let high := rotateRight32 w2 17 ^^^ rotateRight32 w2 19 ^^^ (w2 >>> 10)
    extend count (words.push (high + back 7 + low + back 16))

def schedule (block : Bytes) : List UInt32 :=
  (extend 48 (read32 block).toArray).toList

def round (x : Chain) (constant word : UInt32) : Chain :=
  let choice := (x.e &&& x.f) ^^^ (~~~x.e &&& x.g)
  let majority := (x.a &&& x.b) ^^^ (x.a &&& x.c) ^^^ (x.b &&& x.c)
  let sumE := rotateRight32 x.e 6 ^^^ rotateRight32 x.e 11 ^^^ rotateRight32 x.e 25
  let sumA := rotateRight32 x.a 2 ^^^ rotateRight32 x.a 13 ^^^ rotateRight32 x.a 22
  let fresh := x.h + sumE + choice + constant + word
  ⟨fresh + sumA + majority, x.a, x.b, x.c, x.d + fresh, x.e, x.f, x.g⟩

def compress (chain : Chain) (block : Bytes) : Chain :=
  chain.add ((roundConstants.zip (schedule block)).foldl
    (fun state (constant, word) => round state constant word) chain)

def digest (message : Bytes) : Bytes :=
  (((pad 64 8 message).blocks 64).foldl compress Chain.start).words.flatMap write32

@[simp] theorem length_digest (message : Bytes) : (digest message).length = 32 := rfl

end Sha256

namespace Hmac

def sha256 : Bytes → Bytes → Bytes :=
  hmac Sha256.digest 64

end Hmac
end CredentialSigning.Hash
