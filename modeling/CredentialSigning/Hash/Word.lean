import CredentialSigning.Bytes

/-! What the hash functions have in common: big-endian words of 32 and 64 bits in octet strings, the
padding that fills a message up to whole blocks with a one bit, zeros, and the length in bits at the end
of the last block, and HMAC, which makes a keyed function of any of them. -/

namespace CredentialSigning.Hash

namespace Word

def rotateRight32 (word count : UInt32) : UInt32 :=
  word >>> count ||| word <<< (32 - count)

def rotateLeft32 (word count : UInt32) : UInt32 :=
  word <<< count ||| word >>> (32 - count)

def rotateRight64 (word count : UInt64) : UInt64 :=
  word >>> count ||| word <<< (64 - count)

/-- Groups of four octets as words. -/
def read32 : Bytes → List UInt32
  | a :: b :: c :: d :: rest =>
    (a.toUInt32 <<< 24 ||| b.toUInt32 <<< 16 ||| c.toUInt32 <<< 8 ||| d.toUInt32) :: read32 rest
  | _ => []

def write32 (word : UInt32) : Bytes :=
  [(word >>> 24).toUInt8, (word >>> 16).toUInt8, (word >>> 8).toUInt8, word.toUInt8]

def read64 : Bytes → List UInt64
  | a :: b :: c :: d :: e :: f :: g :: h :: rest =>
    (a.toUInt64 <<< 56 ||| b.toUInt64 <<< 48 ||| c.toUInt64 <<< 40 ||| d.toUInt64 <<< 32 |||
      e.toUInt64 <<< 24 ||| f.toUInt64 <<< 16 ||| g.toUInt64 <<< 8 ||| h.toUInt64) :: read64 rest
  | _ => []

def write64 (word : UInt64) : Bytes :=
  [(word >>> 56).toUInt8, (word >>> 48).toUInt8, (word >>> 40).toUInt8, (word >>> 32).toUInt8,
   (word >>> 24).toUInt8, (word >>> 16).toUInt8, (word >>> 8).toUInt8, word.toUInt8]

/-- Padding to blocks of `block` octets whose last `width` octets hold the length in bits. -/
def pad (block width : Nat) (message : Bytes) : Bytes :=
  message ++ 0x80 :: List.replicate ((2 * block - 1 - width - message.length % block) % block) 0 ++
    Bytes.ofNat width (message.length * 8)

end Word

namespace Hmac

/-- The key filled with zeros to one block; a longer key is hashed first. -/
def blockKey (hash : Bytes → Bytes) (block : Nat) (key : Bytes) : Bytes :=
  let short := if key.length > block then hash key else key
  short ++ List.replicate (block - short.length) 0

def hmac (hash : Bytes → Bytes) (block : Nat) (key message : Bytes) : Bytes :=
  let full := blockKey hash block key
  hash (full.map (· ^^^ 0x5c) ++ hash (full.map (· ^^^ 0x36) ++ message))

end Hmac
end CredentialSigning.Hash
