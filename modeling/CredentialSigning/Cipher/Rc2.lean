import CredentialSigning.Bytes

/-! The cipher RC2 with a key of 40 bits: four 16-bit words that are mixed with 64 words of the
expanded key, and mashed twice on the way. -/

namespace CredentialSigning.Cipher.Rc2

def scatter : Array UInt8 :=
  #[0xd9, 0x78, 0xf9, 0xc4, 0x19, 0xdd, 0xb5, 0xed, 0x28, 0xe9, 0xfd, 0x79, 0x4a, 0xa0, 0xd8, 0x9d,
    0xc6, 0x7e, 0x37, 0x83, 0x2b, 0x76, 0x53, 0x8e, 0x62, 0x4c, 0x64, 0x88, 0x44, 0x8b, 0xfb, 0xa2,
    0x17, 0x9a, 0x59, 0xf5, 0x87, 0xb3, 0x4f, 0x13, 0x61, 0x45, 0x6d, 0x8d, 0x09, 0x81, 0x7d, 0x32,
    0xbd, 0x8f, 0x40, 0xeb, 0x86, 0xb7, 0x7b, 0x0b, 0xf0, 0x95, 0x21, 0x22, 0x5c, 0x6b, 0x4e, 0x82,
    0x54, 0xd6, 0x65, 0x93, 0xce, 0x60, 0xb2, 0x1c, 0x73, 0x56, 0xc0, 0x14, 0xa7, 0x8c, 0xf1, 0xdc,
    0x12, 0x75, 0xca, 0x1f, 0x3b, 0xbe, 0xe4, 0xd1, 0x42, 0x3d, 0xd4, 0x30, 0xa3, 0x3c, 0xb6, 0x26,
    0x6f, 0xbf, 0x0e, 0xda, 0x46, 0x69, 0x07, 0x57, 0x27, 0xf2, 0x1d, 0x9b, 0xbc, 0x94, 0x43, 0x03,
    0xf8, 0x11, 0xc7, 0xf6, 0x90, 0xef, 0x3e, 0xe7, 0x06, 0xc3, 0xd5, 0x2f, 0xc8, 0x66, 0x1e, 0xd7,
    0x08, 0xe8, 0xea, 0xde, 0x80, 0x52, 0xee, 0xf7, 0x84, 0xaa, 0x72, 0xac, 0x35, 0x4d, 0x6a, 0x2a,
    0x96, 0x1a, 0xd2, 0x71, 0x5a, 0x15, 0x49, 0x74, 0x4b, 0x9f, 0xd0, 0x5e, 0x04, 0x18, 0xa4, 0xec,
    0xc2, 0xe0, 0x41, 0x6e, 0x0f, 0x51, 0xcb, 0xcc, 0x24, 0x91, 0xaf, 0x50, 0xa1, 0xf4, 0x70, 0x39,
    0x99, 0x7c, 0x3a, 0x85, 0x23, 0xb8, 0xb4, 0x7a, 0xfc, 0x02, 0x36, 0x5b, 0x25, 0x55, 0x97, 0x31,
    0x2d, 0x5d, 0xfa, 0x98, 0xe3, 0x8a, 0x92, 0xae, 0x05, 0xdf, 0x29, 0x10, 0x67, 0x6c, 0xba, 0xc9,
    0xd3, 0x00, 0xe6, 0xcf, 0xe1, 0x9e, 0xa8, 0x2c, 0x63, 0x16, 0x01, 0x3f, 0x58, 0xe2, 0x89, 0xa9,
    0x0d, 0x38, 0x34, 0x1b, 0xab, 0x33, 0xff, 0xb0, 0xbb, 0x48, 0x0c, 0x5f, 0xb9, 0xb1, 0xcd, 0x2e,
    0xc5, 0xf3, 0xdb, 0x47, 0xe5, 0xa5, 0x9c, 0x77, 0x0a, 0xa6, 0x20, 0x68, 0xfe, 0x7f, 0xc1, 0xad]

def scattered (octet : UInt8) : UInt8 :=
  scatter.getD octet.toNat 0

/-- Appends octets, each from the last one and the one as many places back as the key is long. -/
def lengthen (size : Nat) : Nat → Array UInt8 → Array UInt8
  | 0, octets => octets
  | count + 1, octets =>
    lengthen size count (octets.push (scattered
      (octets.getD (octets.size - 1) 0 + octets.getD (octets.size - size) 0)))

/-- Recomputes the octets before a place from the back, each from the one after it and the one as
many places on as the key is long. -/
def condense (size : Nat) : Nat → Array UInt8 → Array UInt8
  | 0, octets => octets
  | place + 1, octets =>
    condense size place (octets.setIfInBounds place (scattered
      (octets.getD (place + 1) 0 ^^^ octets.getD (place + size) 0)))

/-- The 64 key words; the effective length of the key is all of it. -/
def expand (key : Bytes) : Array UInt16 :=
  let size := key.length
  let long := lengthen size (128 - size) key.toArray
  let marked := long.setIfInBounds (128 - size) (scattered (long.getD (128 - size) 0))
  let octets := condense size (128 - size) marked
  (Array.range 64).map fun index =>
    (octets.getD (2 * index) 0).toUInt16 ||| (octets.getD (2 * index + 1) 0).toUInt16 <<< 8

structure Words where
  r0 : UInt16
  r1 : UInt16
  r2 : UInt16
  r3 : UInt16
  deriving DecidableEq

namespace Words

/-- Words are written least significant octet first. -/
def ofBlock (block : Bytes) : Words :=
  let word (index : Nat) : UInt16 :=
    (block.getD index 0).toUInt16 ||| (block.getD (index + 1) 0).toUInt16 <<< 8
  ⟨word 0, word 2, word 4, word 6⟩

def toBlock (words : Words) : Bytes :=
  [words.r0, words.r1, words.r2, words.r3].flatMap fun (word : UInt16) =>
    [word.toUInt8, (word >>> 8).toUInt8]

end Words

def rotateRight (word count : UInt16) : UInt16 :=
  word >>> count ||| word <<< (16 - count)

/-- One word is rotated back and loses a key word and a choice among the other three words. -/
def unmixWord (count word key before second third : UInt16) : UInt16 :=
  rotateRight word count - key - (before &&& second) - (~~~before &&& third)

/-- Undoes one mixing round with the four key words from a place. -/
def unmix (keys : Array UInt16) (place : Nat) (words : Words) : Words :=
  let key (offset : Nat) := keys.getD (place + offset) 0
  let r3 := unmixWord 5 words.r3 (key 3) words.r2 words.r1 words.r0
  let r2 := unmixWord 3 words.r2 (key 2) words.r1 words.r0 r3
  let r1 := unmixWord 2 words.r1 (key 1) words.r0 r3 r2
  let r0 := unmixWord 1 words.r0 (key 0) r3 r2 r1
  ⟨r0, r1, r2, r3⟩

def unmash (keys : Array UInt16) (words : Words) : Words :=
  let key (word : UInt16) := keys.getD (word &&& 63).toNat 0
  let r3 := words.r3 - key words.r2
  let r2 := words.r2 - key words.r1
  let r1 := words.r1 - key words.r0
  let r0 := words.r0 - key r3
  ⟨r0, r1, r2, r3⟩

def unmixAll (keys : Array UInt16) (places : List Nat) (words : Words) : Words :=
  places.foldl (fun words place => unmix keys place words) words

def decrypt (key : Bytes) : Bytes → Bytes :=
  let keys := expand key
  fun block =>
    let words := unmixAll keys [60, 56, 52, 48, 44] (Words.ofBlock block)
    let words := unmixAll keys [40, 36, 32, 28, 24, 20] (unmash keys words)
    (unmixAll keys [16, 12, 8, 4, 0] (unmash keys words)).toBlock

end CredentialSigning.Cipher.Rc2
