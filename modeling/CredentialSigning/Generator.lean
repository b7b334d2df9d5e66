import CredentialSigning.Hash.Sha256

/-! A deterministic source of random octets: the seed itself, then the SHA-256 digests of the seed
followed by a four-octet counter. A generator is a seed and a position in that stream. -/

namespace CredentialSigning

structure Generator where
  seed : Bytes
  position : Nat
  deriving DecidableEq, Repr

namespace Generator

def start (seed : Bytes) : Generator :=
  ⟨seed, 0⟩

/-- The digest that counts as the given piece of 32 octets after the seed. -/
def piece (generator : Generator) (index : Nat) : Bytes :=
  Hash.Sha256.digest (generator.seed ++ Bytes.ofNat 4 index)

/-- Octets `start` to `start + count` of the stream after the seed. -/
def derived (generator : Generator) (start count : Nat) : Bytes :=
  let first := start / 32
  let pieces := (List.range ((start % 32 + count + 31) / 32)).map (first + ·)
  ((pieces.flatMap generator.piece).drop (start % 32)).take count

/-- The next octets, and the generator after them. -/
def next (generator : Generator) (count : Nat) : Bytes × Generator :=
  let seeded := (generator.seed.drop generator.position).take count
  let octets := seeded ++ generator.derived
    (generator.position + seeded.length - generator.seed.length) (count - seeded.length)
  (octets, { generator with position := generator.position + count })

/-- What the first of the next blocks of `width` octets that can be read is read as. Blocks before it
are lost. -/
def firstOf? {α : Type} (read : Bytes → Option α) (width : Nat) :
    Nat → Generator → Option α × Generator
  | 0, generator => (none, generator)
  | tries + 1, generator =>
    let (octets, generator) := generator.next width
    match read octets with
    | some found => (some found, generator)
    | none => firstOf? read width tries generator

/-- The number that octets denote, if it is below a bound. -/
def below? (bound : Nat) (octets : Bytes) : Option Nat :=
  if octets.toNat < bound then some octets.toNat else none

def firstBelow? (bound width : Nat) : Nat → Generator → Option Nat × Generator :=
  firstOf? (below? bound) width

/-- After the seed the stream repeats every 2³² pieces, so a block that does not occur among this
many does not occur at all. -/
def period (generator : Generator) : Nat :=
  generator.seed.length + 1 <<< 37

end Generator
end CredentialSigning
