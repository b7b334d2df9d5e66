import CredentialSigning.HashName
import CredentialSigning.Proofs.Verification.Bounds

/-! Hashing with every operation inside its bounds. The padding fills whole blocks, each block is as
long as its sixteen words, and the schedule looks back at most sixteen words from there on. -/

namespace CredentialSigning.Checked
open Hash

/-- The padding up to whole blocks, with the length in bits at its end. -/
def pad (block width : Nat) (message : Bytes) : Run Bytes := do
  let used ← remainder message.length block
  let room ← difference (2 * block - 1) width
  let free ← difference room used
  let zeros ← remainder free block
  .ok (message ++ 0x80 :: List.replicate zeros 0 ++ Bytes.ofNat width (message.length * 8))

theorem pad_eq {block width : Nat} (room : width < block) (message : Bytes) :
    pad block width message = .ok (Word.pad block width message) := by
  have positive : 0 < block := by omega
  have used := Nat.mod_lt message.length positive
  rw [pad, remainder_of_pos positive, ok_bind, difference_of_le (by omega), ok_bind,
    difference_of_le (by omega), ok_bind, remainder_of_pos positive, ok_bind]
  rfl

def pieces (size : Nat) : Nat → Bytes → Run (List Bytes)
  | 0, _ => .ok []
  | count + 1, octets => do
    let (piece, rest) ← split octets size
    let others ← pieces size count rest
    .ok (piece :: others)

theorem pieces_eq {size count : Nat} {octets : Bytes} (enough : size * count ≤ octets.length) :
    pieces size count octets = .ok (Bytes.pieces size count octets) := by
  induction count generalizing octets with
  | zero => rfl
  | succ count hypothesis =>
    rw [Nat.mul_succ] at enough
    have later : size * count ≤ (octets.drop size).length := by
      rw [List.length_drop]
      omega
    rw [pieces, split_of_le (by omega), ok_bind]
    simp only [hypothesis later, ok_bind]
    rfl

theorem length_of_mem_pieces {size count : Nat} {octets piece : Bytes}
    (enough : size * count ≤ octets.length) (member : piece ∈ Bytes.pieces size count octets) :
    piece.length = size := by
  induction count generalizing octets with
  | zero => cases member
  | succ count hypothesis =>
    rw [Nat.mul_succ] at enough
    rcases List.mem_cons.mp member with rfl | later
    · rw [List.length_take]
      omega
    · apply hypothesis _ later
      rw [List.length_drop]
      omega

/-- The word some places before the next one. -/
def back {Word : Type} (words : Array Word) (places : Nat) : Run Word := do
  let position ← difference words.size places
  match words[position]? with
  | some word => .ok word
  | none => .error .outOfBounds

theorem back_eq {Word : Type} {words : Array Word} {places : Nat} (positive : 0 < places)
    (bounded : places ≤ words.size) (fallback : Word) :
    back words places = .ok (words.getD (words.size - places) fallback) := by
  have inside : words.size - places < words.size := by omega
  rw [back, difference_of_le bounded, ok_bind, Array.getElem?_eq_getElem inside,
    Array.getD_eq_getD_getElem?, Array.getElem?_eq_getElem inside]
  rfl

/-- Appends words to a schedule, each mixed from the words 2, 7, 15 and 16 places before it. -/
def extend {Word : Type} (mix : Word → Word → Word → Word → Word) :
    Nat → Array Word → Run (Array Word)
  | 0, words => .ok words
  | count + 1, words => do
    let second ← back words 2
    let seventh ← back words 7
    let fifteenth ← back words 15
    let sixteenth ← back words 16
    extend mix count (words.push (mix second seventh fifteenth sixteenth))

theorem extend_eq {Word : Type} {mix : Word → Word → Word → Word → Word} (fallback : Word)
    {extended : Nat → Array Word → Array Word} (start : ∀ words, extended 0 words = words)
    (step : ∀ count words, extended (count + 1) words = extended count (words.push
      (mix (words.getD (words.size - 2) fallback) (words.getD (words.size - 7) fallback)
        (words.getD (words.size - 15) fallback) (words.getD (words.size - 16) fallback))))
    (count : Nat) {words : Array Word} (long : 16 ≤ words.size) :
    extend mix count words = .ok (extended count words) := by
  induction count generalizing words with
  | zero => rw [extend, start]
  | succ count hypothesis =>
    have longer : ∀ word, 16 ≤ (words.push word).size := fun word => by
      rw [Array.size_push]
      omega
    rw [extend, back_eq (by decide) (by omega) fallback, back_eq (by decide) (by omega) fallback,
      back_eq (by decide) (by omega) fallback, back_eq (by decide) long fallback]
    simp only [ok_bind, hypothesis (longer _), step]

def mix32 (second seventh fifteenth sixteenth : UInt32) : UInt32 :=
  let low := Word.rotateRight32 fifteenth 7 ^^^ Word.rotateRight32 fifteenth 18 ^^^ (fifteenth >>> 3)
  let high := Word.rotateRight32 second 17 ^^^ Word.rotateRight32 second 19 ^^^ (second >>> 10)
  high + seventh + low + sixteenth

def mix64 (second seventh fifteenth sixteenth : UInt64) : UInt64 :=
  let low := Word.rotateRight64 fifteenth 1 ^^^ Word.rotateRight64 fifteenth 8 ^^^ (fifteenth >>> 7)
  let high := Word.rotateRight64 second 19 ^^^ Word.rotateRight64 second 61 ^^^ (second >>> 6)
  high + seventh + low + sixteenth

theorem extend_mix32 (count : Nat) {words : Array UInt32} (long : 16 ≤ words.size) :
    extend mix32 count words = .ok (Sha256.extend count words) :=
  extend_eq 0 (fun _ => rfl) (fun _ _ => rfl) count long

theorem extend_mix64 (count : Nat) {words : Array UInt64} (long : 16 ≤ words.size) :
    extend mix64 count words = .ok (Sha512.extend count words) :=
  extend_eq 0 (fun _ => rfl) (fun _ _ => rfl) count long

theorem length_read32 (octets : Bytes) : (Word.read32 octets).length = octets.length / 4 := by
  fun_induction Word.read32 octets with
  | case1 a b c d rest hypothesis =>
    simp only [List.length_cons, hypothesis]
    omega
  | case2 octets short =>
    match octets with
    | [] | [_] | [_, _] | [_, _, _] => simp
    | a :: b :: c :: d :: rest => exact absurd rfl (short a b c d rest)

theorem length_read64 (octets : Bytes) : (Word.read64 octets).length = octets.length / 8 := by
  fun_induction Word.read64 octets with
  | case1 a b c d e f g h rest hypothesis =>
    simp only [List.length_cons, hypothesis]
    omega
  | case2 octets short =>
    match octets with
    | [] | [_] | [_, _] | [_, _, _] | [_, _, _, _] | [_, _, _, _, _] | [_, _, _, _, _, _]
    | [_, _, _, _, _, _, _] => simp
    | a :: b :: c :: d :: e :: f :: g :: h :: rest => exact absurd rfl (short a b c d e f g h rest)

def compress32 (chain : Sha256.Chain) (block : Bytes) : Run Sha256.Chain := do
  let words ← extend mix32 48 (Word.read32 block).toArray
  .ok (chain.add ((Sha256.roundConstants.zip words.toList).foldl
    (fun state (constant, word) => Sha256.round state constant word) chain))

def compress64 (chain : Sha512.Chain) (block : Bytes) : Run Sha512.Chain := do
  let words ← extend mix64 64 (Word.read64 block).toArray
  .ok (chain.add ((Sha512.roundConstants.zip words.toList).foldl
    (fun state (constant, word) => Sha512.round state constant word) chain))

theorem compress32_eq (chain : Sha256.Chain) {block : Bytes} (full : block.length = 64) :
    compress32 chain block = .ok (Sha256.compress chain block) := by
  have long : 16 ≤ (Word.read32 block).toArray.size := by
    rw [List.size_toArray, length_read32, full]
  rw [compress32, extend_mix32 48 long, ok_bind]
  rfl

theorem compress64_eq (chain : Sha512.Chain) {block : Bytes} (full : block.length = 128) :
    compress64 chain block = .ok (Sha512.compress chain block) := by
  have long : 16 ≤ (Word.read64 block).toArray.size := by
    rw [List.size_toArray, length_read64, full]
  rw [compress64, extend_mix64 64 long, ok_bind]
  rfl

/-- The words that the blocks of a padded message lead to. -/
def chained {Chain : Type} (compress : Chain → Bytes → Run Chain) (start : Chain)
    (size width : Nat) (message : Bytes) : Run Chain := do
  let padded ← pad size width message
  let blocks ← pieces size (padded.length / size) padded
  blocks.foldlM compress start

theorem foldlM_eq {Chain : Type} {compress : Chain → Bytes → Run Chain}
    {compressed : Chain → Bytes → Chain} {blocks : List Bytes}
    (each : ∀ chain, ∀ block ∈ blocks, compress chain block = .ok (compressed chain block))
    (start : Chain) : blocks.foldlM compress start = .ok (blocks.foldl compressed start) := by
  induction blocks generalizing start with
  | nil => rfl
  | cons block blocks hypothesis =>
    rw [List.foldlM_cons, each start block List.mem_cons_self, ok_bind, List.foldl_cons]
    exact hypothesis (fun chain other member => each chain other (List.mem_cons_of_mem block member)) _

theorem chained_eq {Chain : Type} {compress : Chain → Bytes → Run Chain}
    {compressed : Chain → Bytes → Chain} {size width : Nat} (room : width < size)
    (each : ∀ chain block, block.length = size → compress chain block = .ok (compressed chain block))
    (start : Chain) (message : Bytes) : chained compress start size width message =
      .ok (((Word.pad size width message).blocks size).foldl compressed start) := by
  have enough : size * ((Word.pad size width message).length / size) ≤
      (Word.pad size width message).length := Nat.mul_div_le _ _
  rw [chained, pad_eq room, ok_bind, pieces_eq enough, ok_bind]
  exact foldlM_eq (fun chain block member => each chain block (length_of_mem_pieces enough member)) start

def digest : HashName → Bytes → Run Bytes
  | .sha1, _ => .error .refused
  | .sha224, _ => .error .refused
  | .sha256, message => do
    let chain ← chained compress32 Sha256.Chain.start 64 8 message
    .ok (chain.words.flatMap Word.write32)
  | .sha384, message => do
    let chain ← chained compress64 Sha512.Chain.start384 128 16 message
    slice (chain.words.flatMap Word.write64) 0 48
  | .sha512, message => do
    let chain ← chained compress64 Sha512.Chain.start512 128 16 message
    .ok (chain.words.flatMap Word.write64)

theorem digest_eq (hash : HashName) (message : Bytes) :
    digest hash message = orRefuse (hash.digest? message) := by
  cases hash with
  | sha1 => rfl
  | sha224 => rfl
  | sha256 =>
    rw [digest, chained_eq (by decide) (fun chain _ full => compress32_eq chain full), ok_bind]
    rfl
  | sha384 =>
    rw [digest, chained_eq (by decide) (fun chain _ full => compress64_eq chain full), ok_bind]
    rfl
  | sha512 =>
    rw [digest, chained_eq (by decide) (fun chain _ full => compress64_eq chain full), ok_bind]
    rfl

end CredentialSigning.Checked
