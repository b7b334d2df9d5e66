import CredentialSigning.Proofs.Rsa.Signature
import CredentialSigning.Proofs.Verification.Bounds

/-! Verification under an RSA key with every operation inside its bounds. The padded digest is not
built up and compared: what the public exponent recovers is taken apart at positions that are counted
from its end, which a modulus may be too short for. -/

namespace CredentialSigning.Checked
open Der

/-- What stands before the digest in its encoding with the identifier of the hash function. -/
def digestHeader (identifier : Oid) (size : Nat) : Bytes :=
  let count := identifier.octets.length
  [0x30, UInt8.ofNat (count + 8 + size), 0x30, UInt8.ofNat (count + 4), 0x06, UInt8.ofNat count] ++
    identifier.octets ++ [0x05, 0x00, 0x04, UInt8.ofNat size]

theorem write_of_lt (tag : UInt8) {content : Bytes} (short : content.length < 0x80) :
    write tag content = tag :: UInt8.ofNat content.length :: content := by
  rw [write, writeLength, if_pos short]
  rfl

theorem digestInfo_eq {identifier : Oid} {digest : Bytes} (nine : identifier.octets.length = 9)
    (short : digest.length ≤ 64) :
    Rsa.digestInfo identifier digest = digestHeader identifier digest.length ++ digest := by
  have name : write 0x06 identifier.octets =
      0x06 :: UInt8.ofNat identifier.octets.length :: identifier.octets :=
    write_of_lt 0x06 (by omega)
  have null : writeNull = [0x05, 0x00] := rfl
  have value : write 0x04 digest = 0x04 :: UInt8.ofNat digest.length :: digest :=
    write_of_lt 0x04 (by omega)
  have algorithm : writeSequence [write 0x06 identifier.octets, writeNull] =
      0x30 :: UInt8.ofNat (identifier.octets.length + 4) :: 0x06 ::
        UInt8.ofNat identifier.octets.length :: (identifier.octets ++ [0x05, 0x00]) := by
    have length : [write 0x06 identifier.octets, writeNull].flatten.length =
        identifier.octets.length + 4 := by
      rw [name, null]
      simp
    rw [writeSequence, write_of_lt 0x30 (by omega), length, name, null]
    simp
  have length : [writeSequence [write 0x06 identifier.octets, writeNull],
      write 0x04 digest].flatten.length = identifier.octets.length + 8 + digest.length := by
    rw [algorithm, value]
    simp only [List.flatten_cons, List.flatten_nil, List.append_nil, List.length_append,
      List.length_cons, List.length_nil]
    omega
  rw [Rsa.digestInfo, writeSequence, write_of_lt 0x30 (by omega), length, algorithm, value, digestHeader]
  simp

/-- A number in a width, with zeros before its fewest octets. -/
def widened (width number : Nat) : Run Bytes := do
  let octets := Bytes.minimal number
  require (octets.length ≤ width)
  let zeros ← difference width octets.length
  .ok (List.replicate zeros 0 ++ octets)

theorem widened_eq {width number : Nat} (positive : 0 < width) (fits : number < 256 ^ width) :
    widened width number = .ok (Bytes.ofNat width number) := by
  have short := Bytes.length_minimal_le positive fits
  have length : (List.replicate (width - (Bytes.minimal number).length) 0 ++
      Bytes.minimal number).length = width := by
    rw [List.length_append, List.length_replicate]
    omega
  have same := Bytes.ofNat_toNat (List.replicate (width - (Bytes.minimal number).length) 0 ++
    Bytes.minimal number)
  rw [length, Bytes.toNat_zeros_append, Bytes.toNat_minimal] at same
  rw [widened, require_bind, if_pos short, difference_of_le short, ok_bind, same]

/-- Whether a digest stands padded in octets. -/
def findDigest (size : Nat) (header digest padded : Bytes) : Run Unit := do
  let length := header.length + digest.length
  require (length + 11 ≤ size)
  let first ← octet padded 0
  let second ← octet padded 1
  let digestStart ← difference size digest.length
  let digestFound ← slice padded digestStart size
  let headerStart ← difference size length
  let headerFound ← slice padded headerStart digestStart
  let fillerEnd ← difference headerStart 1
  let separator ← octet padded fillerEnd
  let fillerLength ← difference headerStart 3
  let filler := (padded.drop 2).take fillerLength
  require (first = 0 ∧ second = 1 ∧ digestFound = digest ∧ headerFound = header ∧
    separator = 0 ∧ filler.all (· == 0xff))

/-- The parts that the positions divide octets into, if there are enough of these. -/
theorem exists_parts {padded : Bytes} (headerLength digestLength : Nat)
    (room : headerLength + digestLength + 11 ≤ padded.length) :
    ∃ first second filler separator header digest,
      padded = first :: second :: (filler ++ separator :: (header ++ digest)) ∧
      filler.length + (headerLength + digestLength) + 3 = padded.length ∧
      header.length = headerLength ∧ digest.length = digestLength := by
  match padded with
  | [] | [_] => simp at room
  | first :: second :: rest =>
    simp only [List.length_cons] at room
    have enough : rest.drop (rest.length - (headerLength + digestLength) - 1) ≠ [] := by
      apply List.ne_nil_of_length_pos
      rw [List.length_drop]
      omega
    obtain ⟨separator, tail, split⟩ := List.exists_cons_of_ne_nil enough
    have length := congrArg List.length split
    rw [List.length_drop, List.length_cons] at length
    refine ⟨first, second, rest.take (rest.length - (headerLength + digestLength) - 1), separator,
      tail.take headerLength, tail.drop headerLength, ?_, ?_, ?_, ?_⟩
    · rw [List.take_append_drop, ← split, List.take_append_drop]
    · simp only [List.length_take, List.length_cons]
      omega
    · rw [List.length_take]
      omega
    · rw [List.length_drop]
      omega

/-- All positions are inside, and what stands there are the parts. -/
theorem findDigest_of_parts {header digest padded filler headerFound digestFound : Bytes}
    {first second separator : UInt8} (room : header.length + digest.length + 11 ≤ padded.length)
    (parts : padded = first :: second :: (filler ++ separator :: (headerFound ++ digestFound)))
    (total : filler.length + (header.length + digest.length) + 3 = padded.length)
    (headerLength : headerFound.length = header.length)
    (digestLength : digestFound.length = digest.length) :
    findDigest padded.length header digest padded =
      require (first = 0 ∧ second = 1 ∧ digestFound = digest ∧ headerFound = header ∧
        separator = 0 ∧ filler.all (· == 0xff)) := by
  have head : octet padded 0 = .ok first ∧ octet padded 1 = .ok second := by
    rw [parts]
    exact ⟨rfl, rfl⟩
  have digestSlice : slice padded (padded.length - digest.length) padded.length = .ok digestFound := by
    apply slice_of_eq_append (first :: second :: (filler ++ separator :: headerFound)) []
    · simp [parts]
    · simp only [List.length_cons, List.length_append]
      omega
    · omega
  have headerSlice : slice padded (padded.length - (header.length + digest.length))
      (padded.length - digest.length) = .ok headerFound := by
    apply slice_of_eq_append (first :: second :: (filler ++ [separator])) digestFound
    · simp [parts]
    · simp only [List.length_cons, List.length_append, List.length_nil]
      omega
    · omega
  have separatorOctet : octet padded (padded.length - (header.length + digest.length) - 1) =
      .ok separator := by
    apply octet_of_eq_append (first :: second :: filler) (headerFound ++ digestFound) parts
    simp only [List.length_cons]
    omega
  have fillerFound : (padded.drop 2).take (padded.length - (header.length + digest.length) - 3) =
      filler := by
    have length : padded.length - (header.length + digest.length) - 3 = filler.length := by omega
    rw [length, parts]
    exact List.take_left
  rw [findDigest, require_bind, if_pos room, head.1, head.2, ok_bind, ok_bind,
    difference_of_le (by omega), ok_bind, digestSlice, ok_bind, difference_of_le (by omega), ok_bind,
    headerSlice, ok_bind, difference_of_le (by omega), ok_bind, separatorOctet, ok_bind,
    difference_of_le (by omega), ok_bind, fillerFound]

theorem findDigest_eq (header digest padded : Bytes) :
    findDigest padded.length header digest padded =
      require ((header ++ digest).length + 11 ≤ padded.length ∧
        padded = 0 :: 1 :: List.replicate (padded.length - (header ++ digest).length - 3) 0xff ++
          0 :: (header ++ digest)) := by
  rw [List.length_append]
  by_cases room : header.length + digest.length + 11 ≤ padded.length
  · obtain ⟨first, second, filler, separator, headerFound, digestFound, parts, total,
      headerLength, digestLength⟩ := exists_parts header.length digest.length room
    rw [findDigest_of_parts room parts total headerLength digestLength]
    have fillerLength : padded.length - (header.length + digest.length) - 3 = filler.length := by omega
    apply require_congr
    simp only [List.all_eq_true, beq_iff_eq]
    rw [fillerLength, parts]
    constructor
    · rintro ⟨rfl, rfl, rfl, rfl, rfl, filled⟩
      rw [← List.eq_replicate_of_mem filled, ← parts]
      exact ⟨room, parts⟩
    · rintro ⟨-, same⟩
      simp only [List.cons_append, List.cons.injEq] at same
      obtain ⟨rfl, rfl, same⟩ := same
      obtain ⟨filled, same⟩ := List.append_inj same (by rw [List.length_replicate])
      obtain ⟨rfl, encoded⟩ := List.cons.inj same
      obtain ⟨rfl, rfl⟩ := List.append_inj encoded headerLength
      refine ⟨rfl, rfl, rfl, rfl, rfl, ?_⟩
      rw [filled]
      exact fun octet member => List.eq_of_mem_replicate member
  · rw [findDigest, require_bind, if_neg room, require, if_neg (fun both => room both.1)]

/-- The verification of a signature: its number is below the modulus, so the power fits the octets of
the modulus. -/
def verifyRsa (key : Rsa.PublicKey) (hash : HashName) (digest signature : Bytes) : Run Unit := do
  let identifier ← orRefuse hash.identifier?
  require (digest.length = hash.size)
  require (signature.toNat < key.modulus ∧ signature.length = key.size)
  let number ← power key.modulus signature.toNat key.exponent
  let padded ← widened key.size number
  findDigest key.size (digestHeader identifier hash.size) digest padded

/-- Octets of a width are those of a number if they denote it. -/
theorem ofNat_eq_iff {width number : Nat} {octets : Bytes} (fits : number < 256 ^ width)
    (length : octets.length = width) : Bytes.ofNat width number = octets ↔ number = octets.toNat := by
  constructor
  · rintro rfl
    exact (Bytes.toNat_ofNat width number fits).symm
  · rintro rfl
    rw [← length, Bytes.ofNat_toNat]

/-- The power is as long as the modulus and may be compared octet by octet. -/
theorem accepts_eq_true_iff (key : Rsa.PublicKey) {hash : HashName} {identifier : Oid}
    (digest signature : Bytes) (named : hash.identifier? = some identifier) :
    Rsa.accepts key hash digest signature = true ↔
      digest.length = hash.size ∧
      (signature.toNat < key.modulus ∧ signature.length = key.size) ∧
      (Rsa.digestInfo identifier digest).length + 11 ≤ key.size ∧
      Bytes.ofNat key.size (Residue.power key.modulus signature.toNat key.exponent) =
        0 :: 1 :: List.replicate (key.size - (Rsa.digestInfo identifier digest).length - 3) 0xff ++
          0 :: Rsa.digestInfo identifier digest := by
  by_cases fits : digest.length = hash.size ∧ (Rsa.digestInfo identifier digest).length + 11 ≤ key.size
  · have padding : Rsa.padded? key.size hash digest = some (0 :: 1 ::
        List.replicate (key.size - (Rsa.digestInfo identifier digest).length - 3) 0xff ++
          0 :: Rsa.digestInfo identifier digest) := by
      simp only [Rsa.padded?, named, Option.bind_eq_bind, Option.bind_some, if_pos fits]
    rw [Rsa.accepts_iff padding]
    by_cases below : signature.toNat < key.modulus
    · have : NeZero key.modulus := ⟨Nat.ne_zero_of_lt below⟩
      have power : Residue.power key.modulus signature.toNat key.exponent < key.modulus :=
        Residue.power_lt _ _
      rw [ofNat_eq_iff (power.trans key.modulus_lt) (Rsa.length_padded? padding)]
      simp only [fits, below, true_and]
    · simp only [below, false_and, and_false]
  · have unpadded : Rsa.padded? key.size hash digest = none := by
      simp only [Rsa.padded?, named, Option.bind_eq_bind, Option.bind_some, if_neg fits]
    rw [Rsa.accepts, unpadded]
    constructor
    · intro impossible
      cases impossible
    · rintro ⟨length, -, room, -⟩
      exact absurd ⟨length, room⟩ fits

/-- No operation is out of its bounds, whatever the modulus is and how many octets there are. -/
theorem verifyRsa_eq (key : Rsa.PublicKey) (hash : HashName) (digest signature : Bytes) :
    verifyRsa key hash digest signature =
      require (Rsa.accepts key hash digest signature = true) := by
  cases named : hash.identifier? with
  | none => simp [verifyRsa, Rsa.accepts, Rsa.padded?, named, orRefuse, require]
  | some identifier =>
    have accepted := accepts_eq_true_iff key digest signature named
    rw [verifyRsa, named, orRefuse, ok_bind, require_bind, require_bind]
    split_ifs with length shape
    · obtain ⟨nine, short⟩ := Rsa.length_identifier named
      have : NeZero key.modulus := ⟨Nat.ne_zero_of_lt shape.1⟩
      have power : Residue.power key.modulus signature.toNat key.exponent < key.modulus :=
        Residue.power_lt _ _
      have positive : 0 < key.size := by
        rw [key.size_eq, Bytes.length_minimal]
        exact Nat.succ_pos _
      have found := findDigest_eq (digestHeader identifier hash.size) digest
        (Bytes.ofNat key.size (Residue.power key.modulus signature.toNat key.exponent))
      rw [Bytes.length_ofNat, ← length, ← digestInfo_eq nine (by omega)] at found
      rw [power_eq, ok_bind, widened_eq positive (power.trans key.modulus_lt), ok_bind, ← length, found]
      apply require_congr
      rw [accepted]
      exact ⟨fun both => ⟨length, shape, both⟩, fun all => all.2.2⟩
    · rw [require, if_neg (fun all => shape (accepted.mp all).2.1)]
    · rw [require, if_neg (fun all => length (accepted.mp all).1)]

end CredentialSigning.Checked
