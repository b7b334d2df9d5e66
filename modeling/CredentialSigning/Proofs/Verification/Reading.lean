import CredentialSigning.Proofs.Ecdsa.Encoding
import CredentialSigning.Proofs.Ecdsa.Key
import CredentialSigning.Proofs.Verification.Bounds

/-! The reader of signatures on a curve with every operation inside its bounds. Each length is compared
with the octets that are left before these are divided by it, and each integer with the width of the
curve before it is widened. -/

namespace CredentialSigning.Checked
open Der

def nextOctet : Bytes → Run (UInt8 × Bytes)
  | [] => .error .refused
  | first :: rest => .ok (first, rest)

/-- A length in its shortest form, in at most four further octets. -/
def readLength (octets : Bytes) : Run (Nat × Bytes) := do
  let (first, rest) ← nextOctet octets
  if first < 0x80 then .ok (first.toNat, rest)
  else
    let count ← difference first.toNat 0x80
    require (1 ≤ count ∧ count ≤ 4 ∧ count ≤ rest.length)
    let (digits, rest) ← split rest count
    let fewer ← difference count 1
    require (0x80 ≤ digits.toNat ∧ 1 <<< (8 * fewer) ≤ digits.toNat ∧ digits.toNat < keyLimit)
    .ok (digits.toNat, rest)

theorem readLength_eq (octets : Bytes) :
    readLength octets = orRefuse (shortestLength? keyLimit octets) := by
  cases octets with
  | nil => rfl
  | cons first rest =>
    simp only [readLength, shortestLength?, definiteLength?, nextOctet, ok_bind]
    by_cases small : first < 0x80
    · simp only [if_pos small, orRefuse]
    · have above : 0x80 ≤ first.toNat := Nat.not_lt.mp fun below =>
        small (UInt8.lt_iff_toNat_lt.mpr below)
      simp only [if_neg small, difference_of_le above, ok_bind, require_bind]
      by_cases counts : 1 ≤ first.toNat - 0x80 ∧ first.toNat - 0x80 ≤ 4 ∧
          first.toNat - 0x80 ≤ rest.length
      · obtain ⟨one, four, present⟩ := counts
        simp only [one, four, present, true_and, if_true, split_of_le present, ok_bind,
          difference_of_le one, decide_true, Bool.true_and, Bool.and_eq_true, decide_eq_true_eq,
          and_assoc]
        split
        · rfl
        · rfl
      · rw [if_neg counts, if_neg]
        · rfl
        · rintro ⟨present, accepted⟩
          simp only [Bool.and_eq_true, decide_eq_true_eq] at accepted
          exact counts ⟨accepted.1.1.1.1, accepted.1.1.1.2, present⟩

/-- The content of the first element, which has the given tag, and what follows it. -/
def readContent (tag : UInt8) (octets : Bytes) : Run (Bytes × Bytes) := do
  let (first, rest) ← nextOctet octets
  require (isKeyTag first = true)
  let (size, rest) ← readLength rest
  require (size ≤ rest.length)
  let (content, rest) ← split rest size
  require (first = tag)
  .ok (content, rest)

theorem readContent_eq (tag : UInt8) (octets : Bytes) :
    readContent tag octets = orRefuse (Rules.key.take? tag octets) := by
  cases octets with
  | nil => rfl
  | cons first rest =>
    simp only [readContent, nextOctet, ok_bind, require_bind, readLength_eq, Rules.take?,
      Rules.element?, Rules.key]
    by_cases isTag : isKeyTag first = true
    · simp only [if_pos isTag, Option.bind_eq_bind, Option.bind_some]
      cases shortestLength? keyLimit rest with
      | none => rfl
      | some found =>
        obtain ⟨size, rest⟩ := found
        simp only [orRefuse, ok_bind, Option.bind_some]
        by_cases fits : size ≤ rest.length
        · simp only [if_pos fits, split_of_le fits, ok_bind, Option.bind_some, List.cons.injEq,
            and_true]
          split
          · rfl
          · rfl
        · simp only [if_neg fits, Option.bind_none]
    · simp only [if_neg isTag, Option.bind_eq_bind, Option.bind_none, orRefuse]

/-- The octets of a non-negative INTEGER without the one that is there for the sign only. -/
def integerDigits (content : Bytes) : Run Bytes := do
  require (isMinimalInteger content = true)
  let first ← octet content 0
  require (first < 0x80)
  if first = 0 ∧ 1 < content.length then slice content 1 content.length else .ok content

/-- An octet for the sign stands only before octets that would set it. -/
theorem integerDigits_naturalOctets (value : Nat) :
    integerDigits (naturalOctets value) = .ok (Bytes.minimal value) := by
  have read := natural?_naturalOctets value
  unfold natural? at read
  split at read
  · rename_i conditions
    rw [integerDigits, require_bind, if_pos conditions.1]
    rcases naturalOctets_eq value with ⟨plain, clear⟩ | ⟨padded, first, rest, shape, set⟩
    · rw [plain]
      match shape : Bytes.minimal value with
      | [] => simp [shape] at clear
      | [first] =>
        have below : first < 0x80 := by simpa [shape] using clear
        simp [octet, require_bind, below]
      | first :: second :: rest =>
        have below : first < 0x80 := by simpa [shape] using clear
        have nonzero := Bytes.head_minimal_ne_zero shape
        simp [octet, require_bind, below, nonzero]
    · rw [padded, shape]
      have whole : slice (0 :: first :: rest) 1 (0 :: first :: rest).length = .ok (first :: rest) :=
        slice_of_eq_append [0] [] (by simp) rfl (Nat.add_comm 1 _)
      simpa [octet, require_bind] using whole
  · cases read

theorem integerDigits_eq (content : Bytes) :
    integerDigits content = orRefuse ((natural? content).map Bytes.minimal) := by
  cases read : natural? content with
  | some value =>
    rw [natural?_eq_some_iff.mp read, integerDigits_naturalOctets]
    rfl
  | none =>
    rw [integerDigits, require_bind]
    split
    · rename_i shortest
      cases content with
      | nil => cases shortest
      | cons first rest =>
        have set : ¬first < 0x80 := by simpa [natural?, shortest] using read
        simp [octet, require_bind, set, orRefuse]
    · rfl

/-- The number of an INTEGER that fits a width, with zeros before it. -/
def readScalar (width : Nat) (content : Bytes) : Run Nat := do
  let digits ← integerDigits content
  require (digits.length ≤ width)
  let zeros ← difference width digits.length
  .ok (Bytes.toNat (List.replicate zeros 0 ++ digits))

theorem readScalar_eq {width : Nat} (positive : 0 < width) (content : Bytes) :
    readScalar width content = orRefuse ((natural? content).bind fun value =>
      if value < 256 ^ width then some value else none) := by
  rw [readScalar, integerDigits_eq]
  cases natural? content with
  | none => rfl
  | some value =>
    simp only [Option.map_some, orRefuse_some, ok_bind, require_bind]
    have fits : (Bytes.minimal value).length ≤ width ↔ value < 256 ^ width := by
      constructor
      · intro short
        exact (Bytes.lt_pow_length_minimal value).trans_le (Nat.pow_le_pow_right (by decide) short)
      · exact Bytes.length_minimal_le positive
    by_cases below : value < 256 ^ width
    · rw [if_pos (fits.mpr below), difference_of_le (fits.mpr below), ok_bind,
        Bytes.toNat_zeros_append, Bytes.toNat_minimal, Option.bind_some, if_pos below, orRefuse_some]
    · rw [if_neg (mt fits.mp below), Option.bind_some, if_neg below, orRefuse_none]

def readScalars (domain : Curve.Domain) (first second : Bytes) : Run Ecdsa.Signature := do
  let r ← readScalar domain.width first
  let s ← readScalar domain.width second
  let signature : Ecdsa.Signature := ⟨r, s⟩
  require (signature.IsFor domain.order)
  .ok signature

/-- A scalar below the order fits the width of the curve. -/
theorem readScalars_eq (curve : Curve) (first second : Bytes) :
    readScalars curve.domain first second =
      orRefuse ((natural? first).bind fun r => (natural? second).bind fun s =>
        if Ecdsa.Signature.IsFor ⟨r, s⟩ curve.domain.order then some ⟨r, s⟩ else none) := by
  obtain ⟨wide, -, fits⟩ := Ecdsa.width_bounds curve
  have positive : 0 < curve.domain.width := by omega
  rw [readScalars, readScalar_eq positive, readScalar_eq positive]
  cases natural? first with
  | none => rfl
  | some r =>
    cases natural? second with
    | none =>
      simp only [Option.bind_some, Option.bind_none]
      split
      · rfl
      · rfl
    | some s =>
      simp only [Option.bind_some]
      by_cases isFor : Ecdsa.Signature.IsFor ⟨r, s⟩ curve.domain.order
      · have firstFits : r < 256 ^ curve.domain.width := isFor.2.1.trans_le fits
        have secondFits : s < 256 ^ curve.domain.width := isFor.2.2.2.trans_le fits
        simp [firstFits, secondFits, isFor, require]
      · by_cases firstFits : r < 256 ^ curve.domain.width
        · by_cases secondFits : s < 256 ^ curve.domain.width
          · simp [firstFits, secondFits, isFor, require]
          · simp [firstFits, secondFits, isFor]
        · simp [firstFits, isFor]

def readSignature (domain : Curve.Domain) (octets : Bytes) : Run Ecdsa.Signature := do
  let (content, rest) ← readContent 0x30 octets
  require (rest = [])
  let (first, rest) ← readContent 0x02 content
  let (second, rest) ← readContent 0x02 rest
  require (rest = [])
  readScalars domain first second

theorem readSignature_eq (curve : Curve) (octets : Bytes) :
    readSignature curve.domain octets =
      orRefuse (Ecdsa.Signature.read? curve.domain.order octets) := by
  simp only [readSignature, readContent_eq, readScalars_eq, Ecdsa.Signature.read?, Rules.whole?,
    Option.bind_eq_bind, require_bind]
  cases Rules.key.take? 0x30 octets with
  | none => rfl
  | some outer =>
    obtain ⟨content, after⟩ := outer
    simp only [orRefuse_some, ok_bind, Option.bind_some]
    split
    · rw [Option.bind_some]
      cases Rules.key.take? 0x02 content with
      | none => rfl
      | some inner =>
        obtain ⟨first, rest⟩ := inner
        simp only [orRefuse_some, ok_bind, Option.bind_some]
        cases Rules.key.take? 0x02 rest with
        | none => rfl
        | some last =>
          obtain ⟨second, rest⟩ := last
          simp only [orRefuse_some, ok_bind, Option.bind_some]
          by_cases whole : rest = []
          · simp only [whole, if_true, true_and]
          · simp only [whole, if_false, false_and]
            cases natural? first with
            | none => rfl
            | some r =>
              cases natural? second with
              | none => rfl
              | some s => rfl
    · rfl

end CredentialSigning.Checked
