import CredentialSigning.Bytes
import CredentialSigning.Proofs.Arithmetic.Modular

/-! Operations that have bounds, each with a check of its bounds: positions and parts of octet strings,
differences of natural numbers, remainders and modular inverses. A run made of them tells a refusal
from an operation that was out of its bounds. -/

namespace CredentialSigning

theorem Residue.inverse?_lt {modulus value found : Nat} (positive : 0 < modulus)
    (inverted : inverse? modulus value = some found) : found < modulus := by
  simp only [inverse?] at inverted
  split at inverted
  · cases inverted
    have below := Int.emod_lt_of_pos (euclid (value % modulus) modulus 1 0).2
      (Int.natCast_pos.mpr positive)
    omega
  · cases inverted

namespace Checked

/-- Why a run ends early. -/
inductive Halt
  | refused
  | outOfBounds
  deriving DecidableEq, Repr

abbrev Run (α : Type) :=
  Except Halt α

variable {α β : Type}

def require (condition : Prop) [Decidable condition] : Run Unit :=
  if condition then .ok () else .error .refused

def orRefuse : Option α → Run α
  | some value => .ok value
  | none => .error .refused

def within (bounds : Prop) [Decidable bounds] (value : α) : Run α :=
  if bounds then .ok value else .error .outOfBounds

def octet (octets : Bytes) (index : Nat) : Run UInt8 :=
  match octets[index]? with
  | some octet => .ok octet
  | none => .error .outOfBounds

/-- The octets from one position up to another. -/
def slice (octets : Bytes) (first last : Nat) : Run Bytes :=
  within (first ≤ last ∧ last ≤ octets.length) ((octets.take last).drop first)

/-- The octets before a position and those from it on. -/
def split (octets : Bytes) (position : Nat) : Run (Bytes × Bytes) :=
  within (position ≤ octets.length) (octets.take position, octets.drop position)

def difference (left right : Nat) : Run Nat :=
  within (right ≤ left) (left - right)

def remainder (value divisor : Nat) : Run Nat :=
  within (divisor ≠ 0) (value % divisor)

/-- The inverse that Euclid's algorithm finds. A value with a factor in common with the modulus has
none. -/
def inverse (modulus value : Nat) : Run Nat :=
  match Residue.inverse? modulus value with
  | some found => .ok found
  | none => .error .outOfBounds

@[simp] theorem ok_bind (value : α) (next : α → Run β) : (Except.ok value >>= next) = next value :=
  rfl

@[simp] theorem error_bind (halt : Halt) (next : α → Run β) :
    ((Except.error halt : Run α) >>= next) = .error halt :=
  rfl

@[simp] theorem orRefuse_some (value : α) : orRefuse (some value) = .ok value :=
  rfl

@[simp] theorem orRefuse_none : orRefuse (none : Option α) = .error .refused :=
  rfl

theorem require_bind (condition : Prop) [Decidable condition] (next : Unit → Run α) :
    (require condition >>= next) = if condition then next () else .error .refused := by
  unfold require
  split
  · rfl
  · rfl

theorem require_congr {first second : Prop} [Decidable first] [Decidable second]
    (same : first ↔ second) : require first = require second := by
  simp only [require, same]

theorem octet_of_eq_append {octets : Bytes} {found : UInt8} {index : Nat} (before after : Bytes)
    (parts : octets = before ++ found :: after) (starts : before.length = index) :
    octet octets index = .ok found := by
  rw [octet, parts, ← starts, List.getElem?_append_right (Nat.le_refl _), Nat.sub_self,
    List.getElem?_cons_zero]

theorem slice_of_eq_append {octets found : Bytes} {first last : Nat} (before after : Bytes)
    (parts : octets = before ++ (found ++ after)) (starts : before.length = first)
    (ends : first + found.length = last) : slice octets first last = .ok found := by
  subst parts starts ends
  have bounds : before.length ≤ before.length + found.length ∧
      before.length + found.length ≤ (before ++ (found ++ after)).length := by
    simp only [List.length_append]
    omega
  rw [slice, within, if_pos bounds, List.take_length_add_append, List.take_left, List.drop_left]

theorem split_of_le {octets : Bytes} {position : Nat} (bounded : position ≤ octets.length) :
    split octets position = .ok (octets.take position, octets.drop position) :=
  if_pos bounded

theorem difference_of_le {left right : Nat} (bounded : right ≤ left) :
    difference left right = .ok (left - right) :=
  if_pos bounded

theorem remainder_of_pos {divisor : Nat} (positive : 0 < divisor) (value : Nat) :
    remainder value divisor = .ok (value % divisor) :=
  if_pos positive.ne'

/-- Modulo a prime Euclid's algorithm finds the inverse, of anything but zero. -/
theorem inverse_of_prime {modulus value : Nat} [prime : Fact modulus.Prime]
    (nonzero : (value : ZMod modulus) ≠ 0) :
    inverse modulus value = .ok (Residue.inverse modulus value) := by
  have coprime : Nat.Coprime value modulus := by
    rw [Nat.coprime_comm, prime.out.coprime_iff_not_dvd, ← ZMod.natCast_eq_zero_iff]
    exact nonzero
  obtain ⟨found, inverted, product⟩ := Residue.inverse?_spec coprime
  have same : found = Residue.inverse modulus value := by
    apply Residue.eq_of_cast_eq (Residue.inverse?_lt prime.out.pos inverted) (Residue.power_lt _ _)
    rw [← Residue.inverse, Residue.cast_inverse nonzero]
    exact eq_inv_of_mul_eq_one_right product
  rw [inverse, inverted, same]

/-- The ladder over binary digits, with steps that may end the run. -/
def ladder (double step : α → Run α) (scalar : Nat) : Nat → α → Run α
  | 0, reached => .ok reached
  | bits + 1, reached => do
    let doubled ← double reached
    let next ← if scalar.testBit bits then step doubled else .ok doubled
    ladder double step scalar bits next

theorem ladder_eq {double step : α → Run α} {doubled stepped : α → α}
    (doubles : ∀ value, double value = .ok (doubled value))
    (steps : ∀ value, step value = .ok (stepped value)) (scalar bits : Nat) (start : α) :
    ladder double step scalar bits start = .ok (Residue.ladder doubled stepped scalar bits start) := by
  induction bits generalizing start with
  | zero => rfl
  | succ bits hypothesis =>
    simp only [ladder, Residue.ladder, doubles, steps, ok_bind]
    split
    · exact hypothesis _
    · exact hypothesis _

def product (modulus left right : Nat) : Run Nat :=
  remainder (left * right) modulus

def square (modulus value : Nat) : Run Nat :=
  product modulus value value

/-- The difference of residues: the right one is taken from the modulus, which is not below it. -/
def residueDifference (modulus left right : Nat) : Run Nat := do
  let reduced ← remainder right modulus
  let opposite ← difference modulus reduced
  remainder (left + opposite) modulus

def power (modulus base exponent : Nat) : Run Nat := do
  let one ← remainder 1 modulus
  ladder (square modulus) (product modulus base) exponent (Residue.bitLength exponent) one

variable {modulus : Nat} [NeZero modulus]

@[simp] theorem product_eq (left right : Nat) :
    product modulus left right = .ok (Residue.mul modulus left right) :=
  remainder_of_pos (NeZero.pos modulus) _

@[simp] theorem square_eq (value : Nat) : square modulus value = .ok (Residue.square modulus value) :=
  product_eq value value

@[simp] theorem residueDifference_eq (left right : Nat) :
    residueDifference modulus left right = .ok (Residue.sub modulus left right) := by
  have below : right % modulus ≤ modulus := (Nat.mod_lt _ (NeZero.pos modulus)).le
  simp only [residueDifference, remainder_of_pos (NeZero.pos modulus), ok_bind,
    difference_of_le below]
  rfl

theorem power_eq (base exponent : Nat) :
    power modulus base exponent = .ok (Residue.power modulus base exponent) := by
  rw [power, remainder_of_pos (NeZero.pos modulus), ok_bind, ladder_eq square_eq (product_eq base)]
  rfl

end Checked
end CredentialSigning
