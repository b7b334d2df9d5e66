import CredentialSigning.Bytes
import Mathlib.Algebra.Order.Ring.Nat
import Mathlib.Data.List.Induction
import Mathlib.Tactic.Ring

/-! Octet strings as numbers to the base 256. A number and a width determine the octets, and the
fewest octets of a number do not begin with zero. -/

namespace CredentialSigning.Bytes

theorem toNat_ofNat (width value : Nat) (fits : value < 256 ^ width) :
    toNat (ofNat width value) = value := by
  induction width generalizing value with
  | zero => simp at fits; simp [ofNat, fits]
  | succ width hypothesis =>
    have high : value / 256 < 256 ^ width := by
      rw [Nat.div_lt_iff_lt_mul (by decide)]
      simpa [Nat.pow_succ] using fits
    rw [ofNat, toNat_concat, hypothesis _ high, UInt8.toNat_ofNat']
    omega

theorem toNat_append (left right : Bytes) :
    toNat (left ++ right) = toNat left * 256 ^ right.length + toNat right := by
  induction right using List.reverseRecOn with
  | nil => simp
  | append_singleton right octet hypothesis =>
    rw [← List.append_assoc, toNat_concat, hypothesis, toNat_concat, List.length_append,
      List.length_singleton, pow_succ]
    ring

theorem toNat_cons (octet : UInt8) (octets : Bytes) :
    toNat (octet :: octets) = octet.toNat * 256 ^ octets.length + toNat octets := by
  have single : toNat [octet] = octet.toNat := by simp [toNat]
  rw [← List.singleton_append, toNat_append, single]

theorem toNat_zero_cons (octets : Bytes) : toNat (0 :: octets) = toNat octets := by
  rw [toNat_cons]
  simp

theorem toNat_zeros_append (count : Nat) (octets : Bytes) :
    toNat (List.replicate count 0 ++ octets) = toNat octets := by
  induction count with
  | zero => rfl
  | succ count hypothesis =>
    rw [List.replicate_succ, List.cons_append, toNat_zero_cons, hypothesis]

theorem toNat_lt (octets : Bytes) : toNat octets < 256 ^ octets.length := by
  induction octets with
  | nil => simp
  | cons octet octets hypothesis =>
    have digit : octet.toNat + 1 ≤ 256 := octet.toNat_lt
    rw [toNat_cons, List.length_cons, pow_succ']
    calc
      octet.toNat * 256 ^ octets.length + toNat octets
        < octet.toNat * 256 ^ octets.length + 256 ^ octets.length := by omega
      _ = (octet.toNat + 1) * 256 ^ octets.length := by ring
      _ ≤ 256 * 256 ^ octets.length := Nat.mul_le_mul_right _ digit

theorem ofNat_toNat (octets : Bytes) : ofNat octets.length (toNat octets) = octets := by
  induction octets using List.reverseRecOn with
  | nil => rfl
  | append_singleton octets octet hypothesis =>
    have digit := octet.toNat_lt
    have high : (toNat octets * 256 + octet.toNat) / 256 = toNat octets := by omega
    have low : UInt8.ofNat (toNat octets * 256 + octet.toNat) = octet := by
      apply UInt8.toNat_inj.mp
      rw [UInt8.toNat_ofNat']
      omega
    rw [toNat_concat, List.length_append, List.length_singleton, ofNat, high, hypothesis, low]

theorem length_minimal (value : Nat) : (minimal value).length = value.log2 / 8 + 1 :=
  length_ofNat _ _

theorem lt_pow_length_minimal (value : Nat) : value < 256 ^ (minimal value).length := by
  rw [length_minimal, show (256 : Nat) = 2 ^ 8 from rfl, ← pow_mul]
  exact Nat.lt_log2_self.trans_le (Nat.pow_le_pow_right (by decide) (by omega))

@[simp] theorem toNat_minimal (value : Nat) : toNat (minimal value) = value := by
  rw [minimal]
  apply toNat_ofNat
  rw [← length_minimal]
  exact lt_pow_length_minimal value

theorem pow_le_of_minimal {value : Nat} (positive : 0 < value) :
    256 ^ ((minimal value).length - 1) ≤ value := by
  rw [length_minimal, Nat.add_sub_cancel, show (256 : Nat) = 2 ^ 8 from rfl, ← pow_mul]
  calc
    2 ^ (8 * (value.log2 / 8)) ≤ 2 ^ value.log2 := Nat.pow_le_pow_right (by decide) (by omega)
    _ ≤ value := Nat.log2_self_le (by omega)

theorem length_minimal_le {value width : Nat} (positive : 0 < width) (fits : value < 256 ^ width) :
    (minimal value).length ≤ width := by
  rcases Nat.eq_zero_or_pos value with zero | above
  · rw [zero]
    exact positive
  · by_contra longer
    have wider : 256 ^ width ≤ 256 ^ ((minimal value).length - 1) :=
      Nat.pow_le_pow_right (by decide) (by omega)
    have least := pow_le_of_minimal above
    omega

/-- Only a number that takes a single octet begins with zero. -/
theorem head_minimal_ne_zero {value : Nat} {first second : UInt8} {rest : Bytes}
    (split : minimal value = first :: second :: rest) : first ≠ 0 := by
  intro zero
  have number := toNat_minimal value
  have bound := toNat_lt (second :: rest)
  rw [split, zero, toNat_zero_cons] at number
  rcases Nat.eq_zero_or_pos value with nothing | above
  · have short : (minimal 0).length = 1 := rfl
    rw [nothing] at split
    rw [split] at short
    simp at short
  · have least := pow_le_of_minimal above
    rw [split] at least
    simp only [List.length_cons, Nat.add_sub_cancel] at least bound
    omega

end CredentialSigning.Bytes
