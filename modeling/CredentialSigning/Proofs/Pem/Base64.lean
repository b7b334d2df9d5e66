import CredentialSigning.Pem.Base64
import Mathlib.Tactic.IntervalCases

/-! Base64 as it is written: whole groups of four characters, with padding in the last group only,
and read back to the same octets. -/

namespace CredentialSigning.Pem.Base64

theorem read6?_write6 {digit : Nat} (small : digit < 64) : read6? (write6 digit) = some digit := by
  interval_cases digit <;> rfl

theorem write6_ne_padding {digit : Nat} (small : digit < 64) : write6 digit ≠ padding := by
  interval_cases digit <;> decide

/-- Visible ASCII other than the hyphen. No line ends and no marker starts with such characters. -/
structure IsPrintable (character : UInt8) : Prop where
  visible : 0x20 < character
  ascii : character < 0x80
  notHyphen : character ≠ 0x2d

theorem isPrintable_write6 {digit : Nat} (small : digit < 64) : IsPrintable (write6 digit) := by
  interval_cases digit <;> exact ⟨by decide, by decide, by decide⟩

theorem isPrintable_padding : IsPrintable padding :=
  ⟨by decide, by decide, by decide⟩

theorem ofNat_eq {value : Nat} {octet : UInt8} (same : value = octet.toNat) :
    UInt8.ofNat value = octet := by
  rw [same, UInt8.ofNat_toNat]

variable (a b c : UInt8)

theorem digits_lt : a.toNat / 4 < 64 ∧ a.toNat % 4 * 16 + b.toNat / 16 < 64 ∧
    b.toNat % 16 * 4 + c.toNat / 64 < 64 ∧ c.toNat % 64 < 64 := by
  have first := a.toNat_lt
  have second := b.toNat_lt
  have third := c.toNat_lt
  omega

/-- The three octets of a group from its four digits. -/
theorem octets_of_digits :
    UInt8.ofNat (a.toNat / 4 * 4 + (a.toNat % 4 * 16 + b.toNat / 16) / 16) = a ∧
    UInt8.ofNat ((a.toNat % 4 * 16 + b.toNat / 16) % 16 * 16 +
      (b.toNat % 16 * 4 + c.toNat / 64) / 4) = b ∧
    UInt8.ofNat ((b.toNat % 16 * 4 + c.toNat / 64) % 4 * 64 + c.toNat % 64) = c := by
  have first := a.toNat_lt
  have second := b.toNat_lt
  have third := c.toNat_lt
  refine ⟨ofNat_eq ?_, ofNat_eq ?_, ofNat_eq ?_⟩ <;> omega

/-- A last group of one octet. -/
theorem read?_write_one : read? (write [a]) = some [a] := by
  obtain ⟨first, second, -, -⟩ := digits_lt a 0 0
  obtain ⟨same, -, -⟩ := octets_of_digits a 0 0
  have unused : a.toNat % 4 * 16 % 16 = 0 := by omega
  simp only [UInt8.toNat_zero, Nat.zero_div, Nat.add_zero] at second same
  simp only [write, read?, readLast?, read6?_write6 first, read6?_write6 second, unused, same,
    Option.bind_eq_bind, Option.bind_some, and_self, ↓reduceIte]

/-- A last group of two octets. -/
theorem read?_write_two : read? (write [a, b]) = some [a, b] := by
  obtain ⟨first, second, third, -⟩ := digits_lt a b 0
  obtain ⟨sameFirst, sameSecond, -⟩ := octets_of_digits a b 0
  have unused : b.toNat % 16 * 4 % 4 = 0 := by omega
  simp only [UInt8.toNat_zero, Nat.zero_div, Nat.add_zero] at third sameSecond
  simp only [write, read?, readLast?, read6?_write6 first, read6?_write6 second,
    read6?_write6 third, write6_ne_padding third, unused, sameFirst, sameSecond,
    Option.bind_eq_bind, Option.bind_some, ↓reduceIte]

theorem write_eq_cons (rest : Bytes) : ∃ character others, write (a :: rest) = character :: others := by
  match rest with
  | [] => exact ⟨_, _, rfl⟩
  | [b] => exact ⟨_, _, rfl⟩
  | b :: c :: rest => exact ⟨_, _, rfl⟩

/-- A whole group, which may be the last one. -/
theorem read?_write_three {rest : Bytes} (later : read? (write rest) = some rest) :
    read? (write (a :: b :: c :: rest)) = some (a :: b :: c :: rest) := by
  obtain ⟨first, second, third, fourth⟩ := digits_lt a b c
  obtain ⟨sameFirst, sameSecond, sameThird⟩ := octets_of_digits a b c
  cases rest with
  | nil =>
    simp only [write, read?, readLast?, read6?_write6 first, read6?_write6 second,
      read6?_write6 third, read6?_write6 fourth, write6_ne_padding third, write6_ne_padding fourth,
      sameFirst, sameSecond, sameThird, Option.bind_eq_bind, Option.bind_some, ↓reduceIte]
  | cons octet rest =>
    -- the reader tells a last group by what follows it
    obtain ⟨character, others, follows⟩ := write_eq_cons octet rest
    rw [follows] at later
    simp only [write, follows, read?, later, read6?_write6 first, read6?_write6 second,
      read6?_write6 third, read6?_write6 fourth, sameFirst, sameSecond, sameThird,
      Option.bind_eq_bind, Option.bind_some]

theorem read?_write (octets : Bytes) : read? (write octets) = some octets := by
  induction octets using write.induct with
  | case1 => rfl
  | case2 a => exact read?_write_one a
  | case3 a b => exact read?_write_two a b
  | case4 a b c rest hypothesis => exact read?_write_three a b c hypothesis

theorem length_write_mod (octets : Bytes) : (write octets).length % 4 = 0 := by
  induction octets using write.induct with
  | case1 => simp [write]
  | case2 a => simp [write]
  | case3 a b => simp [write]
  | case4 a b c rest hypothesis =>
    simp only [write, List.length_cons]
    omega

/-- Padding stands in the last group only. -/
theorem padding_notMem_take (octets : Bytes) {count : Nat}
    (before : count + 4 ≤ (write octets).length) : padding ∉ (write octets).take count := by
  induction octets using write.induct generalizing count with
  | case1 => simp [write]
  | case2 a =>
    obtain rfl : count = 0 := by simpa [write] using before
    simp
  | case3 a b =>
    obtain rfl : count = 0 := by simpa [write] using before
    simp
  | case4 a b c rest hypothesis =>
    obtain ⟨first, second, third, fourth⟩ := digits_lt a b c
    have group : padding ∉ [write6 (a.toNat / 4), write6 (a.toNat % 4 * 16 + b.toNat / 16),
        write6 (b.toNat % 16 * 4 + c.toNat / 64), write6 (c.toNat % 64)] := by
      simp [Ne.symm (write6_ne_padding first), Ne.symm (write6_ne_padding second),
        Ne.symm (write6_ne_padding third), Ne.symm (write6_ne_padding fourth)]
    intro padded
    change padding ∈ ([write6 (a.toNat / 4), write6 (a.toNat % 4 * 16 + b.toNat / 16),
      write6 (b.toNat % 16 * 4 + c.toNat / 64), write6 (c.toNat % 64)] ++ write rest).take count
      at padded
    rw [List.take_append, List.mem_append] at padded
    rcases padded with inGroup | later
    · exact group (List.mem_of_mem_take inGroup)
    · have room : count - 4 + 4 ≤ (write rest).length ∨ count ≤ 4 := by
        simp only [write, List.length_cons] at before
        omega
      rcases room with room | few
      · exact hypothesis room later
      · rw [List.length_cons, List.length_cons, List.length_cons, List.length_singleton,
          Nat.sub_eq_zero_of_le few] at later
        cases later

theorem isPrintable_of_mem_write {octets : Bytes} {character : UInt8}
    (member : character ∈ write octets) : IsPrintable character := by
  induction octets using write.induct with
  | case1 => simp [write] at member
  | case2 a =>
    obtain ⟨first, second, -, -⟩ := digits_lt a 0 0
    simp only [write, List.mem_cons, List.not_mem_nil, or_false] at member
    rcases member with rfl | rfl | rfl | rfl
    exacts [isPrintable_write6 first, isPrintable_write6 second, isPrintable_padding,
      isPrintable_padding]
  | case3 a b =>
    obtain ⟨first, second, third, -⟩ := digits_lt a b 0
    simp only [write, List.mem_cons, List.not_mem_nil, or_false] at member
    rcases member with rfl | rfl | rfl | rfl
    exacts [isPrintable_write6 first, isPrintable_write6 second, isPrintable_write6 third,
      isPrintable_padding]
  | case4 a b c rest hypothesis =>
    obtain ⟨first, second, third, fourth⟩ := digits_lt a b c
    simp only [write, List.mem_cons] at member
    rcases member with rfl | rfl | rfl | rfl | later
    exacts [isPrintable_write6 first, isPrintable_write6 second, isPrintable_write6 third,
      isPrintable_write6 fourth, hypothesis later]

theorem visible_of_mem_write {octets : Bytes} {character : UInt8} (member : character ∈ write octets) :
    0x20 < character :=
  (isPrintable_of_mem_write member).visible

end CredentialSigning.Pem.Base64
