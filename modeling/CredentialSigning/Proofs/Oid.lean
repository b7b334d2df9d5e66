import CredentialSigning.Oid
import Mathlib.Data.Nat.ModEq

/-! Object identifiers by their arcs. An identifier that is written from arcs of at most 32 bits,
without padding, is read as those arcs, and in decimal it differs from every other one. -/

namespace CredentialSigning.Oid

theorem ofOctets?_eq_some_iff {octets : Bytes} {oid : Oid} :
    ofOctets? octets = some oid ↔ octets = oid.octets := by
  constructor
  · intro read
    unfold ofOctets? at read
    split at read
    · cases read
      rfl
    · cases read
  · rintro rfl
    exact ofOctets?_octets oid

theorem length_octets_le (oid : Oid) : oid.octets.length ≤ 39 := by
  obtain ⟨octets, wellFormed⟩ := oid
  cases octets with
  | nil => exact Nat.zero_le 39
  | cons first rest =>
    rw [arcs?] at wellFormed
    split at wellFormed
    · rename_i bounds
      exact Nat.succ_le_succ bounds.2.2
    · cases wellFormed

/-- The base-128 digits of a number, each with the highest bit set. Zero has none. -/
def leadingOctets (value : Nat) : Bytes :=
  if value = 0 then [] else leadingOctets (value / 128) ++ [UInt8.ofNat (128 + value % 128)]
termination_by value
decreasing_by omega

/-- An arc after the first two, in the fewest octets. -/
def arcOctets (arc : Nat) : Bytes :=
  leadingOctets (arc / 128) ++ [UInt8.ofNat (arc % 128)]

theorem toNat_leadingOctet (value : Nat) :
    (UInt8.ofNat (128 + value % 128)).toNat = 128 + value % 128 := by
  rw [UInt8.toNat_ofNat']
  omega

theorem toNat_lastOctet (value : Nat) : (UInt8.ofNat (value % 128)).toNat = value % 128 := by
  rw [UInt8.toNat_ofNat']
  omega

theorem high_of_mem_leadingOctets {value : Nat} {octet : UInt8}
    (member : octet ∈ leadingOctets value) : ¬octet < 0x80 := by
  induction value using leadingOctets.induct with
  | case1 =>
    rw [leadingOctets] at member
    cases member
  | case2 value nonzero hypothesis =>
    rw [leadingOctets, if_neg nonzero] at member
    rcases List.mem_append.mp member with before | last
    · exact hypothesis before
    · obtain rfl := List.mem_singleton.mp last
      rw [UInt8.lt_iff_toNat_lt, toNat_leadingOctet]
      exact Nat.not_lt.mpr (Nat.le_add_right 128 _)

/-- The digits put together as the reader does it, but without a bound on their number. -/
def digits (value : Nat) (octets : Bytes) : Nat :=
  octets.foldl (fun value octet => value * 128 + octet.toNat % 128) value

theorem digits_leadingOctets (value : Nat) : digits 0 (leadingOctets value) = value := by
  induction value using leadingOctets.induct with
  | case1 => rw [leadingOctets]; rfl
  | case2 value nonzero hypothesis =>
    have octet := toNat_leadingOctet value
    unfold digits at hypothesis ⊢
    rw [leadingOctets, if_neg nonzero, List.foldl_append, hypothesis, List.foldl_cons, List.foldl_nil,
      octet]
    omega

theorem digits_arcOctets (arc : Nat) : digits 0 (arcOctets arc) = arc := by
  have before := digits_leadingOctets (arc / 128)
  have octet := toNat_lastOctet arc
  unfold digits at before ⊢
  rw [arcOctets, List.foldl_append, before, List.foldl_cons, List.foldl_nil, octet]
  omega

theorem digits_modEq {modulus value other : Nat} (same : value ≡ other [MOD modulus])
    (octets : Bytes) : digits value octets ≡ digits other octets [MOD modulus] := by
  induction octets generalizing value other with
  | nil => exact same
  | cons octet octets hypothesis => exact hypothesis ((same.mul_right 128).add_right _)

/-- The reader keeps 32 bits of an arc, whatever it has dropped on the way. -/
theorem laterArcs?_append {high : Bytes} (set : ∀ octet ∈ high, ¬octet < 0x80) {low : UInt8}
    (clear : low < 0x80) {taken value : Nat} {rest : Bytes} {arcs : List Nat}
    (read : laterArcs? taken value (high ++ low :: rest) = some arcs) :
    ∃ later, laterArcs? 0 0 rest = some later ∧
      arcs = digits value (high ++ [low]) % 2 ^ 32 :: later := by
  have bits : 1 <<< 32 = 2 ^ 32 := by decide
  induction high generalizing taken value with
  | nil =>
    rw [List.nil_append, laterArcs?] at read
    split at read
    · cases read
    · rw [bits] at read
      obtain ⟨later, found, rfl⟩ := Option.map_eq_some_iff.mp read
      exact ⟨later, found, rfl⟩
  | cons octet high hypothesis =>
    obtain ⟨here, others⟩ := List.forall_mem_cons.mp set
    rw [List.cons_append, laterArcs?] at read
    split at read
    · cases read
    · rw [bits] at read
      obtain ⟨later, found, rfl⟩ := hypothesis others read
      refine ⟨later, found, ?_⟩
      have kept := digits_modEq (Nat.mod_modEq (value * 128 + octet.toNat % 128) (2 ^ 32))
        (high ++ [low])
      exact congrArg (· :: later) kept

/-- An arc of 32 bits is read as it is written, if it is read at all. -/
theorem laterArcs?_arcOctets {arc : Nat} (small : arc < 2 ^ 32) {rest : Bytes} {arcs : List Nat}
    (read : laterArcs? 0 0 (arcOctets arc ++ rest) = some arcs) :
    ∃ later, laterArcs? 0 0 rest = some later ∧ arcs = arc :: later := by
  have clear : UInt8.ofNat (arc % 128) < 0x80 := by
    rw [UInt8.lt_iff_toNat_lt, toNat_lastOctet]
    exact Nat.mod_lt arc (by decide)
  rw [arcOctets, List.append_assoc, List.singleton_append] at read
  obtain ⟨later, found, written⟩ := laterArcs?_append (fun _ => high_of_mem_leadingOctets) clear read
  refine ⟨later, found, ?_⟩
  have value := digits_arcOctets arc
  rw [arcOctets] at value
  rw [written, value, Nat.mod_eq_of_lt small]

theorem laterArcs?_flatten {later arcs : List Nat} (small : ∀ arc ∈ later, arc < 2 ^ 32)
    (read : laterArcs? 0 0 (later.map arcOctets).flatten = some arcs) : arcs = later := by
  induction later generalizing arcs with
  | nil =>
    cases read
    rfl
  | cons arc later hypothesis =>
    obtain ⟨here, others⟩ := List.forall_mem_cons.mp small
    rw [List.map_cons, List.flatten_cons] at read
    obtain ⟨rest, found, rfl⟩ := laterArcs?_arcOctets here read
    rw [hypothesis others found]

/-- Numbers in decimal with dots between them. -/
def join (numbers : List Nat) : String :=
  String.intercalate "." (numbers.map toString)

theorem dot_notMem_toList_toString (number : Nat) : '.' ∉ (toString number).toList := by
  intro member
  rw [Nat.toString_eq_repr, Nat.toList_repr] at member
  exact absurd (Nat.isDigit_of_mem_toDigits (by decide) (by decide) member) (by decide)

theorem toList_toString_inj (number other : Nat)
    (same : (toString number).toList = (toString other).toList) : number = other := by
  rw [Nat.toString_eq_repr, Nat.toString_eq_repr, Nat.toList_repr, Nat.toList_repr] at same
  have value (number : Nat) : Nat.ofDigitChars 10 (Nat.toDigits 10 number) 0 = number :=
    Nat.ofDigitChars_toDigits (by decide) (by decide)
  rw [← value number, same, value other]

/-- The dots tell where a number ends. -/
theorem join_inj {numbers others : List Nat} (nonempty : numbers ≠ []) (othersNonempty : others ≠ [])
    (same : join numbers = join others) : numbers = others := by
  have pieces (numbers : List Nat) (nonempty : numbers ≠ []) :
      (join numbers).toList.splitOn '.' = numbers.map fun number => (toString number).toList := by
    have dot : ".".toList = ['.'] := by decide
    rw [join, String.toList_intercalate, dot, List.map_map]
    apply List.splitOn_intercalate
    · intro text member
      obtain ⟨number, -, rfl⟩ := List.mem_map.mp member
      exact dot_notMem_toList_toString number
    · exact fun empty => nonempty (List.map_eq_nil_iff.mp empty)
  have texts := pieces numbers nonempty
  rw [same, pieces others othersNonempty] at texts
  exact (List.map_inj_right toList_toString_inj).mp texts.symm

/-- The two arcs of the first octet, and the arcs after them. -/
structure Arcs where
  first : Nat
  second : Nat
  later : List Nat

namespace Arcs

def numbers (arcs : Arcs) : List Nat :=
  arcs.first :: arcs.second :: arcs.later

def octets (arcs : Arcs) : Bytes :=
  UInt8.ofNat (40 * arcs.first + arcs.second) :: (arcs.later.map arcOctets).flatten

/-- The identifier is written from the arcs. There are three roots, with up to 40 arcs below each. -/
structure Writes (arcs : Arcs) (oid : Oid) : Prop where
  first : arcs.first ≤ 2
  second : arcs.second < 40
  later : ∀ arc ∈ arcs.later, arc < 2 ^ 32
  octets : oid.octets = arcs.octets

end Arcs

section Written

variable {oid : Oid} {arcs : Arcs} (written : arcs.Writes oid)
include written

theorem arcs_eq_numbers : oid.arcs = arcs.numbers := by
  have small : 40 * arcs.first + arcs.second < 120 := by
    have first := written.first
    have second := written.second
    omega
  have octet : (UInt8.ofNat (40 * arcs.first + arcs.second)).toNat = 40 * arcs.first + arcs.second := by
    rw [UInt8.toNat_ofNat']
    omega
  have read : arcs? oid.octets = some oid.arcs := (Option.some_get oid.wellFormed).symm
  rw [written.octets, Arcs.octets, arcs?] at read
  split at read
  · obtain ⟨later, found, numbers⟩ := Option.map_eq_some_iff.mp read
    have second := written.second
    rw [← numbers, laterArcs?_flatten written.later found, octet, Arcs.numbers]
    congr 2
    · omega
    · omega
  · cases read

/-- The arcs themselves are in the text. -/
theorem dotted_eq_join : oid.dotted = join arcs.numbers := by
  rw [dotted, arcs_eq_numbers written, join]

/-- No other identifier that is written from arcs has the same text. -/
theorem eq_of_dotted_eq {other : Oid} {otherArcs : Arcs} (otherWritten : otherArcs.Writes other)
    (same : oid.dotted = other.dotted) : oid = other := by
  rw [dotted_eq_join written, dotted_eq_join otherWritten] at same
  have numbers := join_inj (List.cons_ne_nil _ _) (List.cons_ne_nil _ _) same
  have equal : arcs = otherArcs := by
    obtain ⟨first, second, later⟩ := arcs
    obtain ⟨otherFirst, otherSecond, otherLater⟩ := otherArcs
    simp only [List.cons.injEq] at numbers
    obtain ⟨rfl, rfl, rfl⟩ := numbers
    rfl
  have octets : oid.octets = other.octets := by
    rw [written.octets, otherWritten.octets, equal]
  obtain ⟨_, _⟩ := oid
  obtain ⟨_, _⟩ := other
  obtain rfl := octets
  rfl

end Written
end CredentialSigning.Oid
