import CredentialSigning.Generator
import Mathlib.Order.WellFounded
import Mathlib.Tactic.Ring

/-! The stream of a generator in blocks of one width. After the seed the stream repeats, so the first
block that can be read is found if there is one at all, however far it is. -/

namespace CredentialSigning

namespace Bytes

/-- Only the remainder by the power of 256 is written. -/
theorem ofNat_add_mul_pow (width value count : Nat) :
    ofNat width (value + count * 256 ^ width) = ofNat width value := by
  induction width generalizing value with
  | zero => rfl
  | succ width hypothesis =>
    have split : value + count * 256 ^ (width + 1) = value + count * 256 ^ width * 256 := by ring
    have high : (value + count * 256 ^ (width + 1)) / 256 = value / 256 + count * 256 ^ width := by
      rw [split, Nat.add_mul_div_right _ _ (by decide)]
    have low : UInt8.ofNat (value + count * 256 ^ (width + 1)) = UInt8.ofNat value := by
      apply UInt8.toNat_inj.mp
      rw [UInt8.toNat_ofNat', UInt8.toNat_ofNat', split]
      omega
    rw [ofNat, ofNat, high, low, hypothesis]

end Bytes

namespace Generator

/-- The generator after so many octets. -/
def skip (generator : Generator) (count : Nat) : Generator :=
  { generator with position := generator.position + count }

/-- The stream cut into blocks of one width, counted from the generator's position. -/
def block (generator : Generator) (width index : Nat) : Bytes :=
  ((generator.skip (width * index)).next width).1

@[simp] theorem seed_skip (generator : Generator) (count : Nat) :
    (generator.skip count).seed = generator.seed := rfl

@[simp] theorem position_skip (generator : Generator) (count : Nat) :
    (generator.skip count).position = generator.position + count := rfl

/-- Where a generator stands does not change the stream. -/
@[simp] theorem derived_skip (generator : Generator) (count : Nat) :
    (generator.skip count).derived = generator.derived := rfl

theorem skip_skip (generator : Generator) (first second : Nat) :
    (generator.skip first).skip second = generator.skip (first + second) := by
  rw [skip, skip, skip, Nat.add_assoc]

theorem block_skip (generator : Generator) (width index : Nat) :
    (generator.skip width).block width index = generator.block width (index + 1) := by
  rw [block, block, skip_skip, Nat.mul_succ, Nat.add_comm]

section Search

variable {α : Type} {read : Bytes → Option α} {width tries index : Nat} {found : α}
  {generator : Generator}

/-- The first block that can be read, and what it is read as. -/
structure IsFirst (generator : Generator) (read : Bytes → Option α) (width index : Nat) (found : α) :
    Prop where
  reads : read (generator.block width index) = some found
  earlier : ∀ other < index, read (generator.block width other) = none

theorem exists_isFirst (some : ∃ index, (read (generator.block width index)).isSome) :
    ∃ index found, generator.IsFirst read width index found := by
  obtain ⟨found, reads⟩ := Option.isSome_iff_exists.mp (Nat.find_spec some)
  refine ⟨Nat.find some, found, reads, ?_⟩
  intro other before
  exact Option.not_isSome_iff_eq_none.mp (Nat.find_min some before)

/-- One try of the search looks at the next block. -/
theorem firstOf?_of_some (tries : Nat) (reads : read (generator.block width 0) = some found) :
    firstOf? read width (tries + 1) generator = (some found, generator.skip width) := by
  have next : read (generator.next width).1 = some found := reads
  simp only [firstOf?, next]
  rfl

theorem firstOf?_of_none (tries : Nat) (refused : read (generator.block width 0) = none) :
    firstOf? read width (tries + 1) generator =
      firstOf? read width tries (generator.skip width) := by
  have next : read (generator.next width).1 = none := refused
  simp only [firstOf?, next]
  rfl

theorem IsFirst.tail (first : generator.IsFirst read width (index + 1) found) :
    (generator.skip width).IsFirst read width index found := by
  constructor
  · rw [block_skip]
    exact first.reads
  · intro other before
    rw [block_skip]
    exact first.earlier (other + 1) (Nat.succ_lt_succ before)

/-- With enough tries the search yields the first block, and the generator after it. -/
theorem firstOf?_of_lt (first : generator.IsFirst read width index found) (enough : index < tries) :
    firstOf? read width tries generator = (some found, generator.skip (width * (index + 1))) := by
  induction index generalizing generator tries with
  | zero =>
    cases tries with
    | zero => cases enough
    | succ tries => rw [firstOf?_of_some tries first.reads, Nat.zero_add, Nat.mul_one]
  | succ index hypothesis =>
    cases tries with
    | zero => cases enough
    | succ tries =>
      have later := hypothesis first.tail (Nat.lt_of_succ_lt_succ enough)
      rw [firstOf?_of_none tries (first.earlier 0 (Nat.succ_pos index)), later, skip_skip,
        Nat.add_comm width, ← Nat.mul_succ]

/-- Whatever the search yields stands in some block. -/
theorem exists_of_firstOf? (yields : (firstOf? read width tries generator).1 = some found) :
    ∃ index, read (generator.block width index) = some found := by
  induction tries generalizing generator with
  | zero => cases yields
  | succ tries hypothesis =>
    cases next : read (generator.block width 0) with
    | some other =>
      rw [firstOf?_of_some tries next] at yields
      cases yields
      exact ⟨0, next⟩
    | none =>
      rw [firstOf?_of_none tries next] at yields
      obtain ⟨index, reads⟩ := hypothesis yields
      rw [block_skip] at reads
      exact ⟨index + 1, reads⟩

end Search

section Period

variable (generator : Generator)

/-- The counter of a piece takes four octets. -/
theorem piece_add_mul_period (index count : Nat) :
    generator.piece (index + count * 2 ^ 32) = generator.piece index := by
  have counter : Bytes.ofNat 4 (index + count * 2 ^ 32) = Bytes.ofNat 4 index :=
    Bytes.ofNat_add_mul_pow 4 index count
  rw [piece, piece, counter]

/-- Every 2³² pieces of 32 octets the stream after the seed begins again. -/
theorem derived_add_mul_period (start count periods : Nat) :
    generator.derived (start + periods * 2 ^ 37) count = generator.derived start count := by
  have first : (start + periods * 2 ^ 37) / 32 = start / 32 + periods * 2 ^ 32 := by omega
  have within : (start + periods * 2 ^ 37) % 32 = start % 32 := by omega
  have same : ∀ index, generator.piece (start / 32 + periods * 2 ^ 32 + index) =
      generator.piece (start / 32 + index) := by
    intro index
    rw [Nat.add_right_comm, piece_add_mul_period]
  simp only [derived, first, within, List.flatMap_map, same]

variable {generator}

theorem next_of_length_seed_le (after : generator.seed.length ≤ generator.position) (count : Nat) :
    (generator.next count).1 =
      generator.derived (generator.position - generator.seed.length) count := by
  have seeded : (generator.seed.drop generator.position).take count = [] := by
    rw [List.drop_eq_nil_of_le after, List.take_nil]
  simp only [next, seeded, List.nil_append, List.length_nil, Nat.add_zero, Nat.sub_zero]

theorem block_of_length_seed_le {width index : Nat}
    (after : generator.seed.length ≤ generator.position + width * index) :
    generator.block width index =
      generator.derived (generator.position + width * index - generator.seed.length) width := by
  rw [← position_skip, ← seed_skip generator (width * index)] at after
  rw [block, next_of_length_seed_le after, derived_skip, seed_skip, position_skip]

theorem block_add_period {width index : Nat}
    (after : generator.seed.length ≤ generator.position + width * index) :
    generator.block width (index + 2 ^ 37) = generator.block width index := by
  have split : width * (index + 2 ^ 37) = width * index + width * 2 ^ 37 := Nat.mul_add _ _ _
  have later : generator.seed.length ≤ generator.position + width * (index + 2 ^ 37) := by omega
  have start : generator.position + width * (index + 2 ^ 37) - generator.seed.length =
      generator.position + width * index - generator.seed.length + width * 2 ^ 37 := by
    omega
  rw [block_of_length_seed_le later, start, derived_add_mul_period, block_of_length_seed_le after]

variable {α : Type} {read : Bytes → Option α} {width index : Nat} {found : α}

/-- A block after so many others has occurred among them, so it is not the first one. -/
theorem IsFirst.lt_period (wide : 0 < width) (first : generator.IsFirst read width index found) :
    index < generator.period := by
  have period : generator.period = generator.seed.length + 2 ^ 37 := by
    rw [Generator.period, Nat.one_shiftLeft]
  rw [period]
  by_contra far
  have before : index - 2 ^ 37 + 2 ^ 37 = index := by omega
  have after : generator.seed.length ≤ generator.position + width * (index - 2 ^ 37) := by
    calc
      generator.seed.length ≤ 1 * (index - 2 ^ 37) := by omega
      _ ≤ width * (index - 2 ^ 37) := Nat.mul_le_mul_right _ wide
      _ ≤ generator.position + width * (index - 2 ^ 37) := Nat.le_add_left _ _
  have again := block_add_period after
  rw [before] at again
  have refused := first.earlier (index - 2 ^ 37) (by omega)
  rw [← again, first.reads] at refused
  cases refused

/-- The search finds the first block that can be read wherever it is. -/
theorem firstOf?_eq (wide : 0 < width) (first : generator.IsFirst read width index found) :
    firstOf? read width generator.period generator =
      (some found, generator.skip (width * (index + 1))) :=
  firstOf?_of_lt first (first.lt_period wide)

theorem firstOf?_isSome_iff (wide : 0 < width) :
    (firstOf? read width generator.period generator).1.isSome ↔
      ∃ index, (read (generator.block width index)).isSome := by
  constructor
  · intro yields
    obtain ⟨found, yields⟩ := Option.isSome_iff_exists.mp yields
    obtain ⟨index, reads⟩ := exists_of_firstOf? yields
    exact ⟨index, Option.isSome_iff_exists.mpr ⟨found, reads⟩⟩
  · intro some
    obtain ⟨index, found, first⟩ := exists_isFirst some
    rw [firstOf?_eq wide first]
    rfl

end Period

/-- The first block that denotes a number below the bound. -/
structure IsFirstBelow (generator : Generator) (bound width index : Nat) : Prop where
  below : (generator.block width index).toNat < bound
  earlier : ∀ other < index, bound ≤ (generator.block width other).toNat

section Below

variable {generator : Generator} {bound width index : Nat}

theorem exists_isFirstBelow (some : ∃ index, (generator.block width index).toNat < bound) :
    ∃ index, generator.IsFirstBelow bound width index := by
  refine ⟨Nat.find some, Nat.find_spec some, ?_⟩
  intro other before
  exact Nat.not_lt.mp (Nat.find_min some before)

theorem IsFirstBelow.unique {other : Nat} (first : generator.IsFirstBelow bound width index)
    (second : generator.IsFirstBelow bound width other) : index = other := by
  by_contra different
  rcases Nat.lt_or_gt_of_ne different with before | after
  · exact absurd first.below (Nat.not_lt.mpr (second.earlier index before))
  · exact absurd second.below (Nat.not_lt.mpr (first.earlier other after))

theorem IsFirstBelow.isFirst (first : generator.IsFirstBelow bound width index) :
    generator.IsFirst (below? bound) width index (generator.block width index).toNat where
  reads := if_pos first.below
  earlier other before := if_neg (Nat.not_lt.mpr (first.earlier other before))

/-- The search finds the first block below the bound wherever it is. -/
theorem firstBelow?_eq (wide : 0 < width) (first : generator.IsFirstBelow bound width index) :
    firstBelow? bound width generator.period generator =
      (some (generator.block width index).toNat, generator.skip (width * (index + 1))) :=
  firstOf?_eq wide first.isFirst

end Below
end Generator
end CredentialSigning
