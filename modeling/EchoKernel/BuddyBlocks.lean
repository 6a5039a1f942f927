import Mathlib.Data.Nat.Bitwise
import Mathlib.Order.Interval.Set.Disjoint
import Mathlib.Order.CompletePartialOrder

namespace EchoKernel.BuddyBlocks

open Nat

/-!
# Blocks of a binary buddy system

A block of an order starts at a multiple of its size.  A block and its buddy
are the halves of their parent.
-/

section
variable (base order : Nat)

def block : Set Nat := Set.Ico base (base + 2 ^ order)

/-- The other half of the block of the next order. -/
def buddy : Nat := base ^^^ 2 ^ order

/-- Where the block of the next order starts. -/
def parent : Nat := buddy base order &&& base

/-- A block that starts at a multiple of its size. -/
def Aligned : Prop := 2 ^ order ∣ base

end

variable {base order number : Nat}

theorem mem_block : number ∈ block base order ↔ base ≤ number ∧ number < base + 2 ^ order := Iff.rfl

theorem base_mem_block : base ∈ block base order :=
  mem_block.mpr ⟨le_rfl, Nat.lt_add_of_pos_right (Nat.two_pow_pos _)⟩

theorem xor_one_cases
    (half : Nat) :
    half % 2 = 0 ∧ half ^^^ 1 = half + 1 ∨ half % 2 = 1 ∧ half ^^^ 1 = half - 1 := by
  rcases even_or_odd half with even | odd
  · exact .inl ⟨Nat.even_iff.mp even, xor_one_of_even even⟩
  · exact .inr ⟨Nat.odd_iff.mp odd, xor_one_of_odd odd⟩

theorem xor_one_and (half : Nat) : (half ^^^ 1) &&& half = 2 * (half / 2) := by
  rw [and_xor_distrib_right, Nat.and_self, one_and_eq_mod_two]
  rcases xor_one_cases half with ⟨even, -⟩ | ⟨odd, pair⟩
  · rw [even, xor_zero]
    omega
  · rw [odd, pair]
    omega

theorem buddy_mul (half : Nat) : buddy (2 ^ order * half) order = 2 ^ order * (half ^^^ 1) := by
  have shifted (number : Nat) : 2 ^ order * number = number <<< order := by
    rw [shiftLeft_eq, Nat.mul_comm]
  rw [buddy, shifted, shifted, shiftLeft_xor_distrib, shiftLeft_eq 1, Nat.one_mul]

theorem parent_mul
    (half : Nat) :
    parent (2 ^ order * half) order = 2 ^ (order + 1) * (half / 2) := by
  have shifted (number : Nat) : 2 ^ order * number = number <<< order := by
    rw [shiftLeft_eq, Nat.mul_comm]
  rw [parent, buddy_mul, shifted, shifted, ← shiftLeft_and_distrib,
    xor_one_and, ← shifted, Nat.pow_succ, Nat.mul_assoc]

theorem Aligned.buddy (aligned : Aligned base order) : Aligned (buddy base order) order := by
  obtain ⟨half, rfl⟩ := aligned
  rw [buddy_mul]
  exact Nat.dvd_mul_right _ _

theorem Aligned.parent
    (aligned : Aligned base order) :
    Aligned (parent base order) (order + 1) := by
  obtain ⟨half, rfl⟩ := aligned
  rw [parent_mul]
  exact Nat.dvd_mul_right _ _

theorem buddy_buddy : buddy (buddy base order) order = base := by
  rw [buddy, buddy, Nat.xor_assoc, Nat.xor_self, xor_zero]

section
variable (aligned : Aligned base order)
include aligned

/-- Which of the halves a block is. -/
theorem Aligned.halves :
    BuddyBlocks.parent base order = base ∧ BuddyBlocks.buddy base order =
    base + 2 ^ order ∨ base = BuddyBlocks.parent base order + 2 ^ order ∧
    BuddyBlocks.buddy base order = BuddyBlocks.parent base order := by
  obtain ⟨half, rfl⟩ := aligned
  rw [parent_mul, buddy_mul, Nat.pow_succ, Nat.mul_assoc]
  rcases xor_one_cases half with ⟨even, isBuddy⟩ | ⟨odd, isBuddy⟩
  · left
    rw [isBuddy, show 2 * (half / 2) = half by omega, Nat.mul_add, Nat.mul_one]
    exact ⟨rfl, rfl⟩
  right
  have above : half = 2 * (half / 2) + 1 := by omega
  rw [isBuddy, show half - 1 = 2 * (half / 2) by omega]
  refine ⟨?_, rfl⟩
  conv_lhs => rw [above]
  rw [Nat.mul_add, Nat.mul_one]

theorem Aligned.block_parent :
    block (BuddyBlocks.parent base order) (order + 1) =
    block base order ∪ block (BuddyBlocks.buddy base order) order := by
  ext number
  rw [Set.mem_union, mem_block, mem_block, mem_block]
  rcases aligned.halves with ⟨isParent, isBuddy⟩ | ⟨isBase, isBuddy⟩ <;> omega

theorem Aligned.not_mem_buddy
    (member : number ∈ block base order) :
    number ∉ block (BuddyBlocks.buddy base order) order := by
  rw [mem_block] at member ⊢
  rcases aligned.halves with ⟨isParent, isBuddy⟩ | ⟨isBase, isBuddy⟩ <;> omega

theorem Aligned.buddy_ne : BuddyBlocks.buddy base order ≠ base := by
  intro same
  have outside := aligned.not_mem_buddy base_mem_block
  rw [same] at outside
  exact outside base_mem_block

end

theorem Aligned.upper
    (aligned : Aligned base (order + 1)) :
    Aligned base order ∧ BuddyBlocks.buddy base order = base + 2 ^ order := by
  obtain ⟨count, rfl⟩ := aligned
  have isBase : 2 ^ (order + 1) * count = 2 ^ order * (2 * count) := by
    rw [Nat.pow_succ, Nat.mul_assoc]
  rw [isBase]
  refine ⟨Nat.dvd_mul_right _ _, ?_⟩
  rw [buddy_mul, xor_one_of_even (even_two_mul count), Nat.mul_add, Nat.mul_one]

variable {limit : Nat}

/-- The index of an aligned base inside a block of the limit. -/
theorem index_eq
    (aligned : Aligned base order)
    (below : order ≤ limit) :
    ∃ high half, base =
    2 ^ order * (2 ^ (limit - order) * high + half) ∧ base % 2 ^ limit = 2 ^ order * half := by
  obtain ⟨count, rfl⟩ := aligned
  have size : 2 ^ limit = 2 ^ order * 2 ^ (limit - order) := by
    rw [← Nat.pow_add, Nat.add_sub_cancel' below]
  refine ⟨count / 2 ^ (limit - order), count % 2 ^ (limit - order), ?_, ?_⟩
  · rw [div_add_mod]
  · rw [size, mul_mod_mul_left]

/-- The buddy of a number is found with its index. -/
theorem add_buddy_index
    (aligned : Aligned base order)
    (below : order < limit) :
    base + buddy (base % 2 ^ limit) order - base % 2 ^ limit = buddy base order := by
  obtain ⟨high, half, isBase, isIndex⟩ := index_eq aligned below.le
  have even : 2 ^ (limit - order) * high % 2 = 0 := by
    rw [mul_mod, show limit - order = limit - order - 1 + 1 by omega, Nat.pow_succ]
    simp
  rw [isIndex, isBase, buddy_mul, buddy_mul]
  generalize 2 ^ (limit - order) * high = count at even
  have distributed : 2 ^ order * (count + half) =
    2 ^ order * count + 2 ^ order * half := Nat.mul_add _ _ _
  have sum : (count + half) ^^^ 1 = count + (half ^^^ 1) := by
    rcases xor_one_cases half with ⟨_, isHalf⟩ | ⟨_, isHalf⟩ <;>
      rcases xor_one_cases (count + half) with ⟨_, isSum⟩ | ⟨_, isSum⟩ <;> omega
  rw [sum, Nat.mul_add (2 ^ order) count (half ^^^ 1)]
  omega

/-- The parent of a number is found with its index. -/
theorem add_parent_index
    (aligned : Aligned base order)
    (below : order < limit) :
    base + parent (base % 2 ^ limit) order - base % 2 ^ limit = parent base order ∧
    parent (base % 2 ^ limit) order = parent base order % 2 ^ limit := by
  obtain ⟨high, half, isBase, isIndex⟩ := index_eq aligned below.le
  have size : 2 ^ limit = 2 ^ (order + 1) * 2 ^ (limit - order - 1) := by
    rw [← Nat.pow_add]
    exact congrArg _ (by omega)
  have twice : 2 ^ (limit - order) * high = 2 * (2 ^ (limit - order - 1) * high) := by
    rw [← Nat.mul_assoc, ← Nat.pow_succ', show (limit - order - 1).succ = limit - order by omega]
  rw [isIndex, isBase, twice, parent_mul, parent_mul]
  generalize counted : 2 ^ (limit - order - 1) * high = count
  have quotient : (2 * count + half) / 2 = count + half / 2 := by omega
  have parts : 2 ^ order * half = 2 ^ (order + 1) * (half / 2) + 2 ^ order * (half % 2) := by
    rw [Nat.pow_succ, Nat.mul_assoc, ← Nat.mul_add, div_add_mod]
  constructor
  · have distributed : 2 ^ order * (2 * count + half) =
        2 ^ (order + 1) * count + 2 ^ order * half := by
      rw [Nat.mul_add, Nat.pow_succ, Nat.mul_assoc]
    rw [quotient, Nat.mul_add (2 ^ (order + 1)) count (half / 2)]
    omega
  · rw [quotient, ← counted, Nat.mul_add, ← Nat.mul_assoc, ← size,
      mul_add_mod, mod_eq_of_lt (by omega)]

end EchoKernel.BuddyBlocks
