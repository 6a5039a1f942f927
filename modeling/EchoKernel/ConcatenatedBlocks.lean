import Mathlib.Algebra.Order.BigOperators.Group.List
import Mathlib.Algebra.Order.Group.Nat
import Mathlib.Algebra.GroupWithZero.Nat

namespace EchoKernel.ConcatenatedBlocks

open List

/-!
# Addresses in a concatenation of blocks

A translation that concatenates a block for every source item places block
`index` at `blockStart blocks index`.
-/

variable {α : Type}

section
variable (blocks : List (List α))

/-- The position of block `index` in the concatenation. -/
def blockStart (index : Nat) : Nat := ((blocks.take index).map length).sum

@[simp] theorem blockStart_zero : blockStart blocks 0 = 0 := by
  simp [blockStart]

theorem blockStart_succ
    {blocks : List (List α)}
    {index : Nat}
    {block : List α}
    (found : blocks[index]? = some block) :
    blockStart blocks (index + 1) = blockStart blocks index + block.length := by
  simp [blockStart, take_add_one, found]

theorem blockStart_length : blockStart blocks blocks.length = blocks.flatten.length := by
  simp [blockStart]

end

theorem blockStart_congr
    {first second : List (List α)}
    (sameLengths : first.map length = second.map length)
    (index : Nat) :
    blockStart first index = blockStart second index := by
  simp [blockStart, sameLengths]

/-- Blocks of bounded length have bounded starts. -/
theorem blockStart_le_mul
    {blocks : List (List α)}
    {bound : Nat}
    (short : ∀ block ∈ blocks, block.length ≤ bound)
    (index : Nat) :
    blockStart blocks index ≤ index * bound := by
  have summed : blockStart blocks index ≤ ((blocks.take index).map length).length * bound := by
    apply sum_le_card_nsmul
    exact List.forall_mem_map.mpr fun block blockMember => short block (mem_of_mem_take blockMember)
  calc
    blockStart blocks index ≤ ((blocks.take index).map length).length * bound := summed
    _ ≤ index * bound := by
      apply Nat.mul_le_mul_right
      simp

/-- Item `offset` of a block is that far from the block's start. -/
theorem getElem?_flatten
    {blocks : List (List α)}
    {index : Nat}
    {block : List α}
    (found : blocks[index]? = some block)
    {offset : Nat}
    (inside : offset < block.length) :
    blocks.flatten[blockStart blocks index + offset]? = block[offset]? := by
  induction blocks generalizing index with
  | nil => simp at found
  | cons head rest inductionHypothesis =>
    cases index with
    | zero =>
      simp only [getElem?_cons_zero, Option.some.injEq] at found
      subst found
      simp [getElem?_append_left inside]
    | succ index =>
      have start : blockStart (head :: rest) (index + 1) = head.length + blockStart rest index := by
        simp [blockStart]
      rw [start, flatten_cons, Nat.add_assoc,
        getElem?_append_right (Nat.le_add_right _ _), Nat.add_sub_cancel_left]
      exact inductionHypothesis found

/-- Every item of the concatenation is in a block. -/
theorem exists_block_of_getElem?
    {blocks : List (List α)}
    {position : Nat}
    {item : α}
    (found : blocks.flatten[position]? = some item) :
    ∃ index block offset, blocks[index]? =
    some block ∧ block[offset]? = some item ∧ position = blockStart blocks index + offset := by
  induction blocks generalizing position with
  | nil => simp at found
  | cons head rest inductionHypothesis =>
    rw [flatten_cons] at found
    by_cases inHead : position < head.length
    · rw [getElem?_append_left inHead] at found
      exact ⟨0, head, position, rfl, found, by simp⟩
    rw [getElem?_append_right (not_lt.mp inHead)] at found
    obtain ⟨index, block, offset, blockFound, itemFound, shape⟩ := inductionHypothesis found
    refine ⟨index + 1, block, offset, blockFound, itemFound, ?_⟩
    have start : blockStart (head :: rest) (index + 1) = head.length + blockStart rest index := by
      simp [blockStart]
    omega

end EchoKernel.ConcatenatedBlocks
