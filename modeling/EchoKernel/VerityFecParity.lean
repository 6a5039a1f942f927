import Mathlib.Algebra.Group.Nat.Defs

namespace EchoKernel.VerityFec

/-!
# The parity bytes of the Reed-Solomon blocks

`fec_read_parity` and the loop of `fec_decode_bufs` of `dm-verity-fec.c`, as
the places where the parity bytes are read.
-/

/-- Data block size and roots, as the constructors accept them. -/
structure Fec where
  dataDevBlockBits : ℕ
  roots : ℕ
  isSize : dataDevBlockBits < 32
  isRoots : 255 - 253 ≤ roots ∧ roots ≤ 255 - 231

/-- A block of the parity area, and an offset in its buffer. -/
structure Parity where
  block : ℕ
  offset : ℕ
  deriving DecidableEq

/-- A call of `fec_decode_rs8`, for a byte of the output. -/
structure Call where
  blockOffset : ℕ
  parity : Parity
  deriving DecidableEq

namespace Fec

variable (v : Fec) (rsb : ℕ)

/-- The block size of both devices. -/
def blockSize : ℕ := 2 ^ v.dataDevBlockBits

/-- `fec_read_parity`: where the parity of an RS block begins. -/
def fecReadParity (index : ℕ) : Parity :=
  let position := (index + rsb) * v.roots % 2 ^ 64
  let block := position / v.blockSize
  ⟨block, position - block * v.blockSize⟩

/-- The loop of `fec_decode_bufs`, over the blocks left. -/
def decodeLoop : (left blockOffset : ℕ) → Parity → List Call
  | 0, _, _ => []
  | left + 1, blockOffset, par =>
    ⟨blockOffset, par⟩ ::
      if v.blockSize ≤ blockOffset + 1 then []
      -- read the next block when we run out of parity bytes
      else if v.blockSize ≤ par.offset + v.roots then
        decodeLoop left (blockOffset + 1) (fecReadParity v rsb (blockOffset + 1))
      else decodeLoop left (blockOffset + 1) ⟨par.block, par.offset + v.roots⟩

/--
The calls of `fec_decode_bufs` up to the first that fails: `count` is at most
the number of blocks in the buffers.
-/
def fecDecodeBufs (count blockOffset : ℕ) : List Call :=
  decodeLoop v rsb count blockOffset (fecReadParity v rsb blockOffset)

/-- The parity stands at the place of its block. -/
structure Placed (blockOffset : ℕ) (par : Parity) : Prop where
  place : par.block * v.blockSize + par.offset = (rsb + blockOffset) * v.roots
  starts : par.offset < v.blockSize

variable {v rsb} {blockOffset count : ℕ} {par : Parity} {call : Call}

/-- Blocks are not empty. -/
theorem blockSize_pos : 0 < v.blockSize := Nat.two_pow_pos _

/-- A block's parity area is below the addresses' end. -/
theorem placed_fecReadParity
    (inArea : (rsb + v.blockSize) * v.roots ≤ 2 ^ 64)
    (inBlock : blockOffset < v.blockSize) :
    Placed v rsb blockOffset (fecReadParity v rsb blockOffset) := by
  have roots := v.isRoots
  have below : (blockOffset + rsb) * v.roots < 2 ^ 64 :=
    Nat.lt_of_lt_of_le (Nat.mul_lt_mul_of_pos_right (by omega) (by omega)) inArea
  have split := Nat.div_add_mod' ((blockOffset + rsb) * v.roots) v.blockSize
  have offset := Nat.mod_lt ((blockOffset + rsb) * v.roots) (blockSize_pos (v := v))
  rw [fecReadParity, Nat.mod_eq_of_lt below]
  refine ⟨?_, ?_⟩
  · dsimp only
    rw [Nat.add_comm rsb]
    omega
  · dsimp only
    omega

/-- Every call of the loop gets the parity of its own RS block. -/
theorem placed_of_mem_decodeLoop
    (inArea : (rsb + v.blockSize) * v.roots ≤ 2 ^ 64)
    (placed : Placed v rsb blockOffset par)
    (member : call ∈ decodeLoop v rsb count blockOffset par) :
    Placed v rsb call.blockOffset call.parity := by
  induction count generalizing blockOffset par with
  | zero => cases member
  | succ count inductionHypothesis =>
    rw [decodeLoop, List.mem_cons] at member
    rcases member with rfl | later
    · exact placed
    split at later
    · cases later
    split at later
    · exact inductionHypothesis (placed_fecReadParity inArea (by omega)) later
    refine inductionHypothesis ⟨?_, by dsimp only; omega⟩ later
    dsimp only
    rw [← Nat.add_assoc, placed.place, ← Nat.add_assoc rsb, Nat.succ_mul]

/-- A multiple of the roots leaves room for them. -/
theorem Placed.inside
    (placed : Placed v rsb blockOffset par)
    (divides : v.roots ∣ v.blockSize) :
    par.offset + v.roots ≤ v.blockSize := by
  have isMultiple : v.roots ∣ par.offset := by
    refine (Nat.dvd_add_right (Nat.dvd_mul_left_of_dvd divides par.block)).mp ?_
    rw [placed.place]
    exact Nat.dvd_mul_left ..
  have room := Nat.le_of_dvd (Nat.sub_pos_of_lt placed.starts) (Nat.dvd_sub divides isMultiple)
  have starts := placed.starts
  omega

/-- A call reads inside the buffer iff its parity does not go on in the next block. -/
theorem Placed.inside_iff
    (placed : Placed v rsb blockOffset par) :
    par.offset + v.roots ≤ v.blockSize ↔
      (rsb + blockOffset) * v.roots % v.blockSize + v.roots ≤ v.blockSize := by
  rw [← placed.place, Nat.mul_comm, Nat.mul_add_mod, Nat.mod_eq_of_lt placed.starts]

/-- The loop makes one call for each byte of the output. -/
theorem map_blockOffset_decodeLoop
    (rsb count : ℕ)
    (par : Parity)
    (inBlock : blockOffset < v.blockSize) :
    (decodeLoop v rsb count blockOffset par).map (·.blockOffset) =
      List.range' blockOffset (min count (v.blockSize - blockOffset)) := by
  induction count generalizing blockOffset par with
  | zero => rw [Nat.zero_min]; rfl
  | succ count inductionHypothesis =>
    obtain ⟨left, isLeft⟩ := Nat.exists_eq_add_of_lt inBlock
    have isMin : min (count + 1) (v.blockSize - blockOffset) = min count left + 1 := by omega
    rw [decodeLoop, List.map_cons, isMin, List.range'_succ]
    refine congrArg _ ?_
    split
    · have isEnd : min count left = 0 := by omega
      rw [isEnd]
      rfl
    have rest : v.blockSize - (blockOffset + 1) = left := by omega
    split
    · rw [inductionHypothesis _ (by omega), rest]
    · rw [inductionHypothesis _ (by omega), rest]

/-- The parity of this byte begins at the end of a buffer. -/
theorem blockSize_lt_last
    (notDivides : ¬ v.roots ∣ v.blockSize) :
    v.blockSize < (fecReadParity v 0 (v.blockSize / v.roots)).offset + v.roots := by
  have small : v.blockSize < 2 ^ 32 := Nat.pow_lt_pow_right (by decide) v.isSize
  have roots := v.isRoots
  have next := Nat.lt_div_mul_add (a := v.blockSize) (b := v.roots) (by omega)
  have below : v.blockSize / v.roots * v.roots < v.blockSize := by
    refine Nat.lt_of_le_of_ne (Nat.div_mul_le_self ..) fun same => notDivides ?_
    rw [← same]
    exact Nat.dvd_mul_left ..
  rw [fecReadParity, Nat.add_zero, Nat.mod_eq_of_lt (by omega)]
  dsimp only
  rw [Nat.div_eq_of_lt below]
  omega

/--
The parity of every block is read at its place and inside a buffer iff the
roots divide the block size.
-/
theorem fecDecodeBufs_reads_iff
    (v : Fec) :
    (∀ rsb blockOffset count, (rsb + v.blockSize) * v.roots ≤ 2 ^ 64 → blockOffset < v.blockSize →
      ∀ call ∈ fecDecodeBufs v rsb count blockOffset, Placed v rsb call.blockOffset call.parity ∧
        call.parity.offset + v.roots ≤ v.blockSize) ↔ v.roots ∣ v.blockSize := by
  refine ⟨?_, ?_⟩
  · intro reads
    have small : v.blockSize < 2 ^ 32 := Nat.pow_lt_pow_right (by decide) v.isSize
    have area := Nat.mul_le_mul_left v.blockSize v.isRoots.2
    have early := Nat.div_lt_self (blockSize_pos (v := v)) v.isRoots.1
    refine Decidable.byContradiction fun notDivides => ?_
    have inside := (reads 0 _ 1 (by rw [Nat.zero_add]; omega) early _ List.mem_cons_self).2
    exact Nat.not_lt.mpr inside (blockSize_lt_last notDivides)
  · intro divides rsb blockOffset count inArea inBlock call member
    have placed := placed_of_mem_decodeLoop inArea (placed_fecReadParity inArea inBlock) member
    exact ⟨placed, placed.inside divides⟩

/-- Twenty-four roots, with blocks of a page. -/
def pageFec : Fec := ⟨12, 24, by decide, by decide⟩

/-- The parity of RS block 170 ends behind its buffer. -/
theorem fecDecodeBufs_pageFec :
    ∃ call ∈ fecDecodeBufs pageFec 0 16 160,
    pageFec.blockSize < call.parity.offset + pageFec.roots :=
  ⟨⟨170, 0, 4080⟩, by decide +kernel, by decide⟩

end Fec

end EchoKernel.VerityFec
