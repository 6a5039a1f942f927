import EchoKernel.BadblocksRanges

namespace EchoKernel.Block

open Bisection RangeList BitVec List Nat

/-!
# Entries as ranges

What the masks and shifts of entries read and write, and where the search for
a block ends.
-/

section
variable {a l : BitVec 64}

section
variable (x : BitVec 64)

theorem toNat_bbOffset : (bbOffset x).toNat = x.toNat / 512 % 2 ^ 54 := by
  have shifted : bbOffset x = (x >>> 9) &&& BitVec.ofNat 64 (2 ^ 54 - 1) := by
    rw [bbOffset, ushiftRight_and_distrib]
    rfl
  rw [shifted, toNat_and, toNat_ushiftRight, shiftRight_eq_div_pow, toNat_ofNat,
    mod_eq_of_lt (by decide), and_two_pow_sub_one_eq_mod]

theorem toNat_bbLen : (bbLen x).toNat = x.toNat % 512 + 1 := by
  have masked : (x &&& 0x00000000000001FF).toNat = x.toNat % 512 :=
    (toNat_and ..).trans (and_two_pow_sub_one_eq_mod _ 9)
  rw [bbLen, toNat_add, masked]
  exact mod_eq_of_lt (by change x.toNat % 512 + 1 < _; omega)

theorem bbAck_eq : bbAck x = decide (2 ^ 63 ≤ x.toNat) := by
  have masked : x &&& 0x8000000000000000 = x &&& twoPow 64 63 := rfl
  have isMsb : bbAck x = x.msb := by
    rw [bbAck, masked, and_twoPow, msb_eq_getLsbD_last]
    cases x.getLsbD (64 - 1) <;> decide
  rw [isMsb, msb_eq_decide]

/-- The number of an entry whose block number and length fit. -/
theorem toNat_bbMake
    (fits : a.toNat < blockLimit)
    (positive : 0 < l.toNat)
    (short : l.toNat ≤ bbMaxLen)
    (ack : Bool) :
    (bbMake a l ack).toNat = (if ack then 2 ^ 63 else 0) + a.toNat * 512 + (l.toNat - 1) := by
  simp only [blockLimit, bbMaxLen] at fits short
  have shifted : (a <<< 9).toNat = a.toNat <<< 9 := by
    exact mod_eq_of_lt (by omega)
  have less : (l - 1).toNat = l.toNat - 1 := by bv_omega
  have lower : ((a <<< 9) ||| (l - 1)).toNat = a.toNat * 512 + (l.toNat - 1) := by
    rw [toNat_or, shifted, less, ← shiftLeft_add_eq_or_of_lt (by omega), Nat.shiftLeft_eq]
  have below : a.toNat * 512 + (l.toNat - 1) < 2 ^ 63 := by omega
  rw [bbMake, toNat_or, lower]
  cases ack with
  | false => simp
  | true =>
    have flag := two_pow_add_eq_or_of_lt below 1
    rw [Nat.or_comm, Nat.mul_one] at flag
    rw [if_pos rfl, if_pos rfl, Nat.add_assoc, flag]
    rfl

def rangeOf : Range := ⟨(bbOffset x).toNat, (bbOffset x).toNat + (bbLen x).toNat⟩

theorem rangeOf_bounds :
    (rangeOf x).start < (rangeOf x).stop ∧
    (rangeOf x).stop ≤ (rangeOf x).start + bbMaxLen ∧ (rangeOf x).start < blockLimit := by
  simp only [rangeOf, toNat_bbOffset, toNat_bbLen, bbMaxLen, blockLimit]
  omega

end

section
variable (fits : a.toNat < blockLimit) (positive : 0 < l.toNat) (short : l.toNat ≤ bbMaxLen)
  (ack : Bool)
include fits positive short ack

/-- An entry that fits is read as it was written. -/
theorem rangeOf_bbMake : rangeOf (bbMake a l ack) = ⟨a.toNat, a.toNat + l.toNat⟩ := by
  rw [rangeOf, toNat_bbOffset, toNat_bbLen, toNat_bbMake fits positive short ack]
  simp only [blockLimit, bbMaxLen] at fits short
  cases ack
  · simp only [Bool.false_eq_true, ↓reduceIte, Range.mk.injEq]
    omega
  · simp only [↓reduceIte, Range.mk.injEq]
    omega

theorem bbAck_bbMake : bbAck (bbMake a l ack) = ack := by
  rw [bbAck_eq, toNat_bbMake fits positive short ack]
  simp only [blockLimit, bbMaxLen] at fits short
  cases ack
  · rw [decide_eq_false_iff_not]
    simp only [Bool.false_eq_true, ↓reduceIte]
    omega
  · rw [decide_eq_true_iff]
    simp only [↓reduceIte]
    omega

end

/-- A length not above zero fills the block number with ones. -/
theorem rangeOf_bbMake_of_negative
    (negative : 2 ^ 64 - 511 ≤ (l - 1).toNat)
    (ack : Bool) :
    rangeOf (bbMake a l ack) = ⟨blockLimit - 1, blockLimit - 1 + ((l - 1).toNat % 512 + 1)⟩ := by
  have flagLow : (if ack then 0x8000000000000000 else 0 : BitVec 64).toNat % 2 ^ 9 = 0 := by
    cases ack <;> decide
  have shiftedLow : (a <<< 9).toNat % 2 ^ 9 = 0 := by
    rw [toNat_shiftLeft]
    omega
  have large : (l - 1).toNat ≤ (bbMake a l ack).toNat := by
    exact Nat.le_trans Nat.right_le_or Nat.left_le_or
  have low : (bbMake a l ack).toNat % 2 ^ 9 = (l - 1).toNat % 2 ^ 9 := by
    rw [bbMake, toNat_or, toNat_or, or_mod_two_pow,
      or_mod_two_pow, shiftedLow, flagLow, Nat.zero_or, Nat.or_zero]
  rw [rangeOf, toNat_bbOffset, toNat_bbLen, Range.mk.injEq, blockLimit]
  omega

end

variable {before : BitVec 64 → Bool} {page front back : List (BitVec 64)}

theorem entryAt_append_right
    (index : Nat) :
    entryAt (front ++ back) (front.length + index) = entryAt back index := by
  simp [entryAt, List.getElem?_append_right]

theorem entryAt_middle
    (entry : BitVec 64) :
    entryAt (front ++ entry :: back) front.length = entry := by
  have at0 := @entryAt_append_right front (entry :: back) 0
  rw [Nat.add_zero] at at0
  rw [at0]
  rfl

/-- The search ends at the last entry starting before the block. -/
theorem lastBefore_eq
    (inFront : ∀ entry ∈ front, before (bbOffset entry) = true)
    (inBack : ∀ entry ∈ back, before (bbOffset entry) = false)
    (nonempty : front ++ back ≠ []) :
    lastBefore before (front ++ back) = (max front.length 1 - 1, max front.length 1) := by
  have positive : 0 < (front ++ back).length := length_pos_iff.mpr nonempty
  have bounded : front.length ≤ (front ++ back).length := by simp
  refine bisect_eq (by omega) (by omega) (by omega) ?_
  intro index above below
  by_cases isFront : index < front.length
  · have entry : entryAt (front ++ back) index = front[index] := by
      simp [entryAt, List.getElem?_append_left isFront, isFront]
    rw [entry]
    exact iff_of_true (inFront _ (getElem_mem isFront)) (by omega)
  obtain ⟨rest, rfl⟩ := Nat.exists_eq_add_of_le (Nat.not_lt.mp isFront)
  have inRange : rest < back.length := by
    rw [length_append] at below
    omega
  have entry : entryAt back rest = back[rest] := by
    simp [entryAt, inRange]
  rw [entryAt_append_right, entry]
  refine iff_of_false ?_ (by omega)
  rw [inBack _ (getElem_mem inRange)]
  simp

/-- A table in order is divided by every block. -/
theorem exists_division
    (sorted : Sorted bbMaxLen (page.map rangeOf))
    (bound : Nat) :
    ∃ front back,
    page = front ++ back ∧ (∀ entry ∈ front, (bbOffset entry).toNat < bound) ∧ ∀ entry ∈ back,
    bound ≤ (bbOffset entry).toNat := by
  induction page with
  | nil => exact ⟨[], [], rfl, by simp, by simp⟩
  | cons entry rest inductionHypothesis =>
    rw [map_cons, sorted_cons] at sorted
    obtain ⟨nonempty, -, before, restSorted⟩ := sorted
    by_cases inFront : (bbOffset entry).toNat < bound
    · obtain ⟨front, back, shape, frontBelow, backAbove⟩ := inductionHypothesis restSorted
      refine ⟨entry :: front, back, by simp [shape], ?_, backAbove⟩
      exact forall_mem_cons.mpr ⟨inFront, frontBelow⟩
    refine ⟨[], entry :: rest, rfl, by simp, ?_⟩
    intro other member
    rcases mem_cons.mp member with rfl | inRest
    · exact Nat.not_lt.mp inFront
    have later := before (rangeOf other) (mem_map_of_mem inRest)
    have starts : (rangeOf entry).start = (bbOffset entry).toNat := rfl
    have otherStarts : (rangeOf other).start = (bbOffset other).toNat := rfl
    omega

end EchoKernel.Block
