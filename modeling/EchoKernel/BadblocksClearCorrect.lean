import EchoKernel.BadblocksClear

namespace EchoKernel.Block

/-!
# When `badblocks_clear` meets its contract

A request is cleared exactly, or refused, unless its ends lie in one block and
an entry around this block can be split.
-/

/-- The first block that starts in the request. -/
def firstWhole (shift s : Nat) : Nat := (s + (2 ^ shift - 1)) / 2 ^ shift

/-- The block in which the request ends, behind the last whole one. -/
def endWhole (shift s sectors : Nat) : Nat := (s + sectors) / 2 ^ shift

/-- Both ends lie in one block, or only whole blocks are between. -/
theorem firstWhole_le
    (shift s : Nat)
    {sectors : Nat}
    (positive : 0 < sectors) :
    firstWhole shift s ≤ endWhole shift s sectors + 1 := by
  have size : 0 < 2 ^ shift := Nat.two_pow_pos shift
  rw [firstWhole, endWhole]
  generalize 2 ^ shift = unit at size
  have below : s + (unit - 1) ≤ s + sectors + unit := by omega
  calc
    (s + (unit - 1)) / unit ≤ (s + sectors + unit) / unit := Nat.div_le_div_right below
    _ = (s + sectors) / unit + 1 := Nat.add_div_right _ size

variable {bb : Badblocks} {s : BitVec 64} {sectors : BitVec 32} {first target : BitVec 64}

/-- The code rounds to these blocks. -/
theorem exists_roundIn
    {shift : Nat}
    (small : sectors.toNat < 2 ^ 31)
    (isDefined : shift < 32)
    (inRange : s.toNat + sectors.toNat + 2 ^ shift ≤ 2 ^ 64) :
    ∃ first target,
    roundIn shift s sectors = some (first, target) ∧ first.toNat = firstWhole shift s.toNat ∧
    target.toNat = endWhole shift s.toNat sectors.toNat := by
  have unitPositive := Nat.two_pow_pos shift
  have extended := toNat_signExtend small
  have targetNat : (s + sectors.signExtend 64).toNat = s.toNat + sectors.toNat := by
    rw [BitVec.toNat_add, extended]
    exact Nat.mod_eq_of_lt (by omega)
  unfold roundIn
  by_cases unshifted : shift = 0
  · subst unshifted
    refine ⟨s, _, rfl, by simp [firstWhole], ?_⟩
    rw [targetNat]
    simp [endWhole]
  have startNat : (s + BitVec.ofNat 64 (2 ^ shift - 1)).toNat = s.toNat + (2 ^ shift - 1) := by
    rw [BitVec.toNat_add, BitVec.toNat_ofNat]
    omega
  simp only [unshifted, shiftMask, isDefined]
  refine ⟨_, _, rfl, ?_, ?_⟩
  · rw [BitVec.toNat_ushiftRight, Nat.shiftRight_eq_div_pow, startNat]
    rfl
  · rw [BitVec.toNat_ushiftRight, Nat.shiftRight_eq_div_pow, targetNat]
    rfl

theorem badblocksClear_of_undefined
    (undefined : ¬ bb.shift < 32) :
    badblocksClear bb s sectors = none := by
  have large : ¬ bb.shift.toNat < 32 := by omega
  have shifted : bb.shift.toNat ≠ 0 := by omega
  simp [badblocksClear, roundIn, shifted, shiftMask, large]

/-- When a request is cleared correctly. -/
def ClearCondition (bb : Badblocks) (s : BitVec 64) (sectors : BitVec 32) : Prop :=
  bb.shift < 32 ∧ ¬ (endWhole bb.shift.toNat s.toNat sectors.toNat <
          firstWhole bb.shift.toNat s.toNat ∧ bb.page.length < maxBadblocks ∧ ∃ entry ∈ bb.page,
          (rangeOf entry).start < endWhole bb.shift.toNat s.toNat sectors.toNat ∧
            endWhole bb.shift.toNat s.toNat sectors.toNat < (rangeOf entry).stop)

/--
What is asked of `badblocks_clear`: it is defined; without an error the table
is valid and has exactly the old blocks outside the request, with their flags;
with an error it is as before.
-/
def ClearCorrect (bb : Badblocks) (s : BitVec 64) (sectors : BitVec 32) : Prop :=
  ∃ next rv, badblocksClear bb s sectors = some (next, rv) ∧ (rv = none → ValidTable next.page ∧
          (∀ block, Bad next.page block ↔ Bad bb.page block ∧
                ¬ (firstWhole bb.shift.toNat s.toNat ≤ block ∧ block <
                    endWhole bb.shift.toNat s.toNat sectors.toNat)) ∧ ∀ block ack,
            Bad next.page block → (Flagged next.page block ack ↔ Flagged bb.page block ack)) ∧
      (rv ≠ none → next = bb)

/-- The contract is about each block with its flag. -/
theorem clearCorrect_of_cleared
    {next : Badblocks}
    (clears : badblocksClear bb s sectors = some (next, none))
    (cleared : Cleared (firstWhole bb.shift.toNat s.toNat)
      (endWhole bb.shift.toNat s.toNat sectors.toNat) bb.page next.page) :
    ClearCorrect bb s sectors := by
  have same : ∀ block, Bad next.page block ↔ Bad bb.page block ∧
      ¬ (firstWhole bb.shift.toNat s.toNat ≤ block ∧ block <
      endWhole bb.shift.toNat s.toNat sectors.toNat) := by
    intro block
    simp [bad_iff_flagged, cleared.flagged]
  refine ⟨next, none, clears, fun _ => ⟨cleared.valid, same, ?_⟩, fun isError => absurd rfl isError⟩
  intro block ack bad
  rw [cleared.flagged]
  exact and_iff_left ((same block).mp bad).2

theorem clearCorrect_of_none
    (rounds : roundIn bb.shift.toNat s sectors = some (first, target))
    (full : clearBlocks bb.page first target = none) :
    ClearCorrect bb s sectors := by
  refine ⟨bb, some .enospc, ?_, by simp, fun _ => rfl⟩
  simp only [badblocksClear, rounds, full]

theorem exists_badblocksClear
    {page : List (BitVec 64)}
    (rounds : roundIn bb.shift.toNat s sectors = some (first, target))
    (blocks : clearBlocks bb.page first target = some page) :
    ∃ next, badblocksClear bb s sectors = some (next, none) ∧ next.page = page := by
  simp only [badblocksClear, rounds, blocks]
  exact ⟨_, rfl, page_badblocksUpdateAcked _⟩

/-- `badblocks_clear` meets its contract iff no entry is split by a request inside one block. -/
theorem badblocksClear_correct_iff
    (valid : ValidTable bb.page)
    (positive : 0 < sectors.toInt)
    (inRange : bb.shift < 32 → s.toNat + sectors.toNat + 2 ^ bb.shift.toNat ≤ 2 ^ 64) :
    ClearCorrect bb s sectors ↔ ClearCondition bb s sectors := by
  by_cases isDefined : bb.shift < 32
  case neg =>
    refine iff_of_false ?_ fun condition => isDefined condition.1
    rintro ⟨next, rv, clears, -⟩
    rw [badblocksClear_of_undefined isDefined] at clears
    cases clears
  have small : sectors.toNat < 2 ^ 31 := by
    rw [BitVec.toInt_eq_toNat_cond] at positive
    omega
  have some : 0 < sectors.toNat := by
    refine toNat_pos ?_
    rintro rfl
    exact absurd positive (by decide)
  have close := firstWhole_le bb.shift.toNat s.toNat some
  obtain ⟨first, target, rounds, firstIs, targetIs⟩ :=
    exists_roundIn small (show bb.shift.toNat < 32 by omega) (inRange isDefined)
  rw [ClearCondition, and_iff_right isDefined, ← targetIs]
  by_cases ordered : first.toNat ≤ target.toNat
  · refine iff_of_true ?_ (by omega)
    rcases exists_clearBlocks valid ordered with
      full | ⟨page, blocks, cleared⟩
    · exact clearCorrect_of_none rounds full
    obtain ⟨next, clears, isPage⟩ := exists_badblocksClear rounds blocks
    refine clearCorrect_of_cleared clears ?_
    rw [isPage, ← firstIs, ← targetIs]
    exact cleared
  have inverted : first.toNat = target.toNat + 1 := by omega
  by_cases apart : ∃ entry ∈ bb.page, (rangeOf entry).start < target.toNat ∧
    target.toNat < (rangeOf entry).stop
  · obtain ⟨around, member, below, beyond⟩ := apart
    have splits := clearBlocks_of_around valid inverted member below beyond
    by_cases full : maxBadblocks ≤ bb.page.length
    · rw [if_pos full] at splits
      exact iff_of_true (clearCorrect_of_none rounds splits) (by omega)
    rw [if_neg full] at splits
    obtain ⟨page, blocks, notValid⟩ := splits
    obtain ⟨next, clears, isPage⟩ := exists_badblocksClear rounds blocks
    refine iff_of_false ?_ ?_
    · rintro ⟨actual, rv, actualClears, right, -⟩
      rw [clears] at actualClears
      cases actualClears
      exact notValid (isPage ▸ (right rfl).1)
    · exact fun condition => condition ⟨by omega, by omega, around, member, below, beyond⟩
  · have blocks := clearBlocks_of_inverted valid inverted apart
    obtain ⟨next, clears, isPage⟩ := exists_badblocksClear rounds blocks
    refine iff_of_true ?_ fun condition => apart condition.2.2
    refine clearCorrect_of_cleared clears ?_
    rw [isPage, ← targetIs]
    refine ⟨valid, ?_⟩
    intro block ack
    rw [iff_self_and]
    omega

/-- A table of blocks of eight sectors, the first four bad. -/
def fourBlocks : Badblocks where
  page := [bbMake 0 4 true]
  unackedExist := false
  shift := 3
  changed := false

theorem validTable_fourBlocks : ValidTable fourBlocks.page := by
  refine ⟨?_, by decide, ?_⟩
  · exact ⟨by decide, by decide, by decide⟩
  intro entry member
  rw [List.mem_singleton.mp member]
  decide

/-- Two sectors inside one block leave entries that overlap. -/
theorem not_clearCorrect_fourBlocks :
    ValidTable fourBlocks.page ∧ ¬ ClearCorrect fourBlocks 9 2 := by
  refine ⟨validTable_fourBlocks, ?_⟩
  rintro ⟨next, rv, clears, right, -⟩
  cases clears
  have ordered := (right rfl).1.sorted.ordered
  revert ordered
  decide

theorem badblocksClear_correct_fourBlocks : ClearCorrect fourBlocks 8 8 := by
  refine (badblocksClear_correct_iff validTable_fourBlocks (by decide)
    (by decide)).mpr ⟨by decide, ?_⟩
  rintro ⟨inverted, -⟩
  exact absurd inverted (by decide)

end EchoKernel.Block
