import EchoKernel.BadblocksSet
import Mathlib.Tactic.Ring

namespace EchoKernel.Block

open RangeList BitVec List Option Nat

/-!
# When `badblocks_set` is right

A request is added correctly exactly when the table meets `SetCondition`.
-/

/-- The block is in the table. -/
def Bad (page : List (BitVec 64)) (block : Nat) : Prop := Covers (page.map rangeOf) block

/--
The representation invariant: entries are in order without overlap, fit into
one page and have block numbers of 54 bits.
-/
structure ValidTable (page : List (BitVec 64)) : Prop where
  sorted : Sorted bbMaxLen (page.map rangeOf)
  counted : page.length ≤ maxBadblocks
  limited : ∀ entry ∈ page, (rangeOf entry).stop ≤ blockLimit

/-- The block with the first sector. -/
def firstBlock (shift s : Nat) : Nat := s / 2 ^ shift

/-- The first block after the last sector. -/
def endBlock (shift s sectors : Nat) : Nat := (s + sectors + (2 ^ shift - 1)) / 2 ^ shift

/-- A request has blocks, but not more than sectors. -/
theorem endBlock_bounds
    (shift s : Nat)
    {sectors : Nat}
    (positive : 0 < sectors) :
    firstBlock shift s < endBlock shift s sectors ∧
    endBlock shift s sectors ≤ firstBlock shift s + sectors := by
  have size : 0 < 2 ^ shift := Nat.two_pow_pos shift
  rw [firstBlock, endBlock]
  generalize 2 ^ shift = unit at size
  have division := div_add_mod s unit
  have small := mod_lt s size
  constructor
  · rw [lt_iff_add_one_le, Nat.le_div_iff_mul_le size]
    calc
      (s / unit + 1) * unit = unit * (s / unit) + unit := by ring
      _ ≤ s + sectors + (unit - 1) := by omega
  rw [← Nat.lt_add_one_iff, Nat.div_lt_iff_lt_mul size]
  obtain ⟨lessUnit, rfl⟩ := Nat.exists_eq_add_of_lt size
  obtain ⟨lessSectors, rfl⟩ := Nat.exists_eq_add_of_lt positive
  have expand : (s / (0 + lessUnit + 1) + (0 + lessSectors + 1) + 1) * (0 + lessUnit + 1) =
      (0 + lessUnit + 1) * (s / (0 + lessUnit + 1)) +
      lessUnit * lessSectors + 2 * lessUnit + lessSectors + 2 := by
    ring
  omega

/-- The quotient of a wrapped sum is wrapped as well. -/
theorem exists_wrapped_div
    {shift sum : Nat}
    (isDefined : shift < 32)
    (bounded : sum < 2 ^ 65) :
    ∃ wraps, 2 ^ 32 * wraps ≤ sum / 2 ^ shift ∧
    sum % 2 ^ 64 / 2 ^ shift = sum / 2 ^ shift - 2 ^ 32 * wraps := by
  by_cases small : sum < 2 ^ 64
  · exact ⟨0, by simp, by rw [mod_eq_of_lt small]; simp⟩
  have split : 2 ^ 64 = 2 ^ shift * (2 ^ 32 * 2 ^ (32 - shift)) := by
    rw [← Nat.pow_add, ← Nat.pow_add]
    congr 1
    omega
  refine ⟨2 ^ (32 - shift), ?_, ?_⟩
  · rw [Nat.le_div_iff_mul_le (Nat.two_pow_pos shift), Nat.mul_comm]
    omega
  · have wrapped : sum % 2 ^ 64 = sum - 2 ^ 64 := by omega
    rw [wrapped, split, sub_mul_div]

/-- The code rounds to these blocks, even when the sectors wrap. -/
theorem exists_roundOut
    {shift : Nat}
    {s : BitVec 64}
    {sectors : BitVec 32}
    (some : sectors ≠ 0)
    (positive : sectors.toNat < 2 ^ 31)
    (isDefined : shift < 32) :
    ∃ first count,
    roundOut shift s sectors = Option.some (first, count) ∧ first.toNat = firstBlock shift s.toNat ∧
    first.toNat + count.toNat = endBlock shift s.toNat sectors.toNat := by
  have bounds := endBlock_bounds shift s.toNat (toNat_pos some)
  unfold roundOut
  by_cases unshifted : shift = 0
  · subst unshifted
    exact ⟨s, sectors, rfl, by simp [firstBlock], by simp [endBlock]⟩
  simp only [unshifted, shiftMask, isDefined]
  have maskLimit : 2 ^ shift ≤ 2 ^ 31 := Nat.pow_le_pow_right (by decide) (by omega)
  have extended := toNat_signExtend positive
  have sumNat : (s + sectors.signExtend 64 + BitVec.ofNat 64 (2 ^ shift - 1)).toNat =
      (s.toNat + sectors.toNat + (2 ^ shift - 1)) % 2 ^ 64 := by
    rw [toNat_add, toNat_add, toNat_ofNat]
    omega
  obtain ⟨wraps, below, quotient⟩ :=
    @exists_wrapped_div shift (s.toNat + sectors.toNat + (2 ^ shift - 1)) isDefined (by omega)
  have firstNat : (s >>> shift).toNat = firstBlock shift s.toNat := by
    rw [toNat_ushiftRight, shiftRight_eq_div_pow]
    rfl
  have nextNat : ((s + sectors.signExtend 64 + BitVec.ofNat 64 (2 ^ shift - 1)) >>> shift).toNat =
      endBlock shift s.toNat sectors.toNat - 2 ^ 32 * wraps := by
    rw [toNat_ushiftRight, shiftRight_eq_div_pow, sumNat, quotient]
    rfl
  change 2 ^ 32 * wraps ≤ endBlock shift s.toNat sectors.toNat at below
  refine ⟨s >>> shift, _, rfl, firstNat, ?_⟩
  rw [toNat_setWidth, toNat_sub, firstNat]
  omega

variable {bb : Badblocks} {s : BitVec 64} {sectors : BitVec 32} {acknowledged : Bool}

/-- The last range that starts at or before a block. -/
def lastRange (page : List (BitVec 64)) (block : Nat) : Option Range :=
  ((page.map rangeOf).filter fun range => range.start ≤ block).getLast?

/-- The ranges that start after a block. -/
def laterRanges (page : List (BitVec 64)) (block : Nat) : List Range :=
  (page.map rangeOf).filter fun range => block < range.start

/-- When a request is added correctly. -/
def SetCondition (bb : Badblocks) (s : BitVec 64) (sectors : BitVec 32) : Prop :=
  bb.shift < 32 ∧ SetSafe (maxBadblocks - bb.page.length) (firstBlock bb.shift.toNat s.toNat)
      (endBlock bb.shift.toNat s.toNat sectors.toNat)
      (lastRange bb.page (firstBlock bb.shift.toNat s.toNat))
      (laterRanges bb.page (firstBlock bb.shift.toNat s.toNat))

/--
What is asked of `badblocks_set`: it is defined; with zero the table is valid
and has exactly the old blocks and those of the request; with one no block was
lost.
-/
def SetCorrect (bb : Badblocks) (s : BitVec 64) (sectors : BitVec 32)
    (acknowledged : Bool) : Prop :=
  ∃ next rv, badblocksSet bb s sectors acknowledged = some (next, rv) ∧ (rv = 0 →
        ValidTable next.page ∧ ∀ block, Bad next.page block ↔ Bad bb.page block ∨
                (firstBlock bb.shift.toNat s.toNat ≤ block ∧ block <
                    endBlock bb.shift.toNat s.toNat sectors.toNat)) ∧
      (rv = 1 → ∀ block, Bad bb.page block → Bad next.page block)

theorem page_badblocksUpdateAcked (bb : Badblocks) : (badblocksUpdateAcked bb).page = bb.page := by
  unfold badblocksUpdateAcked
  split <;> rfl

theorem exists_badblocksSet
    (enabled : 0 ≤ bb.shift)
    {first : BitVec 64}
    {count : BitVec 32}
    (rounds : roundOut bb.shift.toNat s sectors = some (first, count)) :
    ∃ next,
    badblocksSet bb s sectors acknowledged =
    some (next, (setBlocks bb.page first count acknowledged).2) ∧
    next.page = (setBlocks bb.page first count acknowledged).1 := by
  unfold badblocksSet
  simp only [Int.not_lt.mpr enabled, rounds]
  refine ⟨_, rfl, ?_⟩
  cases acknowledged
  · rfl
  · exact page_badblocksUpdateAcked _

/-- A request's first block divides a table in order. -/
theorem exists_split
    {page : List (BitVec 64)}
    (sorted : Sorted bbMaxLen (page.map rangeOf))
    (block : Nat) :
    ∃ (before : List (BitVec 64)) (low : Option (BitVec 64)) (back : List (BitVec 64)), page =
    before ++ low.toList ++ back ∧ (low = none → before = []) ∧
    (∀ entry ∈ before ++ low.toList, (rangeOf entry).start ≤ block) ∧
    (∀ entry ∈ back, block < (rangeOf entry).start) ∧ lastRange page block = low.map rangeOf ∧
    laterRanges page block = back.map rangeOf := by
  obtain ⟨front, back, shape, frontBelow, backAbove⟩ := exists_division sorted (block + 1)
  have frontStarts : ∀ range ∈ front.map rangeOf, range.start ≤ block := by
    exact forall_mem_map.mpr fun entry inFront => Nat.lt_succ_iff.mp (frontBelow entry inFront)
  have backStarts : ∀ range ∈ back.map rangeOf, block < range.start := by
    exact forall_mem_map.mpr backAbove
  have lowers : ((page.map rangeOf).filter fun range => range.start ≤ block) =
      front.map rangeOf := by
    rw [shape, map_append, filter_append, filter_eq_self.mpr, filter_eq_nil_iff.mpr, append_nil]
    · intro range member
      have := backStarts range member
      simp only [decide_eq_true_eq]
      omega
    · intro range member
      simpa using frontStarts range member
  have uppers : laterRanges page block = back.map rangeOf := by
    rw [laterRanges, shape, map_append, filter_append,
      filter_eq_nil_iff.mpr, filter_eq_self.mpr, nil_append]
    · intro range member
      simpa using backStarts range member
    intro range member
    have := frontStarts range member
    simp only [decide_eq_true_eq]
    omega
  rw [lastRange, lowers, uppers]
  rcases eq_nil_or_concat' front with rfl | ⟨before, low, rfl⟩
  · exact ⟨[], none, back, by simp [shape], by simp, by simp,
      fun entry member => backAbove entry member, rfl, rfl⟩
  refine ⟨before, some low, back, by simp [shape], by simp, ?_,
    fun entry member => backAbove entry member, by simp, rfl⟩
  intro entry member
  exact Nat.lt_succ_iff.mp (frontBelow entry (by simpa using member))

theorem badblocksSet_of_undefined
    (enabled : 0 ≤ bb.shift)
    (undefined : ¬ bb.shift < 32) :
    badblocksSet bb s sectors acknowledged = none := by
  have large : ¬ bb.shift.toNat < 32 := by omega
  have shifted : bb.shift.toNat ≠ 0 := by omega
  unfold badblocksSet
  simp [Int.not_lt.mpr enabled, roundOut, shifted, shiftMask, large]

/-- A table with the right blocks in order is valid. -/
theorem validTable_of_covers
    {page : List (BitVec 64)}
    (sorted : Sorted bbMaxLen (page.map rangeOf))
    (counted : page.length ≤ maxBadblocks)
    (inside : ∀ block, Bad page block → block < blockLimit) :
    ValidTable page := by
  refine ⟨sorted, counted, ?_⟩
  intro entry member
  have bounds := rangeOf_bounds entry
  have last : Bad page ((rangeOf entry).stop - 1) :=
    ⟨rangeOf entry, mem_map_of_mem member, by omega, by omega⟩
  have := inside _ last
  omega

theorem ValidTable.lt_limit
    {page : List (BitVec 64)}
    (valid : ValidTable page)
    {block : Nat}
    (bad : Bad page block) :
    block < blockLimit := by
  refine lt_of_covers ?_ bad
  exact forall_mem_map.mpr valid.limited

/-- `badblocks_set` adds a request correctly iff the table meets the condition. -/
theorem badblocksSet_correct_iff
    (valid : ValidTable bb.page)
    (enabled : 0 ≤ bb.shift)
    (positive : 0 < sectors.toInt)
    (inRange : endBlock bb.shift.toNat s.toNat sectors.toNat ≤ blockLimit) :
    SetCorrect bb s sectors acknowledged ↔ SetCondition bb s sectors := by
  by_cases isDefined : bb.shift < 32
  case neg =>
    refine iff_of_false ?_ fun condition => isDefined condition.1
    rintro ⟨next, rv, sets, -⟩
    rw [badblocksSet_of_undefined enabled isDefined] at sets
    cases sets
  have small : sectors.toNat < 2 ^ 31 := by
    rw [toInt_eq_toNat_cond] at positive
    omega
  have some : sectors ≠ 0 := by
    rintro rfl
    exact absurd positive (by decide)
  obtain ⟨first, count, rounds, firstIs, endIs⟩ :=
    @exists_roundOut bb.shift.toNat s sectors some small (by omega)
  have bounds := endBlock_bounds bb.shift.toNat s.toNat (toNat_pos some)
  obtain ⟨next, sets, samePage⟩ := exists_badblocksSet enabled rounds
  obtain ⟨before, low, back, shape, noLow, frontStarts, backStarts, lowIs, backIs⟩ :=
    exists_split valid.sorted first.toNat
  have countSmall : count.toNat < 2 ^ 31 := by omega
  have countSome : count ≠ 0 := by
    rintro rfl
    change first.toNat + 0 = _ at endIs
    omega
  obtain ⟨after, blocks, ranges⟩ :=
    exists_setBlocks noLow
      frontStarts backStarts (shape ▸ valid.limited) countSmall countSome
      (by omega)
  rw [← shape] at blocks ranges
  have rangeShape : bb.page.map rangeOf = before.map rangeOf ++ (low.map rangeOf).toList ++
      back.map rangeOf := by
    rw [shape]
    cases low <;> simp
  have iffSafe := @setRanges_iff (back.map rangeOf) (maxBadblocks - bb.page.length) first.toNat
    (first.toNat + count.toNat) (before.map rangeOf) (low.map rangeOf)
    (rangeShape ▸ valid.sorted)
    (by
      rw [← rangeShape]
      exact forall_mem_map.mpr fun entry inPage => valid.limited entry inPage)
    (by
      intro isNone
      rw [noLow (map_eq_none_iff.mp isNone)]
      rfl)
    (by
      intro range isLow
      obtain ⟨entry, isEntry, rfl⟩ := map_eq_some_iff.mp isLow
      exact frontStarts entry (by simp [isEntry]))
    (forall_mem_map.mpr backStarts)
    (by omega) (by omega)
  rw [SetCondition, and_iff_right isDefined, ← firstIs, ← endIs, lowIs,
    backIs, ← iffSafe, ← rangeShape, ← ranges, ← map_append]
  have page : next.page = before ++ after := by rw [samePage, blocks]
  have result : (setBlocks bb.page first count acknowledged).2 =
      if (setRanges (maxBadblocks - bb.page.length) first.toNat
      (first.toNat + count.toNat) (low.map rangeOf) (back.map rangeOf)).2 then 1 else 0 := by
    rw [blocks]
  have counted : (before ++ after).length ≤ maxBadblocks := by
    have grows := @length_setRanges_le (maxBadblocks - bb.page.length) first.toNat
      (first.toNat + count.toNat) (back.map rangeOf) (low.map rangeOf)
    have sameLength : bb.page.length = before.length + (low.map rangeOf).toList.length +
        back.length := by
      rw [shape]
      cases low with
      | none => simp
      | some entry =>
        simp only [length_append, toList_some, map_some, length_singleton]
    have bounded := valid.counted
    rw [← ranges, length_map, length_map] at grows
    rw [length_append]
    omega
  generalize (setRanges (maxBadblocks - bb.page.length) first.toNat
    (first.toNat + count.toNat) (low.map rangeOf) (back.map rangeOf)).2 = full at result
  constructor
  · rintro ⟨actual, rv, actualSets, exactly, nothingLost⟩
    rw [sets] at actualSets
    cases actualSets
    rw [result, page, ← firstIs, ← endIs] at exactly
    rw [result, page] at nothingLost
    cases full with
    | false =>
      obtain ⟨nextValid, same⟩ := exactly rfl
      exact ⟨fun _ => ⟨nextValid.sorted, same⟩, by simp⟩
    | true => exact ⟨by simp, fun _ => nothingLost rfl⟩
  intro right
  refine ⟨next, _, sets, ?_, ?_⟩
  · rw [result, page, ← firstIs, ← endIs]
    intro isZero
    cases full with
    | true => cases isZero
    | false =>
      obtain ⟨nextSorted, same⟩ := right.exactly rfl
      refine ⟨validTable_of_covers nextSorted counted ?_, same⟩
      intro block bad
      rcases (same block).mp bad with wasBad | inRequest
      · exact valid.lt_limit wasBad
      · omega
  · rw [result, page]
    intro isOne
    cases full with
    | false => cases isOne
    | true => exact right.nothingLost rfl

def threeRanges : Badblocks where
  page := [bbMake 10 2 true, bbMake 20 2 true, bbMake 30 2 true]
  unackedExist := false
  shift := 0
  changed := false

theorem validTable_threeRanges : ValidTable threeRanges.page := by
  have ranges : threeRanges.page.map rangeOf = [⟨10, 12⟩, ⟨20, 22⟩, ⟨30, 32⟩] := by decide
  refine ⟨?_, by decide, ?_⟩
  · exact ⟨by decide, by decide, by decide⟩
  intro entry member
  have inRanges := mem_map_of_mem (f := rangeOf) member
  rw [ranges] at inRanges
  simp only [mem_cons, not_mem_nil, or_false] at inRanges
  rcases inRanges with isRange | isRange | isRange
  all_goals
    rw [isRange]
    decide

/-- A request over three ranges loses the blocks after the second. -/
theorem not_setCorrect_threeRanges :
    ValidTable threeRanges.page ∧ ¬ SetCorrect threeRanges 5 35 true := by
  refine ⟨validTable_threeRanges, ?_⟩
  rintro ⟨next, rv, sets, exactly, -⟩
  cases sets
  obtain ⟨-, same⟩ := exactly rfl
  have requested := (same 25).mpr (.inr ⟨by decide, by decide⟩)
  revert requested
  unfold Bad Covers
  decide

theorem badblocksSet_correct_threeRanges : SetCorrect threeRanges 11 3 true := by
  refine (badblocksSet_correct_iff validTable_threeRanges (by decide)
    (by decide) (by decide)).mpr ⟨by decide, ?_⟩
  have low : lastRange threeRanges.page 11 = some ⟨10, 12⟩ := by decide
  have later : laterRanges threeRanges.page 11 = [⟨20, 22⟩, ⟨30, 32⟩] := by decide
  show SetSafe 509 11 14 (lastRange threeRanges.page 11) (laterRanges threeRanges.page 11)
  rw [low, later]
  simp [SetSafe, JoinSafe, bbMaxLen]

end EchoKernel.Block
