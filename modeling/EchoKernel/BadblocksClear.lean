import EchoKernel.BadblocksSetCorrect
import Mathlib.Data.List.Induction

namespace EchoKernel.Block

open RangeList List Nat
open BitVec hiding and_self

/-!
# When `badblocks_clear` is right

The start of a request is rounded up and its end down. When both lie in one
block, the end comes first, and an entry around that block is split into two
that overlap. Otherwise exactly the blocks of the request go.
-/

/-- The block is in the table with this flag. -/
def Flagged (page : List (BitVec 64)) (block : Nat) (ack : Bool) : Prop :=
  ∃ entry ∈ page, ((rangeOf entry).start ≤ block ∧ block < (rangeOf entry).stop) ∧ bbAck entry = ack

section
variable {first second : List (BitVec 64)} {entry : BitVec 64} {block : Nat} {ack : Bool}

@[simp]
theorem flagged_nil : ¬ Flagged [] block ack := by
  simp [Flagged]

@[simp]
theorem flagged_cons :
    Flagged (entry :: second) block ack ↔
    (((rangeOf entry).start ≤ block ∧ block < (rangeOf entry).stop) ∧ bbAck entry = ack) ∨
    Flagged second block ack := by
  simp [Flagged]

@[simp]
theorem flagged_append :
    Flagged (first ++ second) block ack ↔ Flagged first block ack ∨ Flagged second block ack := by
  simp [Flagged, or_and_right, exists_or]

theorem bad_iff_flagged
    {page : List (BitVec 64)} :
    Bad page block ↔ ∃ ack, Flagged page block ack := by
  constructor
  · rintro ⟨range, member, inside⟩
    obtain ⟨entry, inPage, rfl⟩ := mem_map.mp member
    exact ⟨bbAck entry, entry, inPage, inside, rfl⟩
  · rintro ⟨ack, entry, inPage, inside, -⟩
    exact ⟨rangeOf entry, mem_map_of_mem inPage, inside⟩

theorem le_of_flagged
    {bound : Nat}
    (above : ∀ entry ∈ first, bound ≤ (rangeOf entry).start)
    (flagged : Flagged first block ack) :
    bound ≤ block := by
  obtain ⟨entry, member, inside, -⟩ := flagged
  exact (above entry member).trans inside.1

theorem lt_of_flagged
    {bound : Nat}
    (below : ∀ entry ∈ first, (rangeOf entry).stop ≤ bound)
    (flagged : Flagged first block ack) :
    block < bound := by
  obtain ⟨entry, member, inside, -⟩ := flagged
  exact inside.2.trans_le (below entry member)

end

variable {s target : BitVec 64}

/-- What is kept of entries before the target. -/
structure KeptBelow (s : Nat) (entries kept : List (BitVec 64)) : Prop where
  sorted : Sorted bbMaxLen (kept.map rangeOf)
  stops : ∀ bound, (∀ entry ∈ entries, (rangeOf entry).stop ≤ bound) →
      ∀ entry ∈ kept, (rangeOf entry).stop ≤ bound
  flagged : ∀ block ack, Flagged kept block ack ↔ Flagged entries block ack ∧ block < s

/-- The numbers of an entry cut at its start or end. -/
theorem cut_entry
    {entry a z : BitVec 64}
    (positive : a.toNat < z.toNat)
    (fromStart : (rangeOf entry).start ≤ a.toNat)
    (toStop : z.toNat ≤ (rangeOf entry).stop)
    (fits : a.toNat < blockLimit)
    (ack : Bool) :
    rangeOf (bbMake a (z - a) ack) = ⟨a.toNat, z.toNat⟩ ∧ bbAck (bbMake a (z - a) ack) = ack := by
  have bounds := rangeOf_bounds entry
  have length : (z - a).toNat = z.toNat - a.toNat := by bv_omega
  have short : (z - a).toNat ≤ bbMaxLen := by omega
  refine ⟨?_, bbAck_bbMake fits (by omega) short ack⟩
  rw [rangeOf_bbMake fits (by omega) short ack]
  congr 1
  omega

/-- Going down from the last entry keeps what is below `s`. -/
theorem exists_dropRanges
    {entries : List (BitVec 64)}
    (sorted : Sorted bbMaxLen (entries.map rangeOf))
    (starts : ∀ entry ∈ entries, (rangeOf entry).start < target.toNat)
    (limited : ∀ entry ∈ entries, (rangeOf entry).stop ≤ blockLimit)
    (back : List (BitVec 64)) :
    ∃ kept dropped, dropRanges s target entries.length (entries ++ back) =
    (kept ++ (dropped ++ back), kept.length) ∧ kept.length + dropped.length = entries.length ∧
    KeptBelow s.toNat entries kept := by
  induction entries using reverseRecOn generalizing back with
  | nil => exact ⟨[], [], rfl, rfl, sorted_nil, by simp, by simp⟩
  | append_singleton earlier entry inductionHypothesis =>
    rw [map_append, sorted_append] at sorted
    obtain ⟨earlierSorted, entrySorted, apart⟩ := sorted
    have entryStarts := starts entry (by simp)
    have entryLimited := limited entry (by simp)
    have bounds := rangeOf_bounds entry
    have earlierStops : ∀ other ∈ earlier, (rangeOf other).stop ≤ (rangeOf entry).start :=
      fun other member => apart _ (mem_map_of_mem member) _ (by simp)
    have start : (rangeOf entry).start = (bbOffset entry).toNat := rfl
    have stopNat : (bbOffset entry + bbLen entry).toNat = (rangeOf entry).stop := by
      refine mod_eq_of_lt ?_
      change (rangeOf entry).stop < 2 ^ 64
      simp only [blockLimit] at entryLimited
      omega
    have position : (earlier ++ [entry]).length = earlier.length + 1 := by simp
    rw [position, ← append_cons, dropRanges]
    simp only [entryAt_middle]
    by_cases overlaps : s.toNat < (rangeOf entry).stop
    · have inside : s < bbOffset entry + bbLen entry ∧ bbOffset entry < target := by
        rw [lt_def, stopNat]
        exact ⟨overlaps, entryStarts⟩
      rw [if_pos inside]
      by_cases cut : (rangeOf entry).start < s.toNat
      · have cutBits : bbOffset entry < s := cut
        obtain ⟨range, flag⟩ := cut_entry cut le_rfl overlaps.le bounds.2.2 (bbAck entry)
        rw [if_pos cutBits]
        refine ⟨earlier ++ [bbMake (bbOffset entry) (s - bbOffset entry) (bbAck entry)],
          [], by simp, by simp, ?_, ?_, ?_⟩
        · rw [map_append, map_singleton, range]
          refine sorted_insert earlierSorted ?_ sorted_nil cut ?_ (by simp)
          · exact forall_mem_map.mpr earlierStops
          · omega
        · intro bound below
          rw [forall_mem_append, forall_mem_singleton, range] at *
          exact ⟨below.1, (by omega : s.toNat ≤ bound)⟩
        intro block ack
        rw [flagged_append, flagged_append, flagged_cons, flagged_cons, range, flag]
        simp only [flagged_nil, or_false]
        constructor
        · rintro (inEarlier | ⟨inCut, isAck⟩)
          · have := lt_of_flagged earlierStops inEarlier
            exact ⟨.inl inEarlier, by omega⟩
          · exact ⟨.inr ⟨⟨inCut.1, by omega⟩, isAck⟩, inCut.2⟩
        · rintro ⟨inEarlier | ⟨inEntry, isAck⟩, below⟩
          · exact .inl inEarlier
          · exact .inr ⟨⟨inEntry.1, below⟩, isAck⟩
      · have notCut : ¬ bbOffset entry < s := cut
        obtain ⟨kept, dropped, drops, lengths, keptBelow⟩ :=
          inductionHypothesis earlierSorted (fun other member => starts other (by simp [member]))
            (fun other member => limited other (by simp [member])) (entry :: back)
        rw [if_neg notCut, drops]
        refine ⟨kept, dropped ++ [entry], by simp, ?_, keptBelow.sorted, ?_, ?_⟩
        · simp only [length_append, length_singleton]
          omega
        · intro bound below
          exact keptBelow.stops bound (fun other member => below other (by simp [member]))
        intro block ack
        rw [keptBelow.flagged, flagged_append, flagged_cons]
        simp only [flagged_nil, or_false]
        constructor
        · rintro ⟨inEarlier, below⟩
          exact ⟨.inl inEarlier, below⟩
        rintro ⟨inEarlier | ⟨inEntry, -⟩, below⟩
        · exact ⟨inEarlier, below⟩
        · omega
    · have outside : ¬ (s < bbOffset entry + bbLen entry ∧ bbOffset entry < target) := by
        rw [lt_def, stopNat]
        exact fun both => overlaps both.1
      rw [if_neg outside]
      refine ⟨earlier ++ [entry], [], by simp, by simp, ?_, ?_, ?_⟩
      · rw [map_append]
        exact sorted_append.mpr ⟨earlierSorted, entrySorted, apart⟩
      · intro bound below
        exact below
      intro block ack
      rw [and_iff_left_of_imp]
      intro flagged
      refine lt_of_flagged (forall_mem_append.mpr ⟨?_, forall_mem_singleton.mpr ?_⟩) flagged
      · intro other inEarlier
        have := earlierStops other inEarlier
        omega
      · omega

variable {page before back : List (BitVec 64)} {last : BitVec 64}

/-- Nothing is left between the kept and the later entries. -/
theorem discard_eq
    {kept dropped : List (BitVec 64)}
    {hi : Nat}
    (lengths : kept.length + dropped.length = hi) :
    (if kept.length < hi then
    some ((kept ++ (dropped ++ back)).take kept.length ++ (kept ++ (dropped ++ back)).drop hi) else
    some (kept ++ (dropped ++ back))) = some (kept ++ back) := by
  split
  · have whole : kept ++ (dropped ++ back) = (kept ++ dropped) ++ back := by
      simp
    rw [take_left, whole, drop_left' (by simp [lengths])]
  · have nothing : dropped = [] := by
      rw [← length_eq_zero_iff]
      omega
    rw [nothing, nil_append]

/-- The search for the last entry before the target. -/
theorem lastBefore_target
    (starts : ∀ entry ∈ before ++ [last], (rangeOf entry).start < target.toNat)
    (later : ∀ entry ∈ back, target.toNat ≤ (rangeOf entry).start) :
    lastBefore (fun a => a < target) (before ++ last :: back) =
    (before.length, before.length + 1) := by
  rw [append_cons, lastBefore_eq]
  · simp
  · intro entry member
    exact decide_eq_true (starts entry member)
  · intro entry member
    exact decide_eq_false (Nat.not_lt.mpr (later entry member))
  · simp

/-- No entry starts before the target. -/
theorem clearBlocks_of_later
    (later : ∀ entry ∈ page, target.toNat ≤ (rangeOf entry).start) :
    clearBlocks page s target = some page := by
  unfold clearBlocks
  cases page with
  | nil => rfl
  | cons entry rest =>
    have search : lastBefore (fun a => a < target) (entry :: rest) = (0, 1) := by
      refine @lastBefore_eq _ [] (entry :: rest) (by simp) ?_ (by simp)
      intro other member
      exact decide_eq_false (Nat.not_lt.mpr (later other member))
    have outside : ¬ bbOffset entry < target := Nat.not_lt.mpr (later entry (by simp))
    have first : entryAt (entry :: rest) 0 = entry := rfl
    simp [search, keepTail, dropRanges, outside, first]

/-- What stays of the last entry behind the target. -/
abbrev tailOf (last target : BitVec 64) : BitVec 64 :=
  bbMake target (bbOffset last + bbLen last - target) (bbAck last)

section
variable (starts : ∀ entry ∈ before ++ [last], (rangeOf entry).start < target.toNat)
variable (later : ∀ entry ∈ back, target.toNat ≤ (rangeOf entry).start)
variable (limited : (rangeOf last).stop ≤ blockLimit)
include limited in
theorem toNat_finish : (bbOffset last + bbLen last).toNat = (rangeOf last).stop := by
  refine mod_eq_of_lt ?_
  change (rangeOf last).stop < 2 ^ 64
  simp only [blockLimit] at limited
  omega

include starts later limited

/-- The last entry is split if it lies on both sides. -/
theorem clearBlocks_split
    (beyond : target.toNat < (rangeOf last).stop)
    (front : (rangeOf last).start < s.toNat)
    (inside : s.toNat ≤ (rangeOf last).stop) :
    clearBlocks (before ++ last :: back) s target =
    if maxBadblocks ≤ (before ++ last :: back).length then none else
    some (before ++ bbMake (bbOffset last) (s - bbOffset last) (bbAck last) ::
    tailOf last target :: back) := by
  have finish := toNat_finish limited
  have starting := starts last (by simp)
  have overlaps : target < bbOffset last + bbLen last ∧ bbOffset last < target := by
    rw [lt_def, finish]
    exact ⟨beyond, starting⟩
  have frontBits : bbOffset last < s := front
  unfold clearBlocks
  simp only [lastBefore_target starts later, lt_succ_self, ↓reduceIte,
    keepTail, entryAt_middle, overlaps, and_self, frontBits]
  by_cases full : maxBadblocks ≤ (before ++ last :: back).length
  · rw [if_pos full, if_pos full]
  obtain ⟨range, -⟩ := cut_entry front le_rfl inside (rangeOf_bounds last).2.2 (bbAck last)
  generalize bbMake (bbOffset last) (s - bbOffset last) (bbAck last) = head at range
  have headStop : (rangeOf head).stop = s.toNat := by rw [range]
  have headFinish := @toNat_finish head (by omega)
  have reached : ¬ (s < bbOffset head + bbLen head ∧ bbOffset head < target) := by
    rw [lt_def, headFinish]
    omega
  have inserted : (before ++ head :: back).insertIdx (before.length + 1)
      (tailOf last target) = before ++ head :: tailOf last target :: back := by
    have := @insertIdx_length (before ++ [head]) back (tailOf last target)
    simpa using this
  have count : ((before.length : Int) + 1).toNat = before.length + 1 := by omega
  rw [if_neg full, if_neg full, set_middle]
  simp [inserted, dropRanges, entryAt_middle, reached]

/-- The last entry's part before the target is cleared. -/
theorem exists_clearBlocks_tail
    (sorted : Sorted bbMaxLen (before.map rangeOf))
    (others : ∀ entry ∈ before, (rangeOf entry).stop ≤ blockLimit)
    (beyond : target.toNat < (rangeOf last).stop)
    (front : ¬ (rangeOf last).start < s.toNat) :
    ∃ kept, clearBlocks (before ++ last :: back) s target =
    some (kept ++ tailOf last target :: back) ∧
    kept.length ≤ before.length ∧ KeptBelow s.toNat before kept := by
  have finish := toNat_finish limited
  have overlaps : target < bbOffset last + bbLen last ∧ bbOffset last < target := by
    rw [lt_def, finish]
    exact ⟨beyond, starts last (by simp)⟩
  have frontBits : ¬ bbOffset last < s := front
  obtain ⟨kept, dropped, drops, lengths, keptBelow⟩ :=
    exists_dropRanges sorted
      (fun entry member => starts entry (by simp [member])) others
      (tailOf last target :: back)
  have count : ((before.length : Int) - 1 + 1).toNat = before.length := by omega
  refine ⟨kept, ?_, by omega, keptBelow⟩
  unfold clearBlocks
  simp only [lastBefore_target starts later, lt_succ_self, ↓reduceIte,
    keepTail, entryAt_middle, overlaps, and_self, frontBits, set_middle,
    count, drops, discard_eq lengths]

/-- The last entry ends before the target. -/
theorem exists_clearBlocks_whole
    (sorted : Sorted bbMaxLen ((before ++ [last]).map rangeOf))
    (others : ∀ entry ∈ before, (rangeOf entry).stop ≤ blockLimit)
    (beyond : ¬ target.toNat < (rangeOf last).stop) :
    ∃ kept,
    clearBlocks (before ++ last :: back) s target = some (kept ++ back) ∧
    kept.length ≤ (before ++ [last]).length ∧ KeptBelow s.toNat (before ++ [last]) kept := by
  have finish := toNat_finish limited
  have apart : ¬ (target < bbOffset last + bbLen last ∧ bbOffset last < target) := by
    rw [lt_def, finish]
    exact fun both => beyond both.1
  obtain ⟨kept, dropped, drops, lengths, keptBelow⟩ :=
    exists_dropRanges sorted starts
      (forall_mem_append.mpr ⟨others, forall_mem_singleton.mpr limited⟩) back
  have count : ((before.length : Int) + 1).toNat = (before ++ [last]).length := by
    rw [length_append, length_singleton]
    omega
  have hiIs : before.length + 1 = (before ++ [last]).length := by simp
  refine ⟨kept, ?_, by omega, keptBelow⟩
  unfold clearBlocks
  simp only [lastBefore_target starts later, lt_succ_self, ↓reduceIte,
    keepTail, entryAt_middle, apart]
  rw [count, hiIs, append_cons before last back, drops]
  exact discard_eq lengths

end

/-- The next table is valid and has the old blocks outside the range. -/
structure Cleared (s target : Nat) (page next : List (BitVec 64)) : Prop where
  valid : ValidTable next
  flagged : ∀ block ack, Flagged next block ack ↔
        Flagged page block ack ∧ ¬ (s ≤ block ∧ block < target)

/-- Blocks of a valid table have numbers of 54 bits. -/
theorem Cleared.of_sorted
    {start finish : Nat}
    {next : List (BitVec 64)}
    (valid : ValidTable page)
    (sorted : Sorted bbMaxLen (next.map rangeOf))
    (counted : next.length ≤ maxBadblocks)
    (flagged : ∀ block ack, Flagged next block ack ↔
      Flagged page block ack ∧ ¬ (start ≤ block ∧ block < finish)) :
    Cleared start finish page next := by
  refine ⟨validTable_of_covers sorted counted ?_, flagged⟩
  intro block bad
  obtain ⟨ack, isFlagged⟩ := bad_iff_flagged.mp bad
  exact valid.lt_limit (bad_iff_flagged.mpr ⟨ack, ((flagged block ack).mp isFlagged).1⟩)

/-- A valid table with no entry before the target, or with a last one. -/
theorem exists_last
    (valid : ValidTable page)
    (target : BitVec 64) :
    (∀ entry ∈ page, target.toNat ≤ (rangeOf entry).start) ∨ ∃ before last back, page =
    before ++ last :: back ∧ (∀ entry ∈ before ++ [last], (rangeOf entry).start < target.toNat) ∧
    ∀ entry ∈ back, target.toNat ≤ (rangeOf entry).start := by
  obtain ⟨front, back, shape, starts, later⟩ := exists_division valid.sorted target.toNat
  rcases eq_nil_or_concat' front with rfl | ⟨before, last, rfl⟩
  · rw [shape]
    exact .inl later
  · exact .inr ⟨before, last, back, by simp [shape], starts, later⟩

/-- The order around the last entry of a valid table. -/
theorem sorted_around
    (sorted : Sorted bbMaxLen ((before ++ last :: back).map rangeOf)) :
    Sorted bbMaxLen (before.map rangeOf) ∧ Sorted bbMaxLen ((before ++ [last]).map rangeOf) ∧
    Sorted bbMaxLen (back.map rangeOf) ∧
    (∀ entry ∈ before, (rangeOf entry).stop ≤ (rangeOf last).start) ∧ ∀ entry ∈ back,
    (rangeOf last).stop ≤ (rangeOf entry).start := by
  rw [map_append, map_cons, sorted_append, sorted_cons] at sorted
  obtain ⟨beforeSorted, ⟨nonempty, short, after, backSorted⟩, apart⟩ := sorted
  have stops : ∀ entry ∈ before, (rangeOf entry).stop ≤ (rangeOf last).start :=
    fun entry member => apart _ (mem_map_of_mem member) _ (by simp)
  refine ⟨beforeSorted, ?_, backSorted, stops, fun entry member => after _ (mem_map_of_mem member)⟩
  rw [map_append]
  refine sorted_insert beforeSorted ?_ sorted_nil nonempty short (by simp)
  exact forall_mem_map.mpr stops

/-- The blocks of the request are cleared. -/
abbrev Clears (page : List (BitVec 64)) (s target : BitVec 64) : Prop :=
  ∃ next, clearBlocks page s target = some next ∧ Cleared s.toNat target.toNat page next

section
variable (valid : ValidTable (before ++ last :: back))
variable (starts : ∀ entry ∈ before ++ [last], (rangeOf entry).start < target.toNat)
variable (later : ∀ entry ∈ back, target.toNat ≤ (rangeOf entry).start)
include valid starts

/-- The end of the last entry, cut at the target. -/
theorem cut_last
    (beyond : target.toNat < (rangeOf last).stop) :
    rangeOf (tailOf last target) =
    ⟨target.toNat, (rangeOf last).stop⟩ ∧ bbAck (tailOf last target) = bbAck last := by
  have limited := valid.limited last (by simp)
  have starting := starts last (by simp)
  have finish := toNat_finish limited
  have cut := @cut_entry last target (bbOffset last + bbLen last) (by omega)
    starting.le (by omega) (by omega) (bbAck last)
  rwa [finish] at cut

include later

/-- All of the last entry is before the target. -/
theorem exists_cleared_whole
    (beyond : ¬ target.toNat < (rangeOf last).stop) :
    Clears (before ++ last :: back) s target := by
  obtain ⟨-, frontSorted, backSorted, stops, -⟩ := sorted_around valid.sorted
  have frontStops : ∀ entry ∈ before ++ [last], (rangeOf entry).stop ≤ target.toNat := by
    have bounds := rangeOf_bounds last
    intro entry member
    rcases mem_append.mp member with inBefore | isLast
    · have := stops entry inBefore
      omega
    · rw [mem_singleton.mp isLast]
      omega
  obtain ⟨kept, clears, shorter, keptBelow⟩ :=
    exists_clearBlocks_whole starts later
      (valid.limited last (by simp)) frontSorted
      (fun entry member => valid.limited entry (by simp [member])) beyond
  have keptStops := keptBelow.stops target.toNat frontStops
  have counted := valid.counted
  refine ⟨_, clears, .of_sorted valid ?_ ?_ ?_⟩
  · rw [map_append, sorted_append]
    refine ⟨keptBelow.sorted, backSorted, ?_⟩
    simp only [forall_mem_map]
    intro entry isEntry other isOther
    exact (keptStops entry isEntry).trans (later other isOther)
  · simp only [length_append, length_cons, length_nil] at shorter counted ⊢
    omega
  intro block ack
  have early := @lt_of_flagged _ block ack _ frontStops
  have late := @le_of_flagged back block ack _ later
  rw [flagged_append, append_cons, flagged_append, keptBelow.flagged]
  constructor
  · rintro (⟨flagged, below⟩ | flagged)
    · exact ⟨.inl flagged, by omega⟩
    · exact ⟨.inr flagged, fun inside => by have := late flagged; omega⟩
  · rintro ⟨flagged | flagged, outside⟩
    · exact .inl ⟨flagged, by have := early flagged; omega⟩
    · exact .inr flagged

/-- The last entry is on both sides of the request. -/
theorem exists_cleared_split
    (ordered : s.toNat ≤ target.toNat)
    (beyond : target.toNat < (rangeOf last).stop)
    (front : (rangeOf last).start < s.toNat) :
    clearBlocks (before ++ last :: back) s target = none ∨
    Clears (before ++ last :: back) s target := by
  obtain ⟨beforeSorted, -, backSorted, stops, after⟩ := sorted_around valid.sorted
  have bounds := rangeOf_bounds last
  have clears := clearBlocks_split starts later
    (valid.limited last (by simp)) beyond front (by omega)
  split at clears
  case isTrue full => exact .inl clears
  case isFalse room =>
    obtain ⟨headRange, headFlag⟩ := cut_entry front le_rfl (by omega) bounds.2.2 (bbAck last)
    obtain ⟨tailRange, tailFlag⟩ := cut_last valid starts beyond
    have start : (rangeOf last).start = (bbOffset last).toNat := rfl
    refine .inr ⟨_, clears, .of_sorted valid ?_ ?_ ?_⟩
    · rw [map_append, map_cons, map_cons, headRange, tailRange]
      refine sorted_insert beforeSorted ?_ ?_ front (by omega) ?_
      · exact forall_mem_map.mpr stops
      · refine sorted_cons.mpr ⟨beyond, ?_, ?_, backSorted⟩
        · show (rangeOf last).stop ≤ target.toNat + bbMaxLen
          omega
        · exact forall_mem_map.mpr after
      · intro range isHead
        cases isHead
        exact ordered
    · simp only [length_append, length_cons] at room ⊢
      omega
    intro block ack
    have early := @lt_of_flagged before block ack _ stops
    have late := @le_of_flagged back block ack _ later
    rw [flagged_append, flagged_cons, flagged_cons, flagged_append,
      flagged_cons, headRange, headFlag, tailRange, tailFlag]
    dsimp only
    constructor
    · rintro (flagged | ⟨inHead, isAck⟩ | ⟨inTail, isAck⟩ | flagged)
      · exact ⟨.inl flagged, by have := early flagged; omega⟩
      · exact ⟨.inr (.inl ⟨⟨inHead.1, by omega⟩, isAck⟩), by omega⟩
      · exact ⟨.inr (.inl ⟨⟨by omega, inTail.2⟩, isAck⟩), by omega⟩
      · exact ⟨.inr (.inr flagged), by have := late flagged; omega⟩
    · rintro ⟨flagged | ⟨inLast, isAck⟩ | flagged, outside⟩
      · exact .inl flagged
      · by_cases inHead : block < s.toNat
        · exact .inr (.inl ⟨⟨inLast.1, inHead⟩, isAck⟩)
        · exact .inr (.inr (.inl ⟨⟨by omega, inLast.2⟩, isAck⟩))
      · exact .inr (.inr (.inr flagged))

/-- Only the end of the last entry is kept. -/
theorem exists_cleared_tail
    (beyond : target.toNat < (rangeOf last).stop)
    (front : ¬ (rangeOf last).start < s.toNat) :
    Clears (before ++ last :: back) s target := by
  obtain ⟨beforeSorted, -, backSorted, stops, after⟩ := sorted_around valid.sorted
  have bounds := rangeOf_bounds last
  have starting := starts last (by simp)
  have counted := valid.counted
  obtain ⟨kept, clears, shorter, keptBelow⟩ :=
    exists_clearBlocks_tail starts later
      (valid.limited last (by simp)) beforeSorted
      (fun entry member => valid.limited entry (by simp [member])) beyond front
  obtain ⟨tailRange, tailFlag⟩ := cut_last valid starts beyond
  refine ⟨_, clears, .of_sorted valid ?_ ?_ ?_⟩
  · rw [map_append, map_cons, tailRange]
    refine sorted_insert keptBelow.sorted ?_ backSorted beyond (by omega) ?_
    · intro range member
      obtain ⟨entry, isEntry, rfl⟩ := mem_map.mp member
      have := keptBelow.stops _ stops entry isEntry
      omega
    · intro range isHead
      obtain ⟨entry, isEntry, rfl⟩ := mem_map.mp (mem_of_mem_head? isHead)
      exact after entry isEntry
  · simp only [length_append, length_cons] at shorter counted ⊢
    omega
  intro block ack
  have early := @lt_of_flagged before block ack _ stops
  have late := @le_of_flagged back block ack _ later
  rw [flagged_append, flagged_cons, keptBelow.flagged, flagged_append,
    flagged_cons, tailRange, tailFlag]
  dsimp only
  constructor
  · rintro (⟨flagged, below⟩ | ⟨inTail, isAck⟩ | flagged)
    · exact ⟨.inl flagged, by omega⟩
    · exact ⟨.inr (.inl ⟨⟨by omega, inTail.2⟩, isAck⟩), by omega⟩
    · exact ⟨.inr (.inr flagged), by have := late flagged; omega⟩
  · rintro ⟨flagged | ⟨inLast, isAck⟩ | flagged, outside⟩
    · exact .inl ⟨flagged, by have := early flagged; omega⟩
    · exact .inr (.inl ⟨⟨by omega, inLast.2⟩, isAck⟩)
    · exact .inr (.inr flagged)

end

/-- A request that is not inverted is cleared, or room is missing. -/
theorem exists_clearBlocks
    (valid : ValidTable page)
    (ordered : s.toNat ≤ target.toNat) :
    clearBlocks page s target = none ∨ Clears page s target := by
  rcases exists_last valid target with
    allLater | ⟨before, last, back, rfl, starts, later⟩
  · refine .inr ⟨page, clearBlocks_of_later allLater,
      .of_sorted valid valid.sorted valid.counted ?_⟩
    intro block ack
    rw [iff_self_and]
    intro flagged
    have := le_of_flagged allLater flagged
    omega
  by_cases beyond : target.toNat < (rangeOf last).stop
  · by_cases front : (rangeOf last).start < s.toNat
    · exact exists_cleared_split valid starts later ordered beyond front
    · exact .inr (exists_cleared_tail valid starts later beyond front)
  · exact .inr (exists_cleared_whole valid starts later beyond)

/-- An inverted request with no entry around leaves the table as it is. -/
theorem clearBlocks_of_inverted
    (valid : ValidTable page)
    (inverted : s.toNat = target.toNat + 1)
    (apart : ¬ ∃ entry ∈ page, (rangeOf entry).start < target.toNat ∧
      target.toNat < (rangeOf entry).stop) :
    clearBlocks page s target = some page := by
  rcases exists_last valid target with
    allLater | ⟨before, last, back, rfl, starts, later⟩
  · exact clearBlocks_of_later allLater
  have limited := valid.limited last (by simp)
  have finish := toNat_finish limited
  have ends : ¬ target.toNat < (rangeOf last).stop :=
    fun beyond => apart ⟨last, by simp, starts last (by simp), beyond⟩
  have noTail : ¬ (target < bbOffset last + bbLen last ∧ bbOffset last < target) := by
    rw [lt_def, finish]
    exact fun both => ends both.1
  have noDrop : ¬ (s < bbOffset last + bbLen last ∧ bbOffset last < target) := by
    rw [lt_def]
    omega
  have count : ((before.length : Int) + 1).toNat = before.length + 1 := by omega
  unfold clearBlocks
  simp [lastBefore_target starts later, keepTail, entryAt_middle, noTail, dropRanges, noDrop]

/-- An inverted request splits an entry into two that overlap. -/
theorem clearBlocks_of_around
    (valid : ValidTable page)
    (inverted : s.toNat = target.toNat + 1)
    {around : BitVec 64}
    (member : around ∈ page)
    (below : (rangeOf around).start < target.toNat)
    (beyond : target.toNat < (rangeOf around).stop) :
    if maxBadblocks ≤ page.length then
    clearBlocks page s target = none else
    ∃ next, clearBlocks page s target = some next ∧ ¬ ValidTable next := by
  rcases exists_last valid target with
    allLater | ⟨before, last, back, rfl, starts, later⟩
  · have := allLater around member
    omega
  obtain ⟨-, -, -, stops, -⟩ := sorted_around valid.sorted
  have starting := starts last (by simp)
  have isLast : around = last := by
    rcases mem_append.mp member with inBefore | rest
    · have := stops around inBefore
      omega
    rcases mem_cons.mp rest with isLast | inBack
    · exact isLast
    · have := later around inBack
      omega
  subst isLast
  have clears := @clearBlocks_split s target before back around starts later
    (valid.limited around (by simp)) beyond (by omega) (by omega)
  split
  case isTrue full => rw [clears, if_pos full]
  case isFalse room =>
    rw [if_neg room] at clears
    obtain ⟨headRange, -⟩ :=
      cut_entry (by
          show (rangeOf around).start < s.toNat
          omega)
        le_rfl (by omega) (rangeOf_bounds around).2.2
        (bbAck around)
    obtain ⟨tailRange, -⟩ := cut_last valid starts beyond
    refine ⟨_, clears, ?_⟩
    intro nextValid
    have sorted := nextValid.sorted
    rw [map_append, map_cons, map_cons, headRange, tailRange, sorted_append, sorted_cons] at sorted
    have ordered := sorted.2.1.2.2.1 _ mem_cons_self
    change s.toNat ≤ target.toNat at ordered
    omega

end EchoKernel.Block
