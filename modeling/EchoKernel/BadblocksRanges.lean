import EchoKernel.Badblocks
import EchoKernel.RangeList

namespace EchoKernel.Block

open RangeList List Option

/-!
# Setting a range of blocks, on ranges

What `badblocks_set` does with the ranges of the table, and exactly when that
is right. The ranges before the request are in `kept`, those after it in the
next list.
-/

/-- Block numbers have 54 bits. -/
def blockLimit : Nat := 2 ^ 54

/--
The entry made of a range from `start` and a next range up to `stop`. If the
next one ends before `start`, the length is negative and its bits fill the
block number.
-/
def joined (start stop : Nat) : Range :=
  if start < stop then ⟨start, stop⟩
  else ⟨blockLimit - 1, blockLimit - 1 + (bbMaxLen + stop - start)⟩

section
variable (start e : Nat) (room s t : Nat) (low : Option Range) (back : List Range)

/-- Put the range from `start` to `e` before the next ranges. -/
def joinNext : List Range → List Range
  | [] => [⟨start, e⟩]
  | next :: rest =>
    if next.start ≤ e ∧ next.stop < start + bbMaxLen then joined start next.stop :: rest
    else ⟨start, e⟩ :: next :: rest

/-- Add ranges from `s` to `e`, each before those added earlier. -/
def addChunks : Nat → Nat → Nat → List Range → List Range × Bool
  | 0, s, e, back => (back, decide (s < e))
  | room + 1, s, e, back =>
    if s < e then addChunks room (min (s + bbMaxLen) e) e (⟨s, min (s + bbMaxLen) e⟩ :: back)
    else (back, false)

/-- The rest of the request, from `s` to `t`, goes before `back`. -/
def setRest : List Range → List Range × Bool
  | [] => addChunks room s t []
  | high :: rest =>
    if high.start ≤ t then
      if max high.stop t ≤ s + bbMaxLen then (joinNext s (max high.stop t) rest, false)
      else
        let (added, full) := addChunks room (s + bbMaxLen) (max high.stop t) rest
        (⟨s, s + bbMaxLen⟩ :: added, full)
    else addChunks room s t (high :: rest)

/-- The ranges from the last one up to `s` on. -/
def setRanges : List Range × Bool :=
  match low with
  | none => setRest room s t back
  | some low =>
    if s ≤ low.stop then
      if max low.stop t ≤ low.start + bbMaxLen then
        (joinNext low.start (max low.stop t) back, false)
      else
        let (rest, full) := setRest room (low.start + bbMaxLen) t back
        (⟨low.start, low.start + bbMaxLen⟩ :: rest, full)
    else
      let (rest, full) := setRest room s t back
      (low :: rest, full)

/-- When a range from `start` to `e` is joined correctly with the next. -/
def JoinSafe : List Range → Prop
  | [] => True
  | next :: rest =>
    e ≤ next.start ∨ (start < next.stop ∧ next.stop < start + bbMaxLen ∧
        ∀ block, next.stop ≤ block → block < e → Covers rest block)

/-- When what is left of a request is added correctly. -/
def RestSafe : List Range → Prop
  | [] => t ≤ s + bbMaxLen ∨ s + bbMaxLen * room < t
  | high :: rest =>
    if high.start ≤ t then
      if max high.stop t ≤ s + bbMaxLen then JoinSafe s (max high.stop t) rest
      else if max high.stop t ≤ s + bbMaxLen * (room + 1) then
        max high.stop t ≤ s + bbMaxLen * 2 ∧ ∀ next ∈ rest.head?, max high.stop t ≤ next.start
      else high.stop ≤ s + bbMaxLen * (room + 1)
    else t ≤ s + bbMaxLen ∨ s + bbMaxLen * room < t

/-- When a request is added correctly. -/
def SetSafe : Prop :=
  match low with
  | none => RestSafe room s t back
  | some low =>
    if s ≤ low.stop then
      if max low.stop t ≤ low.start + bbMaxLen then JoinSafe low.start (max low.stop t) back
      else RestSafe room (low.start + bbMaxLen) t back
    else RestSafe room s t back

end

section
variable {room s e : Nat} {back : List Range}

/-- The table is full if the request exceeds the room. -/
theorem addChunks_full : (addChunks room s e back).2 = decide (s + bbMaxLen * room < e) := by
  induction room generalizing s back with
  | zero => simp [addChunks]
  | succ room inductionHypothesis =>
    rw [addChunks]
    split
    · rw [inductionHypothesis, decide_eq_decide]
      simp only [bbMaxLen]
      omega
    · rw [eq_comm, decide_eq_false_iff_not]
      omega

theorem covers_addChunks
    {block : Nat} :
    Covers (addChunks room s e back).1 block ↔
    (s ≤ block ∧ block < min e (s + bbMaxLen * room)) ∨ Covers back block := by
  induction room generalizing s back with
  | zero =>
    constructor
    · exact .inr
    rintro (inside | covers)
    · omega
    · exact covers
  | succ room inductionHypothesis =>
    rw [addChunks]
    split
    · rw [inductionHypothesis, covers_cons]
      simp only [bbMaxLen]
      by_cases covers : Covers back block
      · simp [covers]
      · simp only [covers, or_false]
        omega
    · by_cases covers : Covers back block
      · simp [covers]
      · simp only [covers, or_false, false_iff]
        omega

/-- Ranges are added before those that are there. -/
theorem exists_addChunks_eq_append : ∃ added, (addChunks room s e back).1 = added ++ back := by
  induction room generalizing s back with
  | zero => exact ⟨[], rfl⟩
  | succ room inductionHypothesis =>
    rw [addChunks]
    split
    · obtain ⟨added, shape⟩ :=
        @inductionHypothesis (min (s + bbMaxLen) e) (⟨s, min (s + bbMaxLen) e⟩ :: back)
      exact ⟨added ++ [⟨s, min (s + bbMaxLen) e⟩], by simp [shape]⟩
    · exact ⟨[], rfl⟩

theorem addChunks_single
    (positive : s < e)
    (short : e ≤ s + bbMaxLen)
    (fits : e ≤ s + bbMaxLen * room) :
    (addChunks room s e back).1 = ⟨s, e⟩ :: back := by
  cases room with
  | zero => omega
  | succ room =>
    rw [addChunks, if_pos positive, Nat.min_eq_right short]
    cases room with
    | zero => rfl
    | succ room => rw [addChunks, if_neg (Nat.lt_irrefl e)]

/-- There is room for the ranges that are added. -/
theorem length_addChunks_le : (addChunks room s e back).1.length ≤ back.length + room := by
  induction room generalizing s back with
  | zero => exact Nat.le_refl _
  | succ room inductionHypothesis =>
    rw [addChunks]
    split
    · have bound := @inductionHypothesis (min (s + bbMaxLen) e) (⟨s, min (s + bbMaxLen) e⟩ :: back)
      rw [length_cons] at bound
      omega
    · show back.length ≤ _
      omega

/-- Two ranges or more are added in the wrong order. -/
theorem not_sorted_addChunks
    {kept : List Range}
    (long : s + bbMaxLen < e)
    (notFull : e ≤ s + bbMaxLen * room) :
    ¬ Sorted bbMaxLen (kept ++ (addChunks room s e back).1) := by
  intro sorted
  obtain ⟨room, rfl⟩ : ∃ less, room = less + 2 := by
    refine ⟨room - 2, ?_⟩
    simp only [bbMaxLen] at *
    omega
  obtain ⟨added, shape⟩ := @exists_addChunks_eq_append room (min (s + bbMaxLen + bbMaxLen) e) e
    (⟨s + bbMaxLen, min (s + bbMaxLen + bbMaxLen) e⟩ :: ⟨s, s + bbMaxLen⟩ :: back)
  have twice : (addChunks (room + 2) s e back).1 = added ++
      ⟨s + bbMaxLen, min (s + bbMaxLen + bbMaxLen) e⟩ :: ⟨s, s + bbMaxLen⟩ :: back := by
    rw [← shape, addChunks, if_pos (by omega),
      Nat.min_eq_left (Nat.le_of_lt long), addChunks, if_pos long]
  rw [twice, ← append_assoc, sorted_append] at sorted
  have before := (sorted_cons.mp sorted.2.1).2.2.1 _ mem_cons_self
  simp only [bbMaxLen] at *
  omega

end

section
variable {room s t e : Nat} {back : List Range}

theorem length_joinNext_le : (joinNext s e back).length ≤ back.length + 1 := by
  cases back with
  | nil => exact Nat.le_refl _
  | cons next rest =>
    rw [joinNext]
    split <;> simp

theorem length_setRest_le : (setRest room s t back).1.length ≤ back.length + room := by
  cases back with
  | nil => exact length_addChunks_le
  | cons high rest =>
    rw [setRest]
    split
    · split
      · have bound := @length_joinNext_le s (max high.stop t) rest
        simp only [length_cons]
        omega
      · have bound := @length_addChunks_le room (s + bbMaxLen) (max high.stop t) rest
        simp only [length_cons]
        omega
    · exact length_addChunks_le

/-- The table does not grow beyond its room. -/
theorem length_setRanges_le
    {low : Option Range} :
    (setRanges room s t low back).1.length ≤ low.toList.length + back.length + room := by
  cases low with
  | none =>
    have bound := @length_setRest_le room s t back
    simp only [setRanges]
    omega
  | some low =>
    rw [setRanges]
    simp only [toList_some, length_singleton]
    split
    · split
      · have bound := @length_joinNext_le low.start (max low.stop t) back
        show (joinNext low.start (max low.stop t) back).length ≤ _
        omega
      · have bound := @length_setRest_le room (low.start + bbMaxLen) t back
        simp only [length_cons]
        omega
    · have bound := @length_setRest_le room s t back
      simp only [length_cons]
      omega

end

section
variable {kept back : List Range} {start e : Nat}

/-- The blocks of a range, the ranges before and those after it. -/
def Together (kept : List Range) (start e : Nat) (back : List Range) (block : Nat) : Prop :=
  Covers kept block ∨ (start ≤ block ∧ block < e) ∨ Covers back block

/-- A range's first part can go to the ranges before it. -/
theorem together_split
    {middle block : Nat}
    (low : start ≤ middle)
    (high : middle ≤ e) :
    Together kept start e back block ↔
    Together (kept ++ [⟨start, middle⟩]) middle e back block := by
  rw [Together, Together, covers_append, covers_cons]
  simp only [covers_nil, or_false]
  constructor
  · rintro (inKept | inside | inBack)
    · exact .inl (.inl inKept)
    · by_cases inFirst : block < middle
      · exact .inl (.inr ⟨inside.1, inFirst⟩)
      · exact .inr (.inl ⟨by omega, inside.2⟩)
    · exact .inr (.inr inBack)
  · rintro ((inKept | inFirst) | inside | inBack)
    · exact .inl inKept
    · exact .inr (.inl ⟨inFirst.1, by omega⟩)
    · exact .inr (.inl ⟨by omega, inside.2⟩)
    · exact .inr (.inr inBack)

/-- The ranges around a range from `start` on put between them. -/
structure Around (kept : List Range) (start : Nat) (back : List Range) : Prop where
  keptSorted : Sorted bbMaxLen kept
  keptBelow : ∀ range ∈ kept, range.stop ≤ start
  backSorted : Sorted bbMaxLen back
  near : ∀ range ∈ back, start < range.start + bbMaxLen
  below : ∀ block, block < start → Covers back block → Covers kept block
  limited : ∀ range ∈ back, range.stop ≤ blockLimit

/-- Ranges that start later are around a range. -/
theorem around_of_later
    (keptSorted : Sorted bbMaxLen kept)
    (keptBelow : ∀ range ∈ kept, range.stop ≤ start)
    (backSorted : Sorted bbMaxLen back)
    (later : ∀ range ∈ back, start < range.start)
    (limited : ∀ range ∈ back, range.stop ≤ blockLimit) :
    Around kept start back := by
  refine ⟨keptSorted, keptBelow, backSorted, ?_, ?_, limited⟩
  · intro range member
    have := later range member
    omega
  · intro block earlier covers
    have := le_of_covers later covers
    omega

section
variable {next : Range} {rest : List Range} (around : Around kept start (next :: rest))
include around

/-- A range and a next one ending after its start become one. -/
theorem Around.joined_iff
    (touches : next.start ≤ e)
    (later : start < next.stop)
    (short : next.stop < start + bbMaxLen) :
    (Sorted bbMaxLen (kept ++ joined start next.stop :: rest) ∧ ∀ block,
    Covers (kept ++ joined start next.stop :: rest) block ↔
    Together kept start e (next :: rest) block) ↔
    ∀ block, next.stop ≤ block → block < e → Covers rest block := by
  obtain ⟨nonempty, -, before, restSorted⟩ := sorted_cons.mp around.backSorted
  rw [joined, if_pos later]
  constructor
  · rintro ⟨-, same⟩ block above below
    have covers := (same block).mpr (.inr (.inl ⟨by omega, below⟩))
    rw [covers_append, covers_cons] at covers
    rcases covers with inKept | ⟨-, inJoined⟩ | inRest
    · have := lt_of_covers around.keptBelow inKept
      omega
    · exact absurd inJoined (Nat.not_lt.mpr above)
    · exact inRest
  intro inRest
  constructor
  · refine sorted_insert around.keptSorted around.keptBelow restSorted later (Nat.le_of_lt short) ?_
    intro other isHead
    exact before other (mem_of_mem_head? isHead)
  intro block
  rw [covers_append, covers_cons, Together, covers_cons]
  constructor
  · rintro (inKept | ⟨above, below⟩ | isRest)
    · exact .inl inKept
    · by_cases inside : block < e
      · exact .inr (.inl ⟨above, inside⟩)
      · exact .inr (.inr (.inl ⟨by omega, below⟩))
    · exact .inr (.inr (.inr isRest))
  rintro (inKept | ⟨above, below⟩ | inNext | isRest)
  · exact .inl inKept
  · by_cases inside : block < next.stop
    · exact .inr (.inl ⟨above, inside⟩)
    · exact .inr (.inr (inRest block (by omega) below))
  · by_cases above : start ≤ block
    · exact .inr (.inl ⟨above, inNext.2⟩)
    · exact .inl (around.below block (by omega) (covers_cons.mpr (.inl inNext)))
  · exact .inr (.inr isRest)

/-- A next range ending before the start spoils the entry. -/
theorem Around.not_joined
    (positive : start < e)
    (limited : e ≤ blockLimit)
    (earlier : next.stop ≤ start) :
    ¬ (Sorted bbMaxLen (kept ++ joined start next.stop :: rest) ∧
    ∀ block, Covers (kept ++ joined start next.stop :: rest) block ↔
    Together kept start e (next :: rest) block) := by
  rintro ⟨sorted, same⟩
  have near := around.near next (by simp)
  have nonempty := (sorted_cons.mp around.backSorted).1
  rw [joined, if_neg (Nat.not_lt.mpr earlier)] at sorted same
  obtain ⟨-, fromJoined, -⟩ := sorted_append.mp sorted
  obtain ⟨-, -, before, -⟩ := sorted_cons.mp fromJoined
  have startCovered := (same start).mpr (.inr (.inl ⟨Nat.le_refl _, positive⟩))
  rw [covers_append, covers_cons] at startCovered
  -- only the wrong entry can hold the start, which is then the last block
  have isLast : blockLimit - 1 ≤ start := by
    rcases startCovered with inKept | ⟨above, -⟩ | inRest
    · exact absurd (lt_of_covers around.keptBelow inKept) (Nat.lt_irrefl _)
    · exact above
    have := le_of_covers before inRest
    simp only at this
    omega
  -- the wrong entry is longer than one block, so it exceeds the limit
  have beyond := (same blockLimit).mp (covers_append.mpr (.inr (covers_cons.mpr (.inl ⟨by
    show blockLimit - 1 ≤ blockLimit
    omega, by
    simp only [bbMaxLen] at *
    omega⟩))))
  rcases beyond with inKept | ⟨-, inside⟩ | inBack
  · have := lt_of_covers around.keptBelow inKept
    omega
  · omega
  · exact absurd (lt_of_covers around.limited inBack) (Nat.lt_irrefl _)

end

/-- When a range put before the next ones gives the right table. -/
theorem Around.joinNext_iff
    (around : Around kept start back)
    (positive : start < e)
    (short : e ≤ start + bbMaxLen)
    (limited : e ≤ blockLimit) :
    (Sorted bbMaxLen (kept ++ joinNext start e back) ∧ ∀ block,
    Covers (kept ++ joinNext start e back) block ↔ Together kept start e back block) ↔
    JoinSafe start e back := by
  have separate : (∀ next ∈ back.head?, e ≤ next.start) →
      Sorted bbMaxLen (kept ++ ⟨start, e⟩ :: back) ∧ ∀ block,
      Covers (kept ++ ⟨start, e⟩ :: back) block ↔ Together kept start e back block := by
    intro apart
    refine ⟨sorted_insert around.keptSorted around.keptBelow
      around.backSorted positive short apart, ?_⟩
    intro block
    rw [covers_append, covers_cons, Together]
  cases back with
  | nil => exact iff_of_true (separate (by simp)) trivial
  | cons next rest =>
    rw [joinNext]
    by_cases joins : next.start ≤ e ∧ next.stop < start + bbMaxLen
    · rw [if_pos joins]
      have nonempty := (sorted_cons.mp around.backSorted).1
      by_cases later : start < next.stop
      · rw [around.joined_iff joins.1 later joins.2]
        constructor
        · intro inRest
          exact .inr ⟨later, joins.2, inRest⟩
        rintro (apart | ⟨-, -, inRest⟩) block above below
        · omega
        · exact inRest block above below
      · refine iff_of_false ?_ ?_
        · exact around.not_joined positive limited (Nat.not_lt.mp later)
        rintro (apart | ⟨above, -⟩)
        · omega
        · exact later above
    · rw [if_neg joins]
      constructor
      · rintro ⟨sorted, -⟩
        obtain ⟨-, fromStart, -⟩ := sorted_append.mp sorted
        exact .inl ((sorted_cons.mp fromStart).2.2.1 next (by simp))
      rintro (apart | ⟨-, shorter, -⟩)
      · refine separate ?_
        intro other isHead
        cases isHead
        exact apart
      · refine separate ?_
        intro other isHead
        cases isHead
        by_contra overlaps
        exact joins ⟨by omega, shorter⟩

end

variable {old : Nat → Prop} {kept back : List Range} {room s start t : Nat} {rest : List Range}

/-- What is asked for: the old blocks and those of the request. -/
structure SetRight (old : Nat → Prop) (s t : Nat) (result : List Range) (full : Bool) : Prop where
  exactly : full = false → Sorted bbMaxLen result ∧ ∀ block,
          Covers result block ↔ old block ∨ (s ≤ block ∧ block < t)
  nothingLost : full = true → ∀ block, old block → Covers result block

/-- The rest of a request after the ranges before `start`. -/
structure Pending (old : Nat → Prop) (s t : Nat) (kept : List Range) (start : Nat)
    (back : List Range) : Prop where
  around : Around kept start back
  positive : start < t
  limited : t ≤ blockLimit
  total : ∀ block, (old block ∨ (s ≤ block ∧ block < t)) ↔ Together kept start t back block
  wasKept : ∀ block, old block → Covers kept block ∨ Covers back block
  isOld : ∀ block, Covers back block → old block

theorem setRight_false
    {result : List Range}
    {total : Nat → Prop}
    (same : ∀ block, (old block ∨ (s ≤ block ∧ block < t)) ↔ total block) :
    SetRight old s t result false ↔ Sorted bbMaxLen result ∧ ∀ block, Covers result block ↔
    total block := by
  simp only [← same]
  exact ⟨fun right => right.exactly rfl, fun exactly => ⟨fun _ => exactly, by simp⟩⟩

/-- When a request between ranges is added correctly. -/
theorem Pending.addChunks_iff
    (pending : Pending old s t kept start back)
    (apart : ∀ next ∈ back.head?, t < next.start) :
    SetRight old s t (kept ++ (addChunks room start t back).1) (addChunks room start t back).2 ↔
    (t ≤ start + bbMaxLen ∨ start + bbMaxLen * room < t) := by
  have positive := pending.positive
  rw [addChunks_full]
  by_cases full : start + bbMaxLen * room < t
  · refine iff_of_true ⟨?_, ?_⟩ (.inr full)
    · intro notFull
      simp [full] at notFull
    intro _ block isOld
    rw [covers_append, covers_addChunks]
    rcases pending.wasKept block isOld with inKept | inBack
    · exact .inl inKept
    · exact .inr (.inr inBack)
  rw [or_iff_left full]
  constructor
  · intro right
    obtain ⟨sorted, -⟩ := right.exactly (by simp [full])
    by_contra long
    exact not_sorted_addChunks (Nat.not_le.mp long) (Nat.not_lt.mp full) sorted
  intro short
  rw [addChunks_single positive short (Nat.not_lt.mp full), decide_eq_false full,
    setRight_false pending.total]
  refine ⟨sorted_insert pending.around.keptSorted
    pending.around.keptBelow pending.around.backSorted positive short ?_, ?_⟩
  · intro next isHead
    exact Nat.le_of_lt (apart next isHead)
  · intro block
    rw [covers_append, covers_cons, Together]

/-- The blocks of a request that meets the next range. -/
theorem Pending.total_max
    {high : Range}
    (pending : Pending old s t kept start (high :: rest))
    (touches : high.start ≤ t)
    (block : Nat) :
    (old block ∨ (s ≤ block ∧ block < t)) ↔ Together kept start (max high.stop t) rest block := by
  have around := pending.around
  rw [pending.total, Together, covers_cons]
  constructor
  · rintro (inKept | ⟨above, below⟩ | ⟨fromHigh, toHigh⟩ | inRest)
    · exact .inl inKept
    · exact .inr (.inl ⟨above, by omega⟩)
    · by_cases above : start ≤ block
      · exact .inr (.inl ⟨above, by omega⟩)
      · exact .inl (around.below block (by omega) (covers_cons.mpr (.inl ⟨fromHigh, toHigh⟩)))
    · exact .inr (.inr inRest)
  · rintro (inKept | ⟨above, below⟩ | inRest)
    · exact .inl inKept
    · by_cases inRequest : block < t
      · exact .inr (.inl ⟨above, inRequest⟩)
      · exact .inr (.inr (.inl ⟨by omega, by omega⟩))
    · exact .inr (.inr (.inr inRest))

/-- The range that a longer request fills up. -/
theorem sorted_fill
    (sorted : Sorted bbMaxLen kept)
    (below : ∀ range ∈ kept, range.stop ≤ start) :
    Sorted bbMaxLen (kept ++ [⟨start, start + bbMaxLen⟩]) ∧
    ∀ range ∈ kept ++ [⟨start, start + bbMaxLen⟩], range.stop ≤ start + bbMaxLen := by
  constructor
  · exact sorted_insert sorted below sorted_nil (by simp [bbMaxLen]) (Nat.le_refl _) (by simp)
  intro range member
  rcases mem_append.mp member with inKept | isFilled
  · have := below range inKept
    omega
  · exact Nat.le_of_eq (congrArg Range.stop (mem_singleton.mp isFilled))

/-- When filling up the next range adds a request correctly. -/
theorem Pending.fill_iff
    {high : Range}
    (pending : Pending old s t kept start (high :: rest))
    (touches : high.start ≤ t)
    (long : start + bbMaxLen < max high.stop t) :
    SetRight old s t
    (kept ++ ⟨start, start + bbMaxLen⟩ ::
    (addChunks room (start + bbMaxLen) (max high.stop t) rest).1)
    (addChunks room (start + bbMaxLen) (max high.stop t) rest).2 ↔
    if max high.stop t ≤ start + bbMaxLen * (room + 1) then
    max high.stop t ≤ start + bbMaxLen * 2 ∧ ∀ next ∈ rest.head?, max high.stop t ≤ next.start else
    high.stop ≤ start + bbMaxLen * (room + 1) := by
  have around := pending.around
  obtain ⟨nonempty, -, afterHigh, restSorted⟩ := sorted_cons.mp around.backSorted
  obtain ⟨filledSorted, filledBelow⟩ := sorted_fill around.keptSorted around.keptBelow
  have total := pending.total_max touches
  generalize reached : max high.stop t = e at *
  rw [addChunks_full, append_cons]
  by_cases full : start + bbMaxLen + bbMaxLen * room < e
  · have isFull : decide (start + bbMaxLen + bbMaxLen * room < e) = true := by
      simp [full]
    rw [isFull, if_neg (by simp only [bbMaxLen] at *; omega)]
    constructor
    · intro right
      have covers := right.nothingLost rfl (high.stop - 1) (pending.isOld _ (covers_cons.mpr
        (.inl ⟨by omega, by omega⟩)))
      rw [covers_append, covers_addChunks] at covers
      rcases covers with inFilled | ⟨-, inside⟩ | inRest
      · have := lt_of_covers filledBelow inFilled
        simp only [bbMaxLen] at *
        omega
      · simp only [bbMaxLen] at *
        omega
      · have := le_of_covers afterHigh inRest
        omega
    · intro reaches
      refine ⟨by simp, ?_⟩
      intro _ block isOld
      rw [covers_append, covers_append, covers_addChunks, covers_cons]
      rcases pending.wasKept block isOld with inKept | inBack
      · exact .inl (.inl inKept)
      rcases covers_cons.mp inBack with ⟨fromHigh, toHigh⟩ | inRest
      · by_cases above : start ≤ block
        · by_cases inFilled : block < start + bbMaxLen
          · exact .inl (.inr (.inl ⟨above, inFilled⟩))
          · simp only [bbMaxLen] at *
            omega
        · exact .inl (.inl (around.below block (by omega) inBack))
      · exact .inr (.inr inRest)
  · have notFull : decide (start + bbMaxLen + bbMaxLen * room < e) = false := by
      simp [full]
    rw [notFull, if_pos (by simp only [bbMaxLen] at *; omega)]
    constructor
    · intro right
      obtain ⟨sorted, -⟩ := right.exactly rfl
      have short : e ≤ start + bbMaxLen + bbMaxLen := by
        by_contra tooLong
        exact not_sorted_addChunks (Nat.not_le.mp tooLong) (Nat.not_lt.mp full) sorted
      refine ⟨by omega, ?_⟩
      rw [addChunks_single long short (Nat.not_lt.mp full)] at sorted
      obtain ⟨-, fromChunk, -⟩ := sorted_append.mp sorted
      intro next isHead
      exact (sorted_cons.mp fromChunk).2.2.1 next (mem_of_mem_head? isHead)
    · rintro ⟨short, apart⟩
      have chunk : e ≤ start + bbMaxLen + bbMaxLen := by omega
      rw [addChunks_single long chunk (Nat.not_lt.mp full), setRight_false total]
      refine ⟨sorted_insert filledSorted filledBelow restSorted long chunk apart, fun block => ?_⟩
      rw [together_split (Nat.le_add_right _ _) (Nat.le_of_lt long), covers_append, covers_cons,
        Together]

/-- When what is left of a request is added correctly. -/
theorem Pending.setRest_iff
    (pending : Pending old s t kept start back) :
    SetRight old s t (kept ++ (setRest room start t back).1) (setRest room start t back).2 ↔
    RestSafe room start t back := by
  have positive := pending.positive
  cases back with
  | nil =>
    exact pending.addChunks_iff (by simp)
  | cons high rest =>
    rw [setRest, RestSafe]
    by_cases touches : high.start ≤ t
    · rw [if_pos touches, if_pos touches]
      by_cases short : max high.stop t ≤ start + bbMaxLen
      · rw [if_pos short, if_pos short]
        have around := pending.around
        obtain ⟨-, -, -, restSorted⟩ := sorted_cons.mp around.backSorted
        have restAround : Around kept start rest := { around with
            backSorted := restSorted
            near := fun range member => around.near range (mem_cons_of_mem _ member)
            below := fun block earlier covers =>
              around.below block earlier (covers_cons.mpr (.inr covers))
            limited := fun range member =>
              around.limited range (mem_cons_of_mem _ member) }
        have highLimited := around.limited high (by simp)
        have requestLimited := pending.limited
        rw [← restAround.joinNext_iff (by omega) short (by omega)]
        exact setRight_false (pending.total_max touches)
      · rw [if_neg short, if_neg short]
        exact pending.fill_iff touches (Nat.not_le.mp short)
    · rw [if_neg touches, if_neg touches]
      refine pending.addChunks_iff ?_
      intro next isHead
      cases isHead
      exact Nat.not_le.mp touches

theorem setRanges_iff
    {before : List Range}
    {low : Option Range}
    (sorted : Sorted bbMaxLen (before ++ low.toList ++ back))
    (limited : ∀ range ∈ before ++ low.toList ++ back, range.stop ≤ blockLimit)
    (noLow : low = none → before = [])
    (lowStarts : ∀ range ∈ low, range.start ≤ s)
    (backStarts : ∀ range ∈ back, s < range.start)
    (positive : s < t)
    (requestLimited : t ≤ blockLimit) :
    SetRight (Covers (before ++ low.toList ++ back)) s t
    (before ++ (setRanges room s t low back).1) (setRanges room s t low back).2 ↔
    SetSafe room s t low back := by
  obtain ⟨frontSorted, backSorted, frontApart⟩ := sorted_append.mp sorted
  obtain ⟨beforeSorted, lowSorted, beforeApart⟩ := sorted_append.mp frontSorted
  have backLimited : ∀ range ∈ back, range.stop ≤ blockLimit :=
    fun range member => limited range (mem_append_right _ member)
  -- without a range that the request touches, it is pending as a whole
  have untouched : (∀ range ∈ before ++ low.toList, range.stop ≤ s) →
      Pending (Covers (before ++ low.toList ++ back)) s t (before ++ low.toList) s back := by
    intro frontBelow
    refine ⟨around_of_later frontSorted frontBelow backSorted backStarts backLimited,
      positive, requestLimited, ?_, ?_, ?_⟩
    · intro block
      rw [Together, covers_append]
      tauto
    · intro block isOld
      exact covers_append.mp isOld
    · intro block covers
      exact covers_append.mpr (.inr covers)
  cases low with
  | none =>
    have noBefore := noLow rfl
    subst noBefore
    exact (untouched (by simp)).setRest_iff
  | some low =>
    have lowStart := lowStarts low rfl
    have lowStop := limited low (by simp)
    obtain ⟨lowNonempty, lowShort, -⟩ := sorted_cons.mp lowSorted
    have beforeBelow : ∀ range ∈ before, range.stop ≤ low.start :=
      fun range member => beforeApart range member low (by simp)
    rw [setRanges, SetSafe]
    by_cases touches : s ≤ low.stop
    · rw [if_pos touches, if_pos touches]
      have total : ∀ block, (Covers (before ++ (some low).toList ++ back) block ∨
          (s ≤ block ∧ block < t)) ↔ Together before low.start (max low.stop t) back block := by
        intro block
        rw [covers_append, covers_append]
        simp only [toList_some, covers_cons, covers_nil, or_false]
        constructor
        · rintro (((inBefore | inLow) | inBack) | inRequest)
          · exact .inl inBefore
          · exact .inr (.inl ⟨inLow.1, by omega⟩)
          · exact .inr (.inr inBack)
          · exact .inr (.inl ⟨by omega, by omega⟩)
        · rintro (inBefore | inside | inBack)
          · exact .inl (.inl (.inl inBefore))
          · by_cases inLow : block < low.stop
            · exact .inl (.inl (.inr ⟨inside.1, inLow⟩))
            · exact .inr ⟨by omega, by omega⟩
          · exact .inl (.inr inBack)
      by_cases short : max low.stop t ≤ low.start + bbMaxLen
      · rw [if_pos short, if_pos short]
        have around : Around before low.start back :=
          around_of_later beforeSorted beforeBelow backSorted
            (fun range member => Nat.lt_of_le_of_lt lowStart (backStarts range member)) backLimited
        rw [← around.joinNext_iff (by omega) short (by omega)]
        exact setRight_false total
      rw [if_neg short, if_neg short]
      have filled : Pending (Covers (before ++ (some low).toList ++ back)) s t
          (before ++ [⟨low.start, low.start + bbMaxLen⟩]) (low.start + bbMaxLen) back := by
        obtain ⟨filledSorted, filledBelow⟩ := sorted_fill beforeSorted beforeBelow
        refine ⟨⟨filledSorted, filledBelow, backSorted, ?_, ?_, backLimited⟩, by omega,
          requestLimited, ?_, ?_, ?_⟩
        · intro range member
          have := backStarts range member
          omega
        · intro block earlier covers
          have := le_of_covers backStarts covers
          rw [covers_append, covers_cons]
          exact .inr (.inl ⟨by show low.start ≤ block; omega, earlier⟩)
        · intro block
          rw [total, together_split (Nat.le_add_right _ _) (Nat.le_of_lt (Nat.not_le.mp short)),
            show max low.stop t = t by omega]
        · intro block isOld
          rw [covers_append, covers_append] at isOld
          rw [covers_append]
          rcases isOld with (inBefore | inLow) | inBack
          · exact .inl (.inl inBefore)
          · simp only [toList_some, covers_cons, covers_nil, or_false] at inLow ⊢
            exact .inl (.inr ⟨inLow.1, by omega⟩)
          · exact .inr inBack
        · intro block covers
          exact covers_append.mpr (.inr covers)
      rw [append_cons]
      exact filled.setRest_iff
    · rw [if_neg touches, if_neg touches, append_cons]
      refine (untouched (forall_mem_append.mpr ⟨?_, forall_mem_singleton.mpr ?_⟩)).setRest_iff
      · intro range inBefore
        have := beforeBelow range inBefore
        omega
      · omega

end EchoKernel.Block
