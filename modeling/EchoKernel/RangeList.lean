import Mathlib.Data.List.Basic

namespace EchoKernel.RangeList

/-!
# Sorted lists of ranges

A range holds the numbers from its start up to its stop. In a sorted list
ranges are neither empty nor longer than a limit, and stop before the next one
starts.
-/

/-- The numbers from `start` up to `stop`. -/
structure Range where
  start : ℕ
  stop : ℕ
  deriving Repr, DecidableEq

/-- A range of the list holds the number. -/
def Covers (ranges : List Range) (number : ℕ) : Prop :=
  ∃ range ∈ ranges, range.start ≤ number ∧ number < range.stop

/-- Ranges neither empty nor too long, in order without overlap. -/
structure Sorted (limit : ℕ) (ranges : List Range) : Prop where
  nonempty : ∀ range ∈ ranges, range.start < range.stop
  short : ∀ range ∈ ranges, range.stop ≤ range.start + limit
  ordered : ranges.Pairwise fun first second => first.stop ≤ second.start

section
variable {first second : List Range} {range : Range} {number : ℕ}

@[simp]
theorem covers_nil : ¬ Covers [] number := by
  simp [Covers]

@[simp]
theorem covers_cons :
    Covers (range :: second) number ↔
    (range.start ≤ number ∧ number < range.stop) ∨ Covers second number := by
  simp [Covers]

@[simp]
theorem covers_append :
    Covers (first ++ second) number ↔ Covers first number ∨ Covers second number := by
  simp [Covers, or_and_right, exists_or]

theorem lt_of_covers
    {bound : ℕ}
    (below : ∀ range ∈ first, range.stop ≤ bound)
    (covers : Covers first number) :
    number < bound := by
  obtain ⟨range, member, -, beforeStop⟩ := covers
  exact Nat.lt_of_lt_of_le beforeStop (below range member)

theorem le_of_covers
    {bound : ℕ}
    (above : ∀ range ∈ first, bound ≤ range.start)
    (covers : Covers first number) :
    bound ≤ number := by
  obtain ⟨range, member, fromStart, -⟩ := covers
  exact Nat.le_trans (above range member) fromStart

end

variable {limit : ℕ} {first second : List Range} {range : Range}

theorem sorted_nil : Sorted limit [] := ⟨by simp, by simp, .nil⟩

/-- A sorted list starts with a range before the others. -/
theorem sorted_cons :
    Sorted limit (range :: second) ↔ range.start < range.stop ∧ range.stop ≤
    range.start + limit ∧ (∀ later ∈ second, range.stop ≤ later.start) ∧ Sorted limit second := by
  constructor
  · intro sorted
    obtain ⟨before, ordered⟩ := List.pairwise_cons.mp sorted.ordered
    exact ⟨sorted.nonempty range (by simp), sorted.short range (by simp), before,
      fun later member => sorted.nonempty later (by simp [member]),
      fun later member => sorted.short later (by simp [member]), ordered⟩
  · rintro ⟨nonempty, short, before, sorted⟩
    refine ⟨?_, ?_, List.pairwise_cons.mpr ⟨before, sorted.ordered⟩⟩
    · exact List.forall_mem_cons.mpr ⟨nonempty, sorted.nonempty⟩
    · exact List.forall_mem_cons.mpr ⟨short, sorted.short⟩

theorem sorted_append :
    Sorted limit (first ++ second) ↔ Sorted limit first ∧ Sorted limit second ∧
    ∀ earlier ∈ first, ∀ later ∈ second, earlier.stop ≤ later.start := by
  induction first with
  | nil => simp [sorted_nil]
  | cons head rest inductionHypothesis =>
    rw [List.cons_append, sorted_cons, inductionHypothesis, sorted_cons]
    simp only [List.mem_append, List.mem_cons, forall_eq_or_imp]
    constructor
    · rintro ⟨nonempty, short, before, restSorted, secondSorted, apart⟩
      exact ⟨⟨nonempty, short, fun later member => before later (.inl member), restSorted⟩,
        secondSorted, fun later member => before later (.inr member), apart⟩
    rintro ⟨⟨nonempty, short, before, restSorted⟩, secondSorted, headBefore, apart⟩
    refine ⟨nonempty, short, ?_, restSorted, secondSorted, apart⟩
    rintro later (inRest | inSecond)
    · exact before later inRest
    · exact headBefore later inSecond

/-- Later ranges start after what the first one does. -/
theorem Sorted.le_start
    {bound : ℕ}
    (sorted : Sorted limit second)
    (fromHead : ∀ next ∈ second.head?, bound ≤ next.start) :
    ∀ later ∈ second, bound ≤ later.start := by
  cases second with
  | nil => simp
  | cons next rest =>
    obtain ⟨nonempty, -, before, -⟩ := sorted_cons.mp sorted
    have nextStarts := fromHead next rfl
    refine List.forall_mem_cons.mpr ⟨nextStarts, fun later inRest => ?_⟩
    have laterStarts := before later inRest
    omega

/-- A range goes between ranges apart from it. -/
theorem sorted_insert
    {start stop : ℕ}
    (firstSorted : Sorted limit first)
    (firstBelow : ∀ earlier ∈ first, earlier.stop ≤ start)
    (secondSorted : Sorted limit second)
    (positive : start < stop)
    (short : stop ≤ start + limit)
    (apart : ∀ next ∈ second.head?, stop ≤ next.start) :
    Sorted limit (first ++ ⟨start, stop⟩ :: second) := by
  have secondAbove := secondSorted.le_start apart
  refine sorted_append.mpr ⟨firstSorted, ?_, ?_⟩
  · exact sorted_cons.mpr ⟨positive, short, secondAbove, secondSorted⟩
  intro earlier inFirst later inLater
  have stops := firstBelow earlier inFirst
  rcases List.mem_cons.mp inLater with rfl | inSecond
  · exact stops
  · have starts := secondAbove later inSecond
    omega

end EchoKernel.RangeList
