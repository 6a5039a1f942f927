import Mathlib.Data.List.Basic

namespace EchoKernel.IntervalPaint

open List

/-!
# Painting a range over labelled intervals

Labelled intervals lie in order, and neighbours with one label do not touch. A
brush goes over such a list from the left: it takes in intervals of its label,
covers those inside its range, and cuts those that reach out of it. The result
is in order and differs only inside the range.
-/

variable {L : Type*}

/-- The places from `first` to `last`, with a label. -/
@[ext]
structure Interval (L : Type*) where
  first : Int
  last : Int
  label : L
  deriving Repr, DecidableEq

namespace Interval

/-- The place is in the interval. -/
def Has (interval : Interval L) (place : Int) : Prop :=
  interval.first ≤ place ∧ place ≤ interval.last

/-- One interval ends before the other, not touching an equal label. -/
def Before (one other : Interval L) : Prop :=
  one.last < other.first ∧ (one.label = other.label → one.last + 1 < other.first)

end Interval

/-- The intervals are in order. -/
def Ordered (intervals : List (Interval L)) : Prop := intervals.Pairwise Interval.Before

/-- A place has a label. -/
def Holds (intervals : List (Interval L)) (label : L) (place : Int) : Prop :=
  ∃ interval ∈ intervals, interval.label = label ∧ interval.Has place

/-- Outside a range the labels are those of the old list, inside they are given by the paint. -/
def Paints (old new : List (Interval L)) (low high : Int) (paint : L → Prop) : Prop :=
  ∀ label place, Holds new label place ↔ (low ≤ place ∧ place ≤ high) ∧ paint label ∨
        ¬ (low ≤ place ∧ place ≤ high) ∧ Holds old label place

variable {interval : Interval L}

section
variable {intervals more : List (Interval L)} {label : L} {place : Int}

@[simp]
theorem not_holds_nil : ¬ Holds [] label place := by
  rintro ⟨interval, member, _⟩
  cases member

@[simp]
theorem holds_cons :
    Holds (interval :: intervals) label place ↔ interval.label = label ∧
    interval.Has place ∨ Holds intervals label place := by
  simp [Holds]

@[simp]
theorem holds_append :
    Holds (intervals ++ more) label place ↔ Holds intervals label place ∨
    Holds more label place := by
  simp [Holds, or_and_right, exists_or]

theorem lt_of_holds
    {bound : Int}
    (below : ∀ interval ∈ intervals, interval.last < bound)
    (holds : Holds intervals label place) :
    place < bound := by
  obtain ⟨interval, member, -, -, inside⟩ := holds
  exact Int.lt_of_le_of_lt inside (below interval member)

theorem gt_of_holds
    {bound : Int}
    (above : ∀ interval ∈ intervals, bound < interval.first)
    (holds : Holds intervals label place) :
    bound < place := by
  obtain ⟨interval, member, -, inside, -⟩ := holds
  exact Int.lt_of_lt_of_le (above interval member) inside

/-- What is before the first of ordered intervals is before all. -/
theorem before_all
    {one : Interval L}
    (nonempty : interval.first ≤ interval.last)
    (ordered : Ordered (interval :: intervals))
    (before : one.Before interval) :
    ∀ later ∈ interval :: intervals, one.Before later := by
  intro later member
  rcases mem_cons.mp member with rfl | inRest
  · exact before
  have apart := (pairwise_cons.mp ordered).1 later inRest
  obtain ⟨endsBefore, _⟩ := before
  obtain ⟨startsAfter, _⟩ := apart
  exact ⟨by omega, fun _ => by omega⟩

end

variable {kept rest : List (Interval L)} {brush : Interval L} {low high : Int} {erase : Bool}

section
variable {old : List (Interval L)}

/-- What the brush leaves in the list. -/
def mark (erase : Bool) (brush : Interval L) : List (Interval L) := if erase then [] else [brush]

/-- The label that the range gets. -/
def Paint (erase : Bool) (brush : Interval L) (label : L) : Prop :=
  erase = false ∧ brush.label = label

theorem mem_mark
    {interval : Interval L}
    (member : interval ∈ mark erase brush) :
    interval = brush := by
  rw [mark] at member
  split at member
  · cases member
  · exact mem_singleton.mp member

/-- Kept intervals, brush and rest are in order. -/
theorem ordered_result
    (keptOrdered : Ordered kept)
    (restOrdered : Ordered rest)
    (nonempty : brush.first ≤ brush.last)
    (keptBefore : ∀ interval ∈ kept, interval.Before brush)
    (restAfter : ∀ interval ∈ rest, brush.Before interval) :
    Ordered (kept ++ mark erase brush ++ rest) := by
  have marked : Ordered (mark erase brush) := by
    rw [mark]
    split
    · exact .nil
    · exact pairwise_singleton _ _
  refine pairwise_append.mpr ⟨pairwise_append.mpr ⟨keptOrdered, marked, ?_⟩, restOrdered, ?_⟩
  · intro one isKept other isBrush
    rw [mem_mark isBrush]
    exact keptBefore one isKept
  intro one member other isRest
  rcases mem_append.mp member with isKept | isBrush
  · have ends := (keptBefore one isKept).1
    have starts := (restAfter other isRest).1
    exact ⟨by omega, fun _ => by omega⟩
  · rw [mem_mark isBrush]
    exact restAfter other isRest

/-- Kept intervals, brush and rest have the right labels. -/
theorem paints_result
    (reaches : brush.first ≤ low ∧ high ≤ brush.last)
    (exact_of_erase : erase = true → brush.first = low ∧ brush.last = high)
    (keptBefore : ∀ interval ∈ kept, interval.Before brush)
    (restAfter : ∀ interval ∈ rest, brush.Before interval)
    (outside : ∀ label place, ¬ (low ≤ place ∧ place ≤ high) →
      (Holds old label place ↔
      Holds kept label place ∨ (brush.label = label ∧ brush.Has place) ∨ Holds rest label place)) :
    Paints old (kept ++ mark erase brush ++ rest) low high (Paint erase brush) := by
  intro label place
  have below : Holds kept label place → place < brush.first :=
    lt_of_holds fun interval member => (keptBefore interval member).1
  have above : Holds rest label place → brush.last < place :=
    gt_of_holds fun interval member => (restAfter interval member).1
  have marked : Holds (mark erase brush) label place ↔
      erase = false ∧ brush.label = label ∧ brush.Has place := by
    rw [mark]
    cases erase <;> simp
  rw [holds_append, holds_append, marked, Paint]
  by_cases inside : low ≤ place ∧ place ≤ high
  · have has : brush.Has place := ⟨Int.le_trans reaches.1 inside.1, Int.le_trans inside.2 reaches.2⟩
    have notKept : ¬ Holds kept label place := fun holds =>
      absurd has.1 (Int.not_le.mpr (below holds))
    have notRest : ¬ Holds rest label place := fun holds =>
      absurd has.2 (Int.not_le.mpr (above holds))
    simp [inside, has, notKept, notRest, false_and]
  have unpainted : erase = true → ¬ brush.Has place := by
    intro isErase has
    obtain ⟨sameLow, sameHigh⟩ := exact_of_erase isErase
    exact inside ⟨sameLow ▸ has.1, sameHigh ▸ has.2⟩
  rw [outside label place inside]
  simp only [inside, false_and, not_false_eq_true, true_and, false_or]
  cases erase with
  | false => simp [or_assoc]
  | true =>
    have notBrush := unpainted rfl
    simp [notBrush, or_false]

end

variable {started : Bool} {passed : List (Interval L)}

/-- A brush on its way over a list of intervals. -/
structure Painting (low high : Int) (erase started : Bool) (passed kept : List (Interval L))
    (brush : Interval L) (rest : List (Interval L)) : Prop where
  range : low ≤ high
  nonempty : ∀ interval ∈ rest, interval.first ≤ interval.last
  keptOrdered : Ordered kept
  restOrdered : Ordered rest
  keptBefore : ∀ interval ∈ kept, interval.Before brush
  apart : ∀ one ∈ kept, ∀ other ∈ rest, one.Before other
  reaches : brush.first ≤ low ∧ high ≤ brush.last
  exact_of_erase : erase = true → brush.first = low ∧ brush.last = high
  outside :
    ∀ label place, ¬ (low ≤ place ∧ place ≤ high) → (Holds passed label place ↔
        Holds kept label place ∨ brush.label = label ∧ brush.Has place)
  beyond : high < brush.last → ∀ other ∈ rest, brush.Before other
  fresh : started = false → brush.first = low ∧ brush.last = high
  above : started = true → ∀ other ∈ rest, low ≤ other.first

/-- The brush over a list that it has not touched. -/
theorem Painting.start (range : low ≤ high)
    (nonempty : ∀ interval ∈ rest, interval.first ≤ interval.last) (ordered : Ordered rest)
    (label : L) : Painting low high erase false [] [] ⟨low, high, label⟩ rest where
  range := range
  nonempty := nonempty
  keptOrdered := .nil
  restOrdered := ordered
  keptBefore := fun _ member => nomatch member
  apart := fun _ member => nomatch member
  reaches := ⟨Int.le_refl _, Int.le_refl _⟩
  exact_of_erase := fun _ => ⟨rfl, rfl⟩
  outside := by
    intro label place notInside
    simp [Interval.Has, notInside]
  beyond := fun further => absurd further (Int.lt_irrefl _)
  fresh := fun _ => ⟨rfl, rfl⟩
  above := fun isStarted => nomatch isStarted

/-- The smallest interval that holds both. -/
def hull (one other : Interval L) : Interval L where
  first := if one.first < other.first then one.first else other.first
  last := if other.last < one.last then one.last else other.last
  label := one.label

/-- The next interval has the brush's label and touches it. -/
theorem Painting.absorb
    (painting : Painting low high false started passed kept brush (interval :: rest))
    (sameLabel : brush.label = interval.label)
    (touchesLow : brush.first - 1 ≤ interval.last)
    (touchesHigh : interval.first - 1 ≤ brush.last) :
    Painting low high false true (passed ++ [interval]) kept (hull brush interval) rest := by
  obtain ⟨behind, restOrdered⟩ := pairwise_cons.mp painting.restOrdered
  have reaches := painting.reaches
  have range := painting.range
  -- A brush that went beyond its range touches nothing any more.
  have exactHigh : brush.last = high := by
    by_contra different
    have gap := (painting.beyond (by omega) interval mem_cons_self).2 sameLabel
    omega
  refine
    { range := range
      nonempty := fun other member => painting.nonempty other (mem_cons_of_mem _ member)
      keptOrdered := painting.keptOrdered
      restOrdered := restOrdered
      keptBefore := ?_
      apart := fun one isKept other isRest =>
        painting.apart one isKept other (mem_cons_of_mem _ isRest)
      reaches := ?_
      exact_of_erase := fun isErase => nomatch isErase
      outside := ?_
      beyond := ?_
      fresh := fun isFresh => nomatch isFresh
      above := ?_ }
  · intro one isKept
    have beforeBrush := painting.keptBefore one isKept
    have beforeNext := painting.apart one isKept interval mem_cons_self
    rw [Interval.Before, ← sameLabel] at beforeNext
    rw [hull]
    split
    · exact beforeBrush
    · exact beforeNext
  · dsimp only [hull]
    omega
  · intro label place notInside
    have union : (hull brush interval).Has place ↔ brush.Has place ∨ interval.Has place := by
      simp only [Interval.Has, hull]
      omega
    rw [holds_append, painting.outside label place notInside, union, holds_cons, ← sameLabel]
    simp [hull, or_assoc, and_or_left]
  · intro further other isRest
    have after := behind other isRest
    have furthest : (hull brush interval).last = interval.last := by
      dsimp only [hull] at further ⊢
      omega
    rw [Interval.Before, furthest]
    exact ⟨after.1, fun same => after.2 (sameLabel ▸ same)⟩
  · intro _ other isRest
    have after := (behind other isRest).1
    cases started with
    | false =>
      have exactLow := (painting.fresh rfl).1
      omega
    | true =>
      exact painting.above rfl other (mem_cons_of_mem _ isRest)

/-- The part of an interval before a place. -/
def cutEnd (interval : Interval L) (place : Int) : Interval L := { interval with last := place - 1 }

/-- The part of an interval after a place. -/
def cutStart (interval : Interval L) (place : Int) : Interval L :=
  { interval with first := place + 1 }

theorem Ordered.cutStart
    {place : Int}
    (ordered : Ordered (interval :: rest)) :
    Ordered (cutStart interval place :: rest) := by
  obtain ⟨behind, others⟩ := pairwise_cons.mp ordered
  exact pairwise_cons.mpr ⟨behind, others⟩

/-- The list after the brush. -/
structure Painted (old new : List (Interval L)) (low high : Int) (paint : L → Prop) : Prop where
  ordered : Ordered new
  paints : Paints old new low high paint

theorem Painting.brush_nonempty
    (painting : Painting low high erase started passed kept brush rest) :
    brush.first ≤ brush.last :=
  Int.le_trans painting.reaches.1 (Int.le_trans painting.range painting.reaches.2)

/-- The brush ends before the rest. -/
theorem Painting.finish
    (painting : Painting low high erase started passed kept brush rest)
    (restAfter : ∀ other ∈ rest, brush.Before other) :
    Painted (passed ++ rest) (kept ++ mark erase brush ++ rest) low high (Paint erase brush) := by
  refine ⟨ordered_result painting.keptOrdered painting.restOrdered
    painting.brush_nonempty painting.keptBefore restAfter,
    paints_result painting.reaches painting.exact_of_erase painting.keptBefore restAfter ?_⟩
  intro label place notInside
  rw [holds_append, painting.outside label place notInside, or_assoc]

variable (painting : Painting low high erase started passed kept brush (interval :: rest))
include painting

/-- The next interval ends before the brush. -/
theorem Painting.skip
    (before : interval.Before brush) :
    Painting low high erase started (passed ++ [interval]) (kept ++ [interval]) brush rest := by
  obtain ⟨behind, restOrdered⟩ := pairwise_cons.mp painting.restOrdered
  have later {other : Interval L} : other ∈ rest → other ∈ interval :: rest := mem_cons_of_mem _
  refine
    { painting with
      nonempty := fun other member => painting.nonempty other (later member)
      keptOrdered := ?_
      restOrdered := restOrdered
      keptBefore := ?_
      apart := ?_
      outside := ?_
      beyond := fun further other member => painting.beyond further other (later member)
      above := fun isStarted other member =>
        painting.above isStarted other (later member) }
  · refine pairwise_append.mpr ⟨painting.keptOrdered, pairwise_singleton _ _, ?_⟩
    intro one isKept other isNext
    rw [mem_singleton.mp isNext]
    exact painting.apart one isKept interval mem_cons_self
  · exact forall_mem_append.mpr ⟨painting.keptBefore, forall_mem_singleton.mpr before⟩
  · refine forall_mem_append.mpr ⟨?_, forall_mem_singleton.mpr behind⟩
    intro one isKept other isRest
    exact painting.apart one isKept other (later isRest)
  · intro label place notInside
    rw [holds_append, holds_append, painting.outside label place notInside]
    exact or_right_comm

theorem Painting.low_le (inBrush : brush.first ≤ interval.first) : low ≤ interval.first := by
  cases started with
  | false => exact (painting.fresh rfl).1 ▸ inBrush
  | true => exact painting.above rfl interval mem_cons_self

theorem Painting.last_eq (inBrush : interval.first ≤ brush.last) : brush.last = high := by
  have reaches := painting.reaches
  by_contra different
  have gap := (painting.beyond (by omega) interval mem_cons_self).1
  omega

/-- The next interval lies inside the brush. -/
theorem Painting.cover
    (startsIn : brush.first ≤ interval.first)
    (endsIn : interval.last ≤ brush.last) :
    Painting low high erase true (passed ++ [interval]) kept brush rest := by
  obtain ⟨behind, restOrdered⟩ := pairwise_cons.mp painting.restOrdered
  have nonempty := painting.nonempty interval mem_cons_self
  have fromLow := painting.low_le startsIn
  have exactHigh := painting.last_eq (by omega)
  refine
    { painting with
      nonempty := fun other member => painting.nonempty other (mem_cons_of_mem _ member)
      restOrdered := restOrdered
      apart := fun one isKept other isRest =>
        painting.apart one isKept other (mem_cons_of_mem _ isRest)
      outside := ?_
      beyond := fun further => absurd further (by omega)
      fresh := fun isFresh => nomatch isFresh
      above := ?_ }
  · intro label place notInside
    have notIn : ¬ interval.Has place := by
      rw [Interval.Has]
      omega
    rw [holds_append, painting.outside label place notInside, holds_cons]
    simp [notIn, or_false]
  · intro _ other isRest
    have after := (behind other isRest).1
    omega

theorem Painting.first_eq
    (startsBefore : interval.first < brush.first) :
    brush.first = low ∧ brush.last = high := by
  cases started with
  | false => exact painting.fresh rfl
  | true =>
    have fromLow := painting.above rfl interval mem_cons_self
    have reaches := painting.reaches
    omega

theorem Painting.ordered_cutEnd : Ordered (kept ++ [cutEnd interval brush.first]) := by
  refine pairwise_append.mpr ⟨painting.keptOrdered, pairwise_singleton _ _, ?_⟩
  intro one isKept other isNext
  rw [mem_singleton.mp isNext]
  exact painting.apart one isKept interval mem_cons_self

section
variable (otherLabel : brush.label ≠ interval.label)
include otherLabel

theorem Painting.cutEnd_before :
    ∀ one ∈ kept ++ [cutEnd interval brush.first], one.Before brush := by
  refine forall_mem_append.mpr ⟨painting.keptBefore, forall_mem_singleton.mpr ?_⟩
  exact ⟨Int.sub_one_lt_of_le (Int.le_refl _), fun same => absurd same.symm otherLabel⟩

/-- The next interval starts before the brush, ends in it. -/
theorem Painting.cut
    (startsBefore : interval.first < brush.first)
    (reachesIn : brush.first ≤ interval.last)
    (endsIn : interval.last ≤ brush.last) :
    Painting low high erase true (passed ++ [interval])
    (kept ++ [cutEnd interval brush.first]) brush rest := by
  obtain ⟨behind, restOrdered⟩ := pairwise_cons.mp painting.restOrdered
  obtain ⟨exactLow, exactHigh⟩ := painting.first_eq startsBefore
  refine
    { painting with
      nonempty := fun other member => painting.nonempty other (mem_cons_of_mem _ member)
      keptOrdered := painting.ordered_cutEnd
      restOrdered := restOrdered
      keptBefore := painting.cutEnd_before otherLabel
      apart := ?_
      outside := ?_
      beyond := fun further => absurd further (by omega)
      fresh := fun isFresh => nomatch isFresh
      above := ?_ }
  · intro one member other isRest
    rcases mem_append.mp member with isKept | isNext
    · exact painting.apart one isKept other (mem_cons_of_mem _ isRest)
    rw [mem_singleton.mp isNext]
    have after := behind other isRest
    refine ⟨?_, fun same => ?_⟩
    · change brush.first - 1 < other.first
      have gap := after.1
      omega
    · change brush.first - 1 + 1 < other.first
      have gap := after.2 same
      omega
  · intro label place notInside
    have samePart : interval.Has place ↔ (cutEnd interval brush.first).Has place := by
      simp only [Interval.Has, cutEnd]
      omega
    rw [holds_append, holds_append, holds_cons, holds_cons,
      painting.outside label place notInside, samePart]
    exact or_right_comm
  · intro _ other isRest
    have after := (behind other isRest).1
    omega

/-- The rest of an interval after the brush, and what follows. -/
theorem Painting.before_cutStart
    (endsAfter : brush.last < interval.last) :
    ∀ other ∈ cutStart interval brush.last :: rest, brush.Before other := by
  intro other member
  rcases mem_cons.mp member with rfl | isRest
  · exact ⟨Int.lt_succ _, fun same => absurd same otherLabel⟩
  · have after := ((pairwise_cons.mp painting.restOrdered).1 other isRest).1
    exact ⟨by omega, fun _ => by omega⟩

/-- The next interval reaches out at the brush's end. -/
theorem Painting.finish_cutStart
    (startsIn : brush.first ≤ interval.first)
    (startsBefore : interval.first ≤ brush.last)
    (endsAfter : brush.last < interval.last) :
    Painted (passed ++ interval :: rest)
    (kept ++ mark erase brush ++ cutStart interval brush.last :: rest)
    low high (Paint erase brush) := by
  have fromLow := painting.low_le startsIn
  have exactHigh := painting.last_eq startsBefore
  have restAfter := painting.before_cutStart otherLabel endsAfter
  refine ⟨ordered_result painting.keptOrdered painting.restOrdered.cutStart
    painting.brush_nonempty painting.keptBefore restAfter,
    paints_result painting.reaches painting.exact_of_erase painting.keptBefore restAfter ?_⟩
  intro label place notInside
  have samePart : interval.Has place ↔ (cutStart interval brush.last).Has place := by
    simp only [Interval.Has, cutStart]
    omega
  rw [holds_append, holds_cons, holds_cons,
    painting.outside label place notInside, samePart, or_assoc]
  rfl

/-- The next interval reaches out on both sides. -/
theorem Painting.finish_split
    (startsBefore : interval.first < brush.first)
    (endsAfter : brush.last < interval.last) :
    Painted (passed ++ interval :: rest)
    (kept ++ [cutEnd interval brush.first] ++ mark erase brush ++
    cutStart interval brush.last :: rest) low high (Paint erase brush) := by
  obtain ⟨exactLow, exactHigh⟩ := painting.first_eq startsBefore
  have range := painting.range
  have keptBefore := painting.cutEnd_before otherLabel
  have restAfter := painting.before_cutStart otherLabel endsAfter
  refine ⟨ordered_result painting.ordered_cutEnd
    painting.restOrdered.cutStart painting.brush_nonempty keptBefore
    restAfter, paints_result painting.reaches painting.exact_of_erase keptBefore restAfter ?_⟩
  intro label place notInside
  have sameParts : interval.Has place ↔ (cutEnd interval brush.first).Has place ∨
      (cutStart interval brush.last).Has place := by
    simp only [Interval.Has, cutEnd, cutStart]
    omega
  rw [holds_append, holds_append, holds_cons, holds_cons, holds_cons,
    painting.outside label place notInside]
  simp only [not_holds_nil]
  tauto

end

end EchoKernel.IntervalPaint
