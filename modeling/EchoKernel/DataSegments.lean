import Mathlib.Init

namespace EchoKernel.DataSegments

open List

/-!
# Segments of data at offsets

Segments lie in a row when each starts at or behind the end of the one before.
If they fill an interval, their data is that of the interval.
-/

variable {Segment Item : Type}

section
variable (offset : Segment → Nat) (data : Segment → List Item)

def stop (segment : Segment) : Nat := offset segment + (data segment).length

/-- Segments in order, without overlap, from some place on. -/
def Laid : Nat → List Segment → Prop
  | _, [] => True
  | place, segment :: rest =>
    place ≤ offset segment ∧ Laid (stop offset data segment) rest

/-- The data of all segments, one behind the other. -/
def joined (segments : List Segment) : List Item := segments.flatMap data

end

variable {offset : Segment → Nat} {data : Segment → List Item}
variable {place high : Nat} {segments before after : List Segment}
variable {segment : Segment}

theorem Laid.weaken
    {earlier : Nat}
    (laid : Laid offset data place segments)
    (order : earlier ≤ place) :
    Laid offset data earlier segments := by
  cases segments with
  | nil => trivial
  | cons segment rest => exact ⟨Nat.le_trans order laid.1, laid.2⟩

/-- Where the last of some segments ends. -/
def endOf (offset : Segment → Nat) (data : Segment → List Item) : Nat → List Segment → Nat
  | place, [] => place
  | _, segment :: rest => endOf offset data (stop offset data segment) rest

theorem laid_append :
    Laid offset data place (before ++ after) ↔ Laid offset data place before ∧
    Laid offset data (endOf offset data place before) after := by
  induction before generalizing place with
  | nil => exact ⟨fun laid => ⟨trivial, laid⟩, And.right⟩
  | cons segment rest inductionHypothesis =>
    rw [cons_append, Laid, inductionHypothesis]
    exact and_assoc.symm

theorem endOf_append :
    endOf offset data place (before ++ after) =
    endOf offset data (endOf offset data place before) after := by
  induction before generalizing place with
  | nil => rfl
  | cons segment rest inductionHypothesis => exact inductionHypothesis

/-- All segments of a layout start behind its place. -/
theorem Laid.le_of_mem
    (laid : Laid offset data place segments)
    (member : segment ∈ segments) :
    place ≤ offset segment := by
  induction segments generalizing place with
  | nil => cases member
  | cons first rest inductionHypothesis =>
    rcases mem_cons.mp member with rfl | member
    · exact laid.1
    have later := inductionHypothesis laid.2 member
    have order := laid.1
    rw [stop] at later
    omega

section
variable (laid : Laid offset data place segments)
  (inside : ∀ segment ∈ segments, stop offset data segment ≤ high) (order : place ≤ high)
include laid inside order

/-- Segments in an interval have at most its length. -/
theorem Laid.length_le : place + (joined data segments).length ≤ high := by
  induction segments generalizing place with
  | nil => exact order
  | cons segment rest inductionHypothesis =>
    have first := laid.1
    have ends := inside segment mem_cons_self
    have others := inductionHypothesis laid.2
      (fun other member => inside other (mem_cons_of_mem _ member)) ends
    rw [joined, flatMap_cons, length_append]
    rw [stop, joined] at others
    omega

/-- Segments filling an interval have its data. -/
theorem Laid.getElem_joined
    (full : place + (joined data segments).length = high)
    {position : Nat}
    (reaches : place ≤ position)
    (below : position < high) :
    ∃ segment ∈ segments, offset segment ≤
    position ∧ position < stop offset data segment ∧
    (joined data segments)[position - place]? = (data segment)[position - offset segment]? := by
  induction segments generalizing place with
  | nil =>
    simp only [joined, flatMap_nil, length_nil] at full
    omega
  | cons segment rest inductionHypothesis =>
    have first := laid.1
    have ends := inside segment mem_cons_self
    have restInside (other : Segment) (member : other ∈ rest) :=
      inside other (mem_cons_of_mem _ member)
    have bound := laid.2.length_le restInside ends
    have parts : joined data (segment :: rest) = data segment ++ joined data rest := flatMap_cons
    rw [parts, length_append] at full
    have start : offset segment = place := by
      rw [stop] at bound
      omega
    rw [parts]
    by_cases here : position < stop offset data segment
    · refine ⟨segment, mem_cons_self, by omega, here, ?_⟩
      rw [start, List.getElem?_append_left (by omega)]
    obtain ⟨holder, member, holderReaches, holderEnds, same⟩ :=
      inductionHypothesis laid.2 restInside ends (by rw [stop]; omega) (by omega)
    refine ⟨holder, mem_cons_of_mem _ member, holderReaches, holderEnds, ?_⟩
    rw [stop] at here
    rw [← same, List.getElem?_append_right (by omega), stop]
    exact congrArg _ (by omega)

end

end EchoKernel.DataSegments
