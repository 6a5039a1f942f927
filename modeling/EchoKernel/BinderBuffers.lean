import EchoKernel.BinderAlloc
import EchoKernel.IntervalTiling
import Mathlib.Data.List.Chain

namespace EchoKernel.Binder

open IntervalTiling Rbtree List

/-!
# The buffer list and its two trees

The size of a buffer is its extent in the tiling by the buffer list. Inserting
keeps a tree ordered by size or address, and the search for a best fit ends
before the first larger buffer.
-/

namespace BinderAlloc

section
variable (alloc : BinderAlloc) (buffer : BufferPtr)

def start : Nat := (alloc.mem buffer).data

def finish : Nat := alloc.buffer + alloc.bufferSize

def isFree : Bool := (alloc.mem buffer).free

end

end BinderAlloc

section
variable {before after : List BufferPtr} {buffer other : BufferPtr}

theorem binderBufferNext_middle
    (outside : buffer ∉ before) :
    binderBufferNext buffer (before ++ buffer :: after) = after.head? := by
  induction before with
  | nil => simp [binderBufferNext]
  | cons first rest inductionHypothesis =>
    rw [mem_cons, not_or] at outside
    rw [cons_append, binderBufferNext, if_neg (Ne.symm outside.1)]
    exact inductionHypothesis outside.2

/-- The last buffer that a search has passed. -/
theorem prevFrom_middle
    (outside : buffer ∉ before)
    (prev : Option BufferPtr) :
    prevFrom buffer prev (before ++ buffer :: after) = before.getLast?.or prev := by
  induction before generalizing prev with
  | nil => simp [prevFrom]
  | cons first rest inductionHypothesis =>
    rw [mem_cons, not_or] at outside
    rw [cons_append, prevFrom, if_neg (Ne.symm outside.1), inductionHypothesis outside.2]
    cases rest with
    | nil => rfl
    | cons second others =>
      rfl

theorem binderBufferPrev_middle
    (outside : buffer ∉ before) :
    binderBufferPrev buffer (before ++ buffer :: after) = before.getLast? := by
  rw [binderBufferPrev, prevFrom_middle outside, Option.or_none]

theorem listAdd_middle
    (new : BufferPtr)
    (outside : buffer ∉ before) :
    listAdd new buffer (before ++ buffer :: after) = before ++ buffer :: new :: after := by
  induction before with
  | nil => simp [listAdd]
  | cons first rest inductionHypothesis =>
    rw [mem_cons, not_or] at outside
    rw [cons_append, listAdd, if_neg (Ne.symm outside.1),
      inductionHypothesis outside.2, cons_append]

end

/-- The size of a buffer of the list is its extent. -/
theorem binderAllocBufferSize_eq
    (alloc : BinderAlloc)
    {buffer : BufferPtr}
    (member : buffer ∈ alloc.buffers) :
    binderAllocBufferSize alloc buffer = extent alloc.start alloc.finish buffer alloc.buffers := by
  unfold binderAllocBufferSize
  generalize alloc.buffers = buffers at member
  induction buffers with
  | nil => cases member
  | cons first rest inductionHypothesis =>
    unfold binderBufferNext extent
    by_cases here : first = buffer
    · simp only [here]
      cases rest <;> rfl
    rcases mem_cons.mp member with rfl | inRest
    · exact absurd rfl here
    · simp only [here]
      exact inductionHypothesis inRest

section
variable {alloc : BinderAlloc} {newBuffer : BufferPtr}

/-- Free buffers are inserted by size. -/
theorem exists_binderInsertFreeBuffer
    (newFree : alloc.isFree newBuffer = true)
    (allFree : ∀ buffer ∈ alloc.freeBuffers.toList, alloc.isFree buffer = true)
    (bySize : alloc.freeBuffers.toList.Pairwise fun first second =>
      binderAllocBufferSize alloc first ≤ binderAllocBufferSize alloc second) :
    ∃ tree, binderInsertFreeBuffer alloc newBuffer = some { alloc with freeBuffers := tree } ∧
        tree.toList.Perm (newBuffer :: alloc.freeBuffers.toList) ∧
        tree.toList.Pairwise fun first second =>
          binderAllocBufferSize alloc first ≤ binderAllocBufferSize alloc second := by
  obtain ⟨links, walked, permuted, sorted⟩ :=
    exists_insert_ordered newBuffer bySize (fun buffer member => if_pos (allFree buffer member))
      (fun ordered smaller => smaller.trans_le ordered)
      (fun _ _ smaller => smaller.le) (fun _ _ notSmaller => not_lt.mp notSmaller)
  refine ⟨rbInsertColor newBuffer links, ?_, permuted, sorted⟩
  have newIsFree : (alloc.mem newBuffer).free = true := newFree
  have found : walk (freeTurn alloc newBuffer) alloc.freeBuffers [] = some links := walked
  simp [binderInsertFreeBuffer, newIsFree, found]

/-- Allocated buffers are inserted by address. -/
theorem exists_binderInsertAllocatedBufferLocked
    (newAllocated : alloc.isFree newBuffer = false)
    (allAllocated : ∀ buffer ∈ alloc.allocatedBuffers.toList, alloc.isFree buffer = false)
    (apart : ∀ buffer ∈ alloc.allocatedBuffers.toList, alloc.start buffer ≠ alloc.start newBuffer)
    (byAddress : alloc.allocatedBuffers.toList.Pairwise fun first second => alloc.start first <
      alloc.start second) :
    ∃ tree, binderInsertAllocatedBufferLocked alloc newBuffer =
          some { alloc with allocatedBuffers := tree } ∧
        tree.toList.Perm (newBuffer :: alloc.allocatedBuffers.toList) ∧
        tree.toList.Pairwise fun first second =>
          alloc.start first < alloc.start second := by
  have turns : ∀ buffer ∈ alloc.allocatedBuffers.toList, allocatedTurn alloc newBuffer buffer =
      if alloc.start newBuffer < alloc.start buffer then some Turn.left else some Turn.right := by
    intro buffer member
    have allocated : (alloc.mem buffer).free = false := allAllocated buffer member
    have different : (alloc.mem buffer).data ≠ (alloc.mem newBuffer).data := apart buffer member
    simp only [allocatedTurn, allocated, Bool.false_eq_true, BinderAlloc.start]
    by_cases below : (alloc.mem newBuffer).data < (alloc.mem buffer).data
    · simp [below]
    have aboveIt : (alloc.mem buffer).data < (alloc.mem newBuffer).data :=
      Nat.lt_of_le_of_ne (not_lt.mp below) different
    simp [below, aboveIt]
  obtain ⟨links, walked, permuted, sorted⟩ :=
    exists_insert_ordered newBuffer byAddress turns
      (fun ordered below => below.trans ordered) (fun _ _ below => below)
      (fun buffer member notBelow =>
        Nat.lt_of_le_of_ne (not_lt.mp notBelow) (apart buffer member))
  refine ⟨rbInsertColor newBuffer links, ?_, permuted, sorted⟩
  have newIsAllocated : (alloc.mem newBuffer).free = false := newAllocated
  simp [binderInsertAllocatedBufferLocked, newIsAllocated, walked]

end

variable {alloc : BinderAlloc} {size : Nat}

/-- The search ends at a buffer of the size, or between the smaller and the larger ones. -/
theorem exists_bestFit
    {tree : RbTree BufferPtr}
    (allFree : ∀ buffer ∈ tree.toList, alloc.isFree buffer = true)
    (bySize : tree.toList.Pairwise fun first second => binderAllocBufferSize alloc first ≤
      binderAllocBufferSize alloc second)
    (best : Option BufferPtr) :
    (∃ buffer ∈ tree.toList, bestFit alloc size tree best = some (some buffer, true) ∧
    binderAllocBufferSize alloc buffer = size) ∨ ∃ before after, tree.toList = before ++ after ∧
    bestFit alloc size tree best = some (after.head?.or best, false) ∧
    (∀ buffer ∈ before, binderAllocBufferSize alloc buffer < size) ∧
    ∀ buffer ∈ after, size < binderAllocBufferSize alloc buffer := by
  induction tree generalizing best with
  | null => exact .inr ⟨[], [], rfl, rfl, by simp, by simp⟩
  | node color left here right leftHypothesis rightHypothesis =>
    obtain ⟨leftSorted, hereSorted, crossing⟩ := pairwise_append.mp bySize
    obtain ⟨fromHere, rightSorted⟩ := pairwise_cons.mp hereSorted
    have hereFree : (alloc.mem here).free = true := allFree here (by simp)
    rcases Nat.lt_trichotomy size (binderAllocBufferSize alloc here) with
      larger | same | smaller
    · have descends : bestFit alloc size (.node color left here right) best =
          bestFit alloc size left (some here) := by
        simp [bestFit, hereFree, larger]
      rw [descends]
      rcases leftHypothesis (fun buffer member => allFree buffer (by simp [member]))
          leftSorted (some here) with
        ⟨buffer, member, found, exactly⟩ |
          ⟨before, after, shape, found, beforeSmaller, afterLarger⟩
      · exact .inl ⟨buffer, by simp [member], found, exactly⟩
      refine .inr ⟨before, after ++ here :: right.toList, by
        simp [shape], ?_, beforeSmaller, ?_⟩
      · rw [found]
        cases after <;> rfl
      intro buffer member
      rw [mem_append, mem_cons] at member
      rcases member with inAfter | rfl | inRight
      · exact afterLarger buffer inAfter
      · exact larger
      · exact larger.trans_le (fromHere buffer inRight)
    · refine .inl ⟨here, by simp, ?_, same.symm⟩
      simp [bestFit, hereFree, same, ↓reduceIte]
    have descends : bestFit alloc size (.node color left here right) best =
        bestFit alloc size right best := by
      simp [bestFit, hereFree, smaller, Nat.lt_asymm smaller]
    rw [descends]
    rcases rightHypothesis (fun buffer member => allFree buffer (by simp [member]))
        rightSorted best with
      ⟨buffer, member, found, exactly⟩ |
        ⟨before, after, shape, found, beforeSmaller, afterLarger⟩
    · exact .inl ⟨buffer, by simp [member], found, exactly⟩
    refine .inr ⟨left.toList ++ here :: before, after, by
      simp [shape], found, ?_, afterLarger⟩
    intro buffer member
    rw [mem_append, mem_cons] at member
    rcases member with inLeft | rfl | inBefore
    · exact Nat.lt_of_le_of_lt (crossing buffer inLeft here (by simp)) smaller
    · exact smaller
    · exact beforeSmaller buffer inBefore

end EchoKernel.Binder
