import EchoKernel.BinderPages

namespace EchoKernel.Binder

open IntervalTiling Rbtree List

/-!
# What holds between two calls

The list tiles the area without neighbouring free buffers, allocated buffers
have the size they were charged for, and the pages in use are those they
overlap.
-/

/-- The size of an allocation: at least a pointer. -/
def chargedSize (buffer : BinderBuffer) : BitVec 32 :=
  if storedSize buffer < sizeofPtr then sizeofPtr else storedSize buffer

/-- No two neighbouring buffers are free. -/
def Coalesced (alloc : BinderAlloc) : Prop :=
  alloc.buffers.IsChain fun first second =>
    ¬ (alloc.isFree first = true ∧ alloc.isFree second = true)

/-- The area is a range of pages below the end of memory. -/
structure AreaMapped (alloc : BinderAlloc) : Prop where
  positive : 0 < alloc.buffer
  aligned : alloc.buffer % pageSize = 0
  sizeAligned : alloc.bufferSize % pageSize = 0
  bounded : alloc.finish + pageSize ≤ 2 ^ 32

theorem AreaMapped.congr
    {alloc next : BinderAlloc}
    (area : AreaMapped alloc)
    (sameBuffer : next.buffer = alloc.buffer)
    (sameSize : next.bufferSize = alloc.bufferSize) :
    AreaMapped next := by
  obtain ⟨positive, aligned, sizeAligned, bounded⟩ := area
  rw [BinderAlloc.finish, ← sameBuffer, ← sameSize] at bounded
  exact ⟨sameBuffer ▸ positive, sameBuffer ▸ aligned, sameSize ▸ sizeAligned, bounded⟩

/-- List, trees and buffer structures between two calls. -/
structure WellFormed (alloc : BinderAlloc) : Prop where
  area : AreaMapped alloc
  ordered : Ordered alloc []
  coalesced : Coalesced alloc
  sized : ∀ buffer ∈ alloc.buffers, alloc.isFree buffer = false →
      binderAllocBufferSize alloc buffer = (chargedSize (alloc.mem buffer)).toNat
  noTransaction : ∀ buffer ∈ alloc.buffers, (alloc.mem buffer).transaction = false

/-- The buffer has bytes in the page. -/
def Overlaps (alloc : BinderAlloc) (buffer : BufferPtr) (index : Nat) : Prop :=
  alloc.start buffer < alloc.buffer + (index + 1) * pageSize ∧ alloc.buffer + index * pageSize <
      alloc.start buffer + binderAllocBufferSize alloc buffer

/-- An allocated buffer has bytes in the page. -/
def Used (alloc : BinderAlloc) (buffers : List BufferPtr) (index : Nat) : Prop :=
  ∃ buffer ∈ buffers, alloc.isFree buffer = false ∧ Overlaps alloc buffer index

/-- The pages in use have bytes of allocated buffers. -/
structure PagesMatch (alloc : BinderAlloc) : Prop where
  used : ∀ index, Used alloc alloc.buffers index → (alloc.pages.page index).Active
  unused : ∀ index, ¬ Used alloc alloc.buffers index → (alloc.pages.page index).Idle
  silent : alloc.pages.warnings = []

section
variable {alloc : BinderAlloc} {before middle after : List BufferPtr}

/--
Around a stretch between allocated buffers, the pages of the other buffers are
those that reach out of the stretch.
-/
theorem used_outside
    (area : AreaMapped alloc)
    {loose : List BufferPtr}
    (ordered : Ordered alloc loose)
    (shape : alloc.buffers = before ++ (middle ++ after))
    (beforeEnd : ∀ prev ∈ before.getLast?, alloc.isFree prev = false)
    (afterStart : ∀ next ∈ after.head?, alloc.isFree next = false)
    {index : Nat}
    (fromLow : nextStart alloc.start alloc.finish (middle ++ after) <
      alloc.buffer + (index + 1) * pageSize)
    (toHigh : alloc.buffer + index * pageSize < nextStart alloc.start alloc.finish after) :
    Used alloc (before ++ after) index ↔
    alloc.buffer + index * pageSize < nextStart alloc.start alloc.finish (middle ++ after) ∨
    nextStart alloc.start alloc.finish after < alloc.buffer + (index + 1) * pageSize := by
  have covers := ordered.tiles
  rw [shape] at covers
  obtain ⟨low, beforeCovers, restCovers⟩ := tiles_append.mp covers
  obtain ⟨high, middleCovers, afterCovers⟩ := tiles_append.mp restCovers
  have sizes : ∀ buffer ∈ before ++ (middle ++ after), binderAllocBufferSize alloc buffer =
      extent alloc.start alloc.finish buffer (before ++ (middle ++ after)) := by
    intro buffer member
    rw [← shape] at member ⊢
    exact binderAllocBufferSize_eq alloc member
  rw [restCovers.nextStart_eq] at fromLow ⊢
  rw [afterCovers.nextStart_eq] at toHigh ⊢
  constructor
  · rintro ⟨buffer, member, -, startsBelow, endsAbove⟩
    rcases mem_append.mp member with inBefore | inAfter
    · left
      rw [sizes buffer (mem_append_left _ inBefore),
        extent_append_left inBefore, restCovers.nextStart_eq] at endsAbove
      exact endsAbove.trans_le (beforeCovers.extent_le inBefore).2
    · right
      exact Nat.lt_of_le_of_lt (afterCovers.start_mem inAfter).1 startsBelow
  rintro (reachesLow | reachesHigh)
  · rcases eq_nil_or_concat' before with rfl | ⟨rest, last, rfl⟩
    · have atBase : alloc.buffer = low := beforeCovers
      omega
    have isLast : last ∈ (rest ++ [last]).getLast? := by simp
    have inBefore : last ∈ rest ++ [last] := by simp
    have startsBelow := (beforeCovers.start_mem inBefore).2
    have outside := (notMem_of_nodup_middle beforeCovers.nodup).1
    refine ⟨last, mem_append_left _ inBefore, beforeEnd last isLast, by omega, ?_⟩
    rw [sizes last (mem_append_left _ inBefore),
      extent_append_left inBefore, restCovers.nextStart_eq, extent_middle outside]
    show _ < _ + (low - _)
    omega
  · cases after with
    | nil =>
      have atEnd : high = alloc.finish := afterCovers
      have sizeAligned := area.sizeAligned
      rw [BinderAlloc.finish] at atEnd
      simp only [pageSize] at *
      omega
    | cons next rest =>
      have startsHere : alloc.start next = high := afterCovers.1
      exact ⟨next, by simp, afterStart next (by simp), by omega, by omega⟩

end

variable {alloc next : BinderAlloc} {before after : List BufferPtr}

/-- The pages match again after the right changes. -/
theorem PagesMatch.of_changed
    (pagesMatch : PagesMatch alloc)
    {indexes : List Nat}
    (inside : ∀ index ∈ indexes, (Used next next.buffers index ∧ (next.pages.page index).Active) ∨
      (¬ Used next next.buffers index ∧ (next.pages.page index).Idle))
    (outside : ∀ index, index ∉ indexes →
      next.pages.page index = alloc.pages.page index ∧
      (Used next next.buffers index ↔ Used alloc alloc.buffers index))
    (warnings : next.pages.warnings = alloc.pages.warnings) :
    PagesMatch next := by
  refine ⟨?_, ?_, warnings.trans pagesMatch.silent⟩
  · intro index used
    by_cases isChanged : index ∈ indexes
    · rcases inside index isChanged with ⟨-, active⟩ | ⟨notUsed, -⟩
      · exact active
      · exact absurd used notUsed
    · obtain ⟨samePage, sameUse⟩ := outside index isChanged
      rw [samePage]
      exact pagesMatch.used index (sameUse.mp used)
  · intro index notUsed
    by_cases isChanged : index ∈ indexes
    · rcases inside index isChanged with ⟨used, -⟩ | ⟨-, idle⟩
      · exact absurd used notUsed
      · exact idle
    · obtain ⟨samePage, sameUse⟩ := outside index isChanged
      rw [samePage]
      exact pagesMatch.unused index (fun used => notUsed (sameUse.mpr used))

/-- The buffers around a free buffer are allocated. -/
theorem Coalesced.neighbours
    (coalesced : Coalesced alloc)
    {buffer : BufferPtr}
    (shape : alloc.buffers = before ++ buffer :: after)
    (isFree : alloc.isFree buffer = true) :
    (∀ prev ∈ before.getLast?, alloc.isFree prev = false) ∧ ∀ next ∈ after.head?,
    alloc.isFree next = false := by
  rw [Coalesced, shape, isChain_append, isChain_cons] at coalesced
  obtain ⟨-, ⟨nextApart, -⟩, prevApart⟩ := coalesced
  constructor
  · intro prev isLast
    have apart := prevApart prev isLast buffer rfl
    exact Bool.eq_false_iff.mpr fun prevFree => apart ⟨prevFree, isFree⟩
  · intro next isHead
    have apart := nextApart next isHead
    exact Bool.eq_false_iff.mpr fun nextFree => apart ⟨isFree, nextFree⟩

/-- In a coalesced list a free buffer has allocated neighbours. -/
theorem coalesced_of_neighbours
    {buffer : BufferPtr}
    (shape : next.buffers = before ++ buffer :: after)
    (beforeChain : before.IsChain fun first second =>
      ¬ (next.isFree first = true ∧ next.isFree second = true))
    (afterChain : after.IsChain fun first second =>
      ¬ (next.isFree first = true ∧ next.isFree second = true))
    (beforeEnd : ∀ prev ∈ before.getLast?, next.isFree prev = false)
    (afterStart : ∀ later ∈ after.head?, next.isFree later = false) :
    Coalesced next := by
  unfold Coalesced
  rw [shape]
  refine isChain_append.mpr ⟨beforeChain, ?_, ?_⟩
  · refine isChain_cons.mpr ⟨?_, afterChain⟩
    rintro later isHead ⟨-, laterFree⟩
    rw [afterStart later isHead] at laterFree
    cases laterFree
  · rintro prev isLast later - ⟨prevFree, -⟩
    rw [beforeEnd prev isLast] at prevFree
    cases prevFree

end EchoKernel.Binder
