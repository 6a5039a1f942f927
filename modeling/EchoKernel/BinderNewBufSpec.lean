import EchoKernel.BinderNewBuf

namespace EchoKernel.Binder

open IntervalTiling Rbtree List PagesMatch

/-!
# Every allocation request

Around a free buffer the pages in use are those that reach out of it, so an
allocation populates unused pages. It fails and changes pages only, or makes a
new buffer.
-/

section
variable {alloc : BinderAlloc} {buffer : BufferPtr}

/-- Around a free buffer the pages in use reach out of it. -/
theorem WellFormed.used_around
    (wellFormed : WellFormed alloc)
    (member : buffer ∈ alloc.buffers)
    (isFree : alloc.isFree buffer = true)
    {index : Nat}
    (overlaps : Overlaps alloc buffer index) :
    Used alloc alloc.buffers index ↔ alloc.buffer + index * pageSize < alloc.start buffer ∨
    alloc.start buffer + binderAllocBufferSize alloc buffer <
    alloc.buffer + (index + 1) * pageSize := by
  obtain ⟨before, after, shape⟩ := append_of_mem member
  have covers := wellFormed.ordered.tiles
  rw [shape] at covers
  have ends : alloc.start buffer + binderAllocBufferSize alloc buffer =
      nextStart alloc.start alloc.finish after := by
    rw [binderAllocBufferSize_eq alloc member, shape,
      extent_middle (notMem_of_nodup_middle covers.nodup).1]
    exact Nat.add_sub_cancel' (Nat.le_of_lt covers.lt_nextStart)
  obtain ⟨beforeEnd, afterStart⟩ := wellFormed.coalesced.neighbours shape isFree
  obtain ⟨startsBelow, endsAbove⟩ := overlaps
  rw [ends] at endsAbove ⊢
  have middle := used_outside wellFormed.area wellFormed.ordered
    (show alloc.buffers = before ++ ([buffer] ++ after) from shape)
    beforeEnd afterStart startsBelow endsAbove
  refine Iff.trans ⟨?_, ?_⟩ middle
  · rintro ⟨other, inList, allocated, overlapsOther⟩
    refine ⟨other, ?_, allocated, overlapsOther⟩
    rw [shape] at inList
    simp only [mem_append, mem_cons] at inList ⊢
    rcases inList with inBefore | rfl | inAfter
    · exact .inl inBefore
    · rw [isFree] at allocated
      cases allocated
    · exact .inr inAfter
  · rintro ⟨other, inList, allocated, overlapsOther⟩
    refine ⟨other, ?_, allocated, overlapsOther⟩
    rw [shape]
    simp only [mem_append] at inList ⊢
    tauto

/-- The end of the pages that `size` bytes populate. -/
def endPageAddr (alloc : BinderAlloc) (buffer : BufferPtr) (size : Nat) : Nat :=
  min (pageAlign (alloc.start buffer + size))
    (pageMask (alloc.start buffer + binderAllocBufferSize alloc buffer))

/-- The pages that an allocation populates. -/
def rangeIndexes (alloc : BinderAlloc) (buffer : BufferPtr) (size : Nat) : List Nat :=
  allocateIndexes alloc.buffer (pageAlign (alloc.start buffer)) (endPageAddr alloc buffer size)

theorem WellFormed.range_aligned
    (wellFormed : WellFormed alloc)
    (member : buffer ∈ alloc.buffers)
    (size : Nat) :
    pageAlign (alloc.start buffer) % pageSize = alloc.buffer % pageSize ∧
    endPageAddr alloc buffer size % pageSize = alloc.buffer % pageSize ∧
    alloc.buffer ≤ pageAlign (alloc.start buffer) := by
  have aligned := wellFormed.area.aligned
  have above := (wellFormed.ordered.tiles.start_mem member).1
  simp only [endPageAddr, pageAlign, pageMask, pageSize] at *
  omega

/-- The pages of the range are those only the new buffer needs. -/
theorem WellFormed.mem_rangeIndexes
    (wellFormed : WellFormed alloc)
    (member : buffer ∈ alloc.buffers)
    (isFree : alloc.isFree buffer = true)
    {size : Nat}
    (fits : size ≤ binderAllocBufferSize alloc buffer)
    {index : Nat} :
    index ∈ rangeIndexes alloc buffer size ↔ ¬ Used alloc alloc.buffers index ∧
    alloc.start buffer < alloc.buffer + (index + 1) * pageSize ∧
    alloc.buffer + index * pageSize < alloc.start buffer + size := by
  obtain ⟨startAligned, finishAligned, inside⟩ := wellFormed.range_aligned member size
  rw [rangeIndexes, mem_allocateIndexes startAligned finishAligned inside]
  have needed : (pageAlign (alloc.start buffer) ≤ alloc.buffer + index * pageSize ∧
      alloc.buffer + index * pageSize < endPageAddr alloc buffer size) ↔
      alloc.start buffer ≤ alloc.buffer + index * pageSize ∧
      alloc.buffer + index * pageSize < alloc.start buffer + size ∧
      alloc.buffer + (index + 1) * pageSize ≤
      alloc.start buffer + binderAllocBufferSize alloc buffer := by
    simp only [endPageAddr, pageAlign, pageMask, pageSize] at *
    omega
  rw [needed]
  constructor
  · rintro ⟨fromStart, below, toEnd⟩
    have startsBelow : alloc.start buffer < alloc.buffer + (index + 1) * pageSize := by
      simp only [pageSize] at *
      omega
    rw [wellFormed.used_around member isFree ⟨startsBelow, by omega⟩]
    omega
  · rintro ⟨notUsed, startsBelow, below⟩
    rw [wellFormed.used_around member isFree ⟨startsBelow, by omega⟩] at notUsed
    omega

end

variable {alloc : BinderAlloc} {buffer : BufferPtr}

/-- The pages match if a range stays unused. -/
theorem PagesMatch.of_idle
    (pagesMatch : PagesMatch alloc)
    {indexes : List Nat}
    {pages : BinderPages}
    (notUsed : ∀ index ∈ indexes, ¬ Used alloc alloc.buffers index)
    (idle : ∀ index ∈ indexes, (pages.page index).Idle)
    (others : ∀ index, index ∉ indexes → pages.page index = alloc.pages.page index)
    (warnings : pages.warnings = alloc.pages.warnings) :
    PagesMatch { alloc with pages := pages } := by
  refine @of_changed alloc _ pagesMatch indexes ?_ ?_ warnings
  · intro index member
    exact .inr ⟨notUsed index member, idle index member⟩
  · intro index notMember
    exact ⟨others index notMember, Iff.rfl⟩

/-- The pages match if a populated range is given up. -/
theorem PagesMatch.of_undone
    (pagesMatch : PagesMatch alloc)
    {start finish : Nat}
    {pages : BinderPages}
    (notUsed : ∀ index ∈ allocateIndexes alloc.buffer start finish,
      ¬ Used alloc alloc.buffers index)
    (populated : Populated alloc.pages (allocateIndexes alloc.buffer start finish) pages none)
    (startAligned : start % pageSize = alloc.buffer % pageSize)
    (finishAligned : finish % pageSize = alloc.buffer % pageSize)
    (inside : alloc.buffer ≤ start) :
    PagesMatch { alloc with
        pages := (freeIndexes alloc.buffer start finish).foldl freePage pages } := by
  have sameIndexes : ∀ index, index ∈ freeIndexes alloc.buffer start finish ↔
      index ∈ allocateIndexes alloc.buffer start finish := by
    intro index
    rw [mem_freeIndexes startAligned finishAligned inside,
      mem_allocateIndexes startAligned finishAligned inside]
  obtain ⟨idle, others, warnings⟩ :=
    foldl_freePage (nodup_freeIndexes inside) (fun index member =>
      populated.onSuccess rfl index ((sameIndexes index).mp member))
  refine of_idle pagesMatch ?_ idle ?_ (warnings.trans populated.warnings)
  · intro index member
    exact notUsed index ((sameIndexes index).mp member)
  intro index notMember
  rw [others index notMember]
  exact populated.others index (fun member => notMember ((sameIndexes index).mpr member))

/-- The pages match if a range is populated for a buffer. -/
theorem NewBufOutcome.pagesMatch
    {next : BinderAlloc}
    {dataSize offsetsSize extraBuffersSize size : BitVec 32}
    {isAsync : Bool}
    (outcome : NewBufOutcome alloc next buffer dataSize offsetsSize extraBuffersSize size isAsync)
    (wellFormed : WellFormed alloc)
    (pagesMatch : PagesMatch alloc)
    (populated : Populated alloc.pages (rangeIndexes alloc buffer size.toNat) next.pages none) :
    PagesMatch next := by
  have member : buffer ∈ alloc.buffers := by
    obtain ⟨before, after, remainder, shape, -⟩ := outcome.shape
    simp [shape]
  have inRange := @WellFormed.mem_rangeIndexes alloc buffer wellFormed member
    outcome.wasFree size.toNat outcome.fits
  refine @of_changed alloc next pagesMatch
    (rangeIndexes alloc buffer size.toNat) ?_ ?_ populated.warnings
  · intro index isPopulated
    left
    refine ⟨?_, populated.onSuccess rfl index isPopulated⟩
    rw [outcome.used_iff]
    exact .inr (inRange.mp isPopulated).2
  · intro index notPopulated
    refine ⟨populated.others index notPopulated, ?_⟩
    rw [outcome.used_iff]
    rw [inRange] at notPopulated
    tauto

/-- Every request ends with an error and no effect, or a new buffer. -/
inductive NewBufResult (alloc : BinderAlloc)
    (dataSize offsetsSize extraBuffersSize size : BitVec 32) (isAsync : Bool) :
    BinderAlloc → Except Errno BufferPtr → Prop
  | failed (pages : BinderPages) (errno : Errno) :
      NewBufResult alloc dataSize offsetsSize extraBuffersSize size isAsync
        { alloc with pages := pages } (.error errno)
  | allocated {next : BinderAlloc} (buffer : BufferPtr) (outcome :
        NewBufOutcome alloc next buffer dataSize offsetsSize extraBuffersSize size isAsync) :
      NewBufResult alloc dataSize offsetsSize extraBuffersSize size isAsync
        next (.ok buffer)

/-- After the search an allocation fails without effect or succeeds. -/
theorem exists_takeBuffer
    (wellFormed : WellFormed alloc)
    (pagesMatch : PagesMatch alloc)
    (env : AllocEnv)
    (fresh : ∀ newBuffer ∈ env.kzalloc, newBuffer ∉ alloc.buffers)
    {exactly : Bool}
    {size : BitVec 32}
    (positive : 0 < size.toNat)
    (fits : size.toNat ≤ binderAllocBufferSize alloc buffer)
    (isExact : exactly = true → binderAllocBufferSize alloc buffer = size.toNat)
    {treeBefore treeAfter : List BufferPtr}
    (treeShape : alloc.freeBuffers.toList = treeBefore ++ buffer :: treeAfter)
    (bestFit : binderAllocBufferSize alloc buffer ≠ size.toNat →
      ∀ other ∈ treeBefore, binderAllocBufferSize alloc other < size.toNat)
    (dataSize offsetsSize extraBuffersSize : BitVec 32)
    (isAsync : Bool) :
    ∃ next result,
    takeBuffer env alloc buffer exactly dataSize offsetsSize
    extraBuffersSize size isAsync = some (next, result) ∧ PagesMatch next ∧
    NewBufResult alloc dataSize offsetsSize extraBuffersSize size isAsync next result := by
  have inTree : buffer ∈ alloc.freeBuffers.toList := by simp [treeShape]
  obtain ⟨member, isFree, -⟩ := wellFormed.ordered.mem_freeBuffers.mp inTree
  have inRange := @WellFormed.mem_rangeIndexes alloc buffer wellFormed member isFree size.toNat fits
  obtain ⟨startAligned, finishAligned, inside⟩ := wellFormed.range_aligned member size.toNat
  have silent : alloc.pages.warnOn (exactly && binderAllocBufferSize alloc buffer != size.toNat)
      .sizeMismatch = alloc.pages := by
    cases exactly with
    | false => rfl
    | true => simp [isExact rfl, BinderPages.warnOn]
  obtain ⟨pages, ret, allocates, populated⟩ :=
    exists_allocatePageRange env alloc inside (fun index inIndexes =>
      pagesMatch.unused index (inRange.mp inIndexes).1)
  unfold endPageAddr BinderAlloc.start at allocates
  unfold takeBuffer
  simp only [silent, allocates]
  cases ret with
  | some errno =>
    refine ⟨_, _, rfl, ?_, .failed pages errno⟩
    exact pagesMatch.of_idle (fun index inIndexes =>
        (inRange.mp inIndexes).1)
      (populated.onFailure (by simp)) populated.others populated.warnings
  | none =>
    have ordered := wellFormed.ordered.withPages pages
    have succeeds : ∀ next, NewBufOutcome { alloc with pages := pages } next buffer dataSize
              offsetsSize extraBuffersSize size isAsync →
          next.pages = pages →
          PagesMatch next ∧ NewBufResult alloc dataSize offsetsSize extraBuffersSize size
            isAsync next (.ok buffer) := by
      intro next outcome samePages
      have ofAlloc : NewBufOutcome alloc next buffer dataSize offsetsSize
          extraBuffersSize size isAsync := { outcome with }
      refine ⟨ofAlloc.pagesMatch wellFormed pagesMatch ?_, .allocated buffer ofAlloc⟩
      rw [samePages]
      exact populated
    by_cases same : binderAllocBufferSize alloc buffer = size.toNat
    · obtain ⟨next, claims, outcome, samePages⟩ :=
        exists_claimExact ordered member isFree same dataSize offsetsSize extraBuffersSize isAsync
      simp only [same]
      exact ⟨next, _, claims, succeeds next outcome samePages⟩
    simp only [same]
    cases allocated : env.kzalloc with
    | none =>
      simp only [freePageRange_eq]
      refine ⟨_, _, rfl, ?_, .failed _ .enomem⟩
      exact pagesMatch.of_undone (fun index inIndexes => (inRange.mp inIndexes).1) populated
        startAligned finishAligned inside
    | some newBuffer =>
      obtain ⟨before, after, shape⟩ := append_of_mem member
      obtain ⟨split, next, inserted, claims, outcome, samePages⟩ :=
        exists_claimSplit ordered shape isFree (fresh newBuffer allocated) positive
          (Nat.lt_of_le_of_ne fits (Ne.symm same)) treeShape
          (bestFit same) dataSize offsetsSize extraBuffersSize isAsync
      simp only [inserted]
      exact ⟨next, _, claims, succeeds next outcome samePages⟩

section
variable (dataSize offsetsSize extraBuffersSize : BitVec 32)

/-- The bytes that a request asks for. -/
def requestSize : BitVec 32 := alignPtr dataSize + alignPtr offsetsSize + alignPtr extraBuffersSize

/-- The bytes of a request: at least a pointer. -/
def paddedSize : BitVec 32 :=
  if requestSize dataSize offsetsSize extraBuffersSize < sizeofPtr then sizeofPtr
  else requestSize dataSize offsetsSize extraBuffersSize

theorem paddedSize_pos : 0 < (paddedSize dataSize offsetsSize extraBuffersSize).toNat := by
  unfold paddedSize
  split
  · decide
  rename_i notSmaller
  rw [BitVec.not_lt] at notSmaller
  exact Nat.lt_of_lt_of_le (by decide) notSmaller

end

/-- The checks that an allocation request has to pass. -/
structure Admitted (alloc : BinderAlloc) (dataSize offsetsSize extraBuffersSize : BitVec 32)
    (isAsync : Bool) : Prop where
  dataFits : dataSize ≤ requestSize dataSize offsetsSize extraBuffersSize
  offsetsFit : offsetsSize ≤ requestSize dataSize offsetsSize extraBuffersSize
  extraBuffersFit : extraBuffersSize ≤ requestSize dataSize offsetsSize extraBuffersSize
  asyncSpace : isAsync = true → requestSize dataSize offsetsSize extraBuffersSize +
          sizeofBinderBuffer ≤ alloc.freeAsyncSpace

/--
No allocation runs into a `BUG_ON`. It fails and changes pages only, or passes
the checks and makes a buffer.
-/
theorem exists_binderAllocNewBuf
    (wellFormed : WellFormed alloc)
    (pagesMatch : PagesMatch alloc)
    (env : AllocEnv)
    (fresh : ∀ newBuffer ∈ env.kzalloc, newBuffer ∉ alloc.buffers)
    (dataSize offsetsSize extraBuffersSize : BitVec 32)
    (isAsync : Bool) :
    ∃ next result,
    binderAllocNewBuf env alloc dataSize offsetsSize extraBuffersSize
    isAsync = some (next, result) ∧ PagesMatch next ∧
    NewBufResult alloc dataSize offsetsSize extraBuffersSize
    (paddedSize dataSize offsetsSize extraBuffersSize) isAsync next result ∧
    ∀ buffer, result = .ok buffer →
    Admitted alloc dataSize offsetsSize extraBuffersSize isAsync := by
  have refused : ∀ errno, ∃ next result, some (alloc, Except.error errno) = some (next, result) ∧
      PagesMatch next ∧ NewBufResult alloc dataSize offsetsSize extraBuffersSize
      (paddedSize dataSize offsetsSize extraBuffersSize) isAsync next result ∧
      ∀ buffer, result = .ok buffer →
      Admitted alloc dataSize offsetsSize extraBuffersSize isAsync :=
    fun errno =>
      ⟨_, _, rfl, pagesMatch, .failed alloc.pages errno, fun _ impossible => nomatch impossible⟩
  unfold binderAllocNewBuf
  simp only
  rw [← requestSize, ← paddedSize]
  split
  · exact refused .esrch
  split
  · exact refused .einval
  rename_i dataAndOffsets
  split
  · exact refused .einval
  rename_i allSizes
  split
  · exact refused .enospc
  rename_i withinLimit
  simp only [not_or, BitVec.not_lt] at dataAndOffsets allSizes
  have admitted : Admitted alloc dataSize offsetsSize extraBuffersSize isAsync :=
    { dataFits := BitVec.le_trans dataAndOffsets.1 allSizes.1
      offsetsFit := BitVec.le_trans dataAndOffsets.2 allSizes.1
      extraBuffersFit := allSizes.2
      asyncSpace := fun asynchronous =>
        BitVec.not_lt.mp fun exceeds => withinLimit ⟨asynchronous, exceeds⟩ }
  have positive := paddedSize_pos dataSize offsetsSize extraBuffersSize
  have ordered := wellFormed.ordered
  have allFree : ∀ buffer ∈ alloc.freeBuffers.toList, alloc.isFree buffer = true :=
    fun buffer inTree => (ordered.mem_freeBuffers.mp inTree).2.1
  rcases exists_bestFit allFree ordered.bySize none with
    ⟨buffer, inTree, found, exactSize⟩ |
      ⟨smaller, larger, treeShape, found, below, above⟩
  · obtain ⟨treeBefore, treeAfter, treeShape⟩ := append_of_mem inTree
    obtain ⟨next, result, takes, nextMatch, outcome⟩ :=
      exists_takeBuffer wellFormed pagesMatch env fresh positive
        (Nat.le_of_eq exactSize.symm) (fun _ => exactSize) treeShape
        (fun different => absurd exactSize different) dataSize offsetsSize extraBuffersSize isAsync
    simp only [found]
    exact ⟨next, result, takes, nextMatch, outcome, fun _ _ => admitted⟩
  cases larger with
  | nil =>
    simp only [found]
    exact refused .enospc
  | cons buffer treeAfter =>
    obtain ⟨next, result, takes, nextMatch, outcome⟩ :=
      exists_takeBuffer wellFormed pagesMatch env fresh positive
        (Nat.le_of_lt (above buffer (by simp)))
        (show false = true → _ from fun impossible => nomatch impossible)
        treeShape (fun _ => below) dataSize offsetsSize extraBuffersSize isAsync
    simp only [found]
    exact ⟨next, result, takes, nextMatch, outcome, fun _ _ => admitted⟩

end EchoKernel.Binder
