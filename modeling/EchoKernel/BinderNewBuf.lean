import EchoKernel.BinderInvariant

namespace EchoKernel.Binder

open IntervalTiling Rbtree Function List BinderAlloc

/-!
# Allocating a buffer

A failing allocation changes pages only. A successful one takes the start of
the best fit and populates the pages that no other buffer uses.
-/

/-- A successful allocation of `size` bytes from `buffer`. -/
structure NewBufOutcome (alloc next : BinderAlloc) (buffer : BufferPtr)
    (dataSize offsetsSize extraBuffersSize size : BitVec 32) (isAsync : Bool) : Prop where
  ordered : Ordered next []
  wasFree : alloc.isFree buffer = true
  shape : ∃ before after remainder, alloc.buffers = before ++ buffer :: after ∧
        next.buffers = before ++ buffer :: (Option.toList remainder ++ after) ∧
        ∀ new ∈ remainder, new ∉ alloc.buffers ∧ next.isFree new = true ∧
            (next.mem new).transaction = false
  others : ∀ other ∈ alloc.buffers, other ≠ buffer → next.mem other = alloc.mem other ∧
        binderAllocBufferSize next other = binderAllocBufferSize alloc other
  taken :
    next.mem buffer = claimedBuffer (alloc.mem buffer) dataSize offsetsSize extraBuffersSize isAsync
  takenSize : binderAllocBufferSize next buffer = size.toNat
  fits : size.toNat ≤ binderAllocBufferSize alloc buffer
  sameArea : next.buffer = alloc.buffer ∧ next.bufferSize = alloc.bufferSize ∧ next.vma = alloc.vma
  charged :
    next.freeAsyncSpace = if isAsync then
        alloc.freeAsyncSpace - (size + sizeofBinderBuffer)
      else
        alloc.freeAsyncSpace

section
variable {alloc : BinderAlloc} {buffer newBuffer : BufferPtr} {before after : List BufferPtr}

theorem Ordered.withPages
    {loose : List BufferPtr}
    (ordered : Ordered alloc loose)
    (pages : BinderPages) :
    Ordered { alloc with pages := pages } loose :=
  { ordered with }

/-- Claiming a buffer of exactly the requested size. -/
theorem exists_claimExact
    (ordered : Ordered alloc [])
    (member : buffer ∈ alloc.buffers)
    (isFree : alloc.isFree buffer = true)
    {size : BitVec 32}
    (exactly : binderAllocBufferSize alloc buffer = size.toNat)
    (dataSize offsetsSize extraBuffersSize : BitVec 32)
    (isAsync : Bool) :
    ∃ next,
    claimBuffer alloc buffer dataSize offsetsSize extraBuffersSize size isAsync =
    some (next, .ok buffer) ∧
    NewBufOutcome alloc next buffer dataSize offsetsSize extraBuffersSize size isAsync ∧
    next.pages = alloc.pages := by
  obtain ⟨freeTree, allocatedTree, claims, inOrder⟩ :=
    exists_claimBuffer ordered member isFree dataSize offsetsSize extraBuffersSize size isAsync
  obtain ⟨before, after, shape⟩ := append_of_mem member
  have sameSize : ∀ other ∈ alloc.buffers, binderAllocBufferSize
      (claimed alloc buffer dataSize offsetsSize extraBuffersSize size
      isAsync freeTree allocatedTree) other = binderAllocBufferSize alloc other :=
    fun other inList => binderAllocBufferSize_congr rfl start_claimed rfl inList
  refine ⟨_, claims, ?_, rfl⟩
  refine ⟨inOrder, isFree, ⟨before, after, none, shape, shape, by simp⟩, ?_,
    ?_, ?_, exactly.symm.le, ⟨rfl, rfl, rfl⟩, rfl⟩
  · intro other inList different
    refine ⟨?_, sameSize other inList⟩
    simp [claimed, update_of_ne different]
  · simp [claimed]
  · rw [sameSize buffer member, exactly]

theorem exists_claimSplit
    (ordered : Ordered alloc [])
    (shape : alloc.buffers = before ++ buffer :: after)
    (isFree : alloc.isFree buffer = true)
    (fresh : newBuffer ∉ alloc.buffers)
    {size : BitVec 32}
    (positive : 0 < size.toNat)
    (smaller : size.toNat < binderAllocBufferSize alloc buffer)
    {treeBefore treeAfter : List BufferPtr}
    (treeShape : alloc.freeBuffers.toList = treeBefore ++ buffer :: treeAfter)
    (bestFit : ∀ other ∈ treeBefore, binderAllocBufferSize alloc other < size.toNat)
    (dataSize offsetsSize extraBuffersSize : BitVec 32)
    (isAsync : Bool) :
    ∃ split next,
    binderInsertFreeBuffer (addRemainder alloc buffer newBuffer size.toNat) newBuffer = some split ∧
    claimBuffer split buffer dataSize offsetsSize extraBuffersSize size isAsync =
    some (next, .ok buffer) ∧
    NewBufOutcome alloc next buffer dataSize offsetsSize extraBuffersSize size isAsync ∧
    next.pages = alloc.pages := by
  obtain ⟨tree, inserted, splitInOrder⟩ :=
    exists_insertRemainder ordered shape isFree fresh positive smaller treeShape bestFit
  have outside := (notMem_of_nodup_middle (shape ▸ ordered.tiles.nodup)).1
  have member : buffer ∈ alloc.buffers := by simp [shape]
  have notNew := ne_of_mem_of_not_mem member fresh
  have listed := @buffers_addRemainder alloc buffer newBuffer size.toNat before after shape outside
  have stillFree : (addRemainder alloc buffer newBuffer size.toNat).isFree buffer = true := by
    rw [isFree_addRemainder, isFree]
    simp
  have inSplit : buffer ∈ (addRemainder alloc buffer newBuffer size.toNat).buffers := by
    rw [listed]
    simp
  obtain ⟨freeTree, allocatedTree, claims, inOrder⟩ :=
    exists_claimBuffer splitInOrder inSplit stillFree dataSize offsetsSize
      extraBuffersSize size isAsync
  refine ⟨_, _, inserted, claims, ?_, rfl⟩
  have sameMem : ∀ other, other ≠ newBuffer →
      (addRemainder alloc buffer newBuffer size.toNat).mem other = alloc.mem other := by
    intro other different
    simp [addRemainder, setBuffer, update_of_ne different]
  have newSize : ∀ other ∈ alloc.buffers, binderAllocBufferSize (claimed
              { addRemainder alloc buffer newBuffer size.toNat with
                freeBuffers := tree } buffer dataSize offsetsSize
              extraBuffersSize size isAsync freeTree allocatedTree) other =
          if other = buffer then size.toNat
          else binderAllocBufferSize alloc other := by
    intro other inList
    have inRemainder : other ∈ (addRemainder alloc buffer newBuffer size.toNat).buffers := by
      rw [listed]
      rw [shape] at inList
      simp only [mem_append, mem_cons] at inList ⊢
      tauto
    rw [← size_addRemainder ordered shape fresh inList]
    exact binderAllocBufferSize_congr rfl start_claimed rfl inRemainder
  refine ⟨inOrder, isFree, ⟨before, after, some newBuffer, shape, listed, ?_⟩, ?_, ?_, ?_,
    smaller.le, ⟨rfl, rfl, rfl⟩, rfl⟩
  · intro new isNew
    cases isNew
    refine ⟨fresh, ?_, ?_⟩
    · rw [isFree_claimed]
      show ((addRemainder alloc buffer newBuffer size.toNat).isFree newBuffer && _) = true
      rw [isFree_addRemainder]
      simp [notNew.symm]
    · simp [claimed, update_of_ne notNew.symm, addRemainder, setBuffer, zeroedBuffer]
  · intro other inList different
    have notFresh := ne_of_mem_of_not_mem inList fresh
    refine ⟨?_, ?_⟩
    · show update (addRemainder alloc buffer newBuffer size.toNat).mem buffer _ other = _
      rw [update_of_ne different, sameMem other notFresh]
    · rw [newSize other inList, if_neg different]
  · show update (addRemainder alloc buffer newBuffer size.toNat).mem buffer _ buffer = _
    rw [update_self]
    rw [sameMem buffer notNew]
  · rw [newSize buffer member, if_pos rfl]

end

namespace NewBufOutcome

variable {alloc next : BinderAlloc} {buffer : BufferPtr}
variable {dataSize offsetsSize extraBuffersSize size : BitVec 32}
variable {isAsync : Bool}
variable (outcome : NewBufOutcome alloc next buffer dataSize offsetsSize extraBuffersSize size
    isAsync)
include outcome

theorem isFree_eq
    {other : BufferPtr}
    (member : other ∈ alloc.buffers) :
    next.isFree other = (alloc.isFree other && other != buffer) := by
  by_cases same : other = buffer
  · subst same
    rw [BinderAlloc.isFree, outcome.taken]
    simp [claimedBuffer]
  · rw [BinderAlloc.isFree, (outcome.others other member same).1]
    simp [BinderAlloc.isFree, same]

theorem start_eq
    {other : BufferPtr}
    (member : other ∈ alloc.buffers) :
    next.start other = alloc.start other := by
  by_cases same : other = buffer
  · subst same
    rw [start, outcome.taken]
    rfl
  · rw [start, (outcome.others other member same).1]
    rfl

/-- The list that an allocation leaves is coalesced. -/
theorem coalesced_next (coalesced : Coalesced alloc) : Coalesced next := by
  obtain ⟨before, after, remainder, shape, nextShape, remainderFree⟩ := outcome.shape
  have nextChain : (before ++ buffer :: after).IsChain fun first second =>
      ¬ (next.isFree first = true ∧ next.isFree second = true) := by
    rw [← shape]
    refine List.IsChain.imp_of_mem_imp ?_ coalesced
    intro first second firstMember secondMember apart
    rw [outcome.isFree_eq firstMember, outcome.isFree_eq secondMember]
    simp only [Bool.and_eq_true]
    rintro ⟨⟨firstFree, -⟩, secondFree, -⟩
    exact apart ⟨firstFree, secondFree⟩
  have member : buffer ∈ alloc.buffers := by simp [shape]
  obtain ⟨-, afterStart⟩ := coalesced.neighbours shape outcome.wasFree
  cases remainder with
  | none =>
    unfold Coalesced
    rw [nextShape]
    exact nextChain
  | some new =>
    obtain ⟨beforeChain, afterChain⟩ := isChain_split.mp nextChain
    have reshape : next.buffers = (before ++ [buffer]) ++ new :: after := by simp [nextShape]
    refine coalesced_of_neighbours reshape beforeChain afterChain.tail ?_ ?_
    · intro prev isLast
      have isBuffer : buffer = prev := by simpa using isLast
      subst isBuffer
      rw [outcome.isFree_eq member]
      simp
    · intro later isHead
      have inList : later ∈ alloc.buffers := by
        rw [shape]
        exact mem_append_right _ (mem_cons_of_mem _ (mem_of_mem_head? isHead))
      rw [outcome.isFree_eq inList, afterStart later isHead]
      rfl

/-- A buffer after an allocation is old, or free. -/
theorem mem_or_free
    {other : BufferPtr}
    (member : other ∈ next.buffers) :
    other ∈ alloc.buffers ∨ (next.isFree other = true ∧ (next.mem other).transaction = false) := by
  obtain ⟨front, back, remainder, shape, nextShape, remainderFree⟩ := outcome.shape
  rw [nextShape] at member
  rw [shape]
  simp only [mem_append, mem_cons, Option.mem_toList] at member ⊢
  rcases member with inFront | rfl | isNew | inBack
  · exact .inl (.inl inFront)
  · exact .inl (.inr (.inl rfl))
  · exact .inr (remainderFree other isNew).2
  · exact .inl (.inr (.inr inBack))

theorem mem_of_allocated
    {other : BufferPtr}
    (member : other ∈ next.buffers)
    (allocated : next.isFree other = false) :
    other ∈ alloc.buffers := by
  rcases outcome.mem_or_free member with inList | ⟨isFree, -⟩
  · exact inList
  · rw [isFree] at allocated
    cases allocated

theorem wellFormed (before : WellFormed alloc) (charge : size = chargedSize
    (claimedBuffer (alloc.mem buffer) dataSize offsetsSize extraBuffersSize isAsync)) :
    WellFormed next := by
  obtain ⟨sameBuffer, sameSize, -⟩ := outcome.sameArea
  refine ⟨before.area.congr sameBuffer sameSize, outcome.ordered,
    outcome.coalesced_next before.coalesced, ?_, ?_⟩
  · intro other member allocated
    have inList := outcome.mem_of_allocated member allocated
    by_cases same : other = buffer
    · subst same
      rw [outcome.takenSize, outcome.taken, ← charge]
    obtain ⟨sameMem, sameSize⟩ := outcome.others other inList same
    rw [sameSize, sameMem]
    refine before.sized other inList ?_
    rw [BinderAlloc.isFree, sameMem] at allocated
    exact allocated
  · intro other member
    rcases outcome.mem_or_free member with inList | ⟨-, noTransaction⟩
    · by_cases same : other = buffer
      · subst same
        rw [outcome.taken]
        exact before.noTransaction other inList
      · rw [(outcome.others other inList same).1]
        exact before.noTransaction other inList
    · exact noTransaction

/-- The pages that are used after an allocation. -/
theorem used_iff
    (index : Nat) :
    Used next next.buffers index ↔
    Used alloc alloc.buffers index ∨ (alloc.start buffer < alloc.buffer + (index + 1) * pageSize ∧
    alloc.buffer + index * pageSize < alloc.start buffer + size.toNat) := by
  obtain ⟨sameBuffer, -, -⟩ := outcome.sameArea
  obtain ⟨front, back, remainder, shape, nextShape, remainderFree⟩ := outcome.shape
  have member : buffer ∈ alloc.buffers := by simp [shape]
  constructor
  · rintro ⟨other, inNext, allocated, startsBelow, endsAbove⟩
    have inList := outcome.mem_of_allocated inNext allocated
    rw [sameBuffer, outcome.start_eq inList] at startsBelow endsAbove
    by_cases same : other = buffer
    · subst same
      rw [outcome.takenSize] at endsAbove
      exact .inr ⟨startsBelow, endsAbove⟩
    · rw [(outcome.others other inList same).2] at endsAbove
      rw [outcome.isFree_eq inList] at allocated
      refine .inl ⟨other, inList, ?_, startsBelow, endsAbove⟩
      simpa [same] using allocated
  have inNext : ∀ other ∈ alloc.buffers, other ∈ next.buffers := by
    intro other inList
    rw [shape] at inList
    rw [nextShape]
    simp only [mem_append, mem_cons] at inList ⊢
    tauto
  rintro (⟨other, inList, allocated, startsBelow, endsAbove⟩ | ⟨startsBelow, endsAbove⟩)
  · have different : other ≠ buffer := by
      rintro rfl
      rw [outcome.wasFree] at allocated
      cases allocated
    refine ⟨other, inNext other inList, ?_, ?_, ?_⟩
    · rw [outcome.isFree_eq inList, allocated]
      rfl
    · rw [sameBuffer, outcome.start_eq inList]
      exact startsBelow
    · rw [sameBuffer, outcome.start_eq inList, (outcome.others other inList different).2]
      exact endsAbove
  · refine ⟨buffer, inNext buffer member, ?_, ?_, ?_⟩
    · rw [outcome.isFree_eq member]
      simp
    · rw [sameBuffer, outcome.start_eq member]
      exact startsBelow
    · rw [sameBuffer, outcome.start_eq member, outcome.takenSize]
      exact endsAbove

end NewBufOutcome

end EchoKernel.Binder
