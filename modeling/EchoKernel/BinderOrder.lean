import EchoKernel.BinderBuffers

namespace EchoKernel.Binder

open IntervalTiling Rbtree List Function BinderAlloc

/-!
# The trees follow the buffer list

`Ordered` says that the list tiles the area and the trees hold its free and
its allocated buffers in order. Splitting the best fit changes the size of a
buffer in the free tree, but those before it are smaller than the request and
those after it are not.
-/

/--
The list tiles the area and both trees are in order. While a buffer is freed,
`loose` buffers are free but not in the tree.
-/
structure Ordered (alloc : BinderAlloc) (loose : List BufferPtr) : Prop where
  tiles : Tiles alloc.start alloc.finish alloc.buffer alloc.buffers
  allocatedPerm : alloc.allocatedBuffers.toList.Perm
      (alloc.buffers.filter fun buffer => !alloc.isFree buffer)
  byAddress : alloc.allocatedBuffers.toList.Pairwise fun first second =>
      alloc.start first < alloc.start second
  freePerm : alloc.freeBuffers.toList.Perm (alloc.buffers.filter fun buffer =>
        alloc.isFree buffer && !loose.contains buffer)
  bySize : alloc.freeBuffers.toList.Pairwise fun first second =>
      binderAllocBufferSize alloc first ≤ binderAllocBufferSize alloc second

namespace Ordered

variable {alloc : BinderAlloc} {loose : List BufferPtr} {buffer : BufferPtr}
variable (ordered : Ordered alloc loose)
include ordered

theorem mem_freeBuffers :
    buffer ∈ alloc.freeBuffers.toList ↔ buffer ∈ alloc.buffers ∧
    alloc.isFree buffer = true ∧ buffer ∉ loose := by
  rw [ordered.freePerm.mem_iff]
  simp

theorem mem_allocatedBuffers :
    buffer ∈ alloc.allocatedBuffers.toList ↔ buffer ∈ alloc.buffers ∧
    alloc.isFree buffer = false := by
  rw [ordered.allocatedPerm.mem_iff]
  simp

theorem nodup_freeBuffers : alloc.freeBuffers.toList.Nodup :=
  ordered.freePerm.nodup_iff.mpr (ordered.tiles.nodup.filter _)

theorem nodup_allocatedBuffers : alloc.allocatedBuffers.toList.Nodup :=
  ordered.allocatedPerm.nodup_iff.mpr (ordered.tiles.nodup.filter _)

theorem size_pos
    (member : buffer ∈ alloc.buffers) :
    0 < binderAllocBufferSize alloc buffer ∧
    alloc.start buffer + binderAllocBufferSize alloc buffer ≤ alloc.finish := by
  rw [binderAllocBufferSize_eq alloc member]
  exact ordered.tiles.extent_le member

end Ordered

/-- Sizes depend on the list and its buffers' starts. -/
theorem binderAllocBufferSize_congr
    {first second : BinderAlloc}
    {buffer : BufferPtr}
    (sameBuffers : second.buffers = first.buffers)
    (sameStart : second.start = first.start)
    (sameFinish : second.finish = first.finish)
    (member : buffer ∈ first.buffers) :
    binderAllocBufferSize second buffer = binderAllocBufferSize first buffer := by
  have memberOfSecond : buffer ∈ second.buffers := by
    rw [sameBuffers]
    exact member
  rw [binderAllocBufferSize_eq second memberOfSecond,
    binderAllocBufferSize_eq first member, sameBuffers, sameStart, sameFinish]

section
variable {alloc : BinderAlloc} {buffer : BufferPtr}

/-- The buffer structure after an allocation. -/
def claimedBuffer (value : BinderBuffer) (dataSize offsetsSize extraBuffersSize : BitVec 32)
    (isAsync : Bool) : BinderBuffer :=
  { value with
    free := false
    allowUserFree := false
    dataSize := dataSize
    offsetsSize := offsetsSize
    extraBuffersSize := extraBuffersSize
    asyncTransaction := isAsync }

/-- The state after an allocation has taken `buffer`. -/
def claimed (alloc : BinderAlloc) (buffer : BufferPtr)
    (dataSize offsetsSize extraBuffersSize size : BitVec 32) (isAsync : Bool)
    (freeTree allocatedTree : RbTree BufferPtr) : BinderAlloc :=
  { alloc with
    mem :=
      update alloc.mem buffer (claimedBuffer (alloc.mem buffer) dataSize offsetsSize
          extraBuffersSize isAsync)
    freeBuffers := freeTree
    allocatedBuffers := allocatedTree
    freeAsyncSpace :=
      if isAsync then alloc.freeAsyncSpace - (size + sizeofBinderBuffer)
      else alloc.freeAsyncSpace }

section
variable {dataSize offsetsSize extraBuffersSize size : BitVec 32} {isAsync : Bool}
  {freeTree allocatedTree : RbTree BufferPtr}

/-- Claiming a buffer does not move buffers. -/
theorem start_claimed :
    (claimed alloc buffer dataSize offsetsSize extraBuffersSize size isAsync
    freeTree allocatedTree).start = alloc.start := by
  funext other
  by_cases same : other = buffer
  · subst same
    simp [start, claimed, claimedBuffer]
  · simp [start, claimed, update_of_ne same]

theorem isFree_claimed
    (other : BufferPtr) :
    (claimed alloc buffer dataSize offsetsSize extraBuffersSize size isAsync
    freeTree allocatedTree).isFree other = (alloc.isFree other && other != buffer) := by
  by_cases same : other = buffer
  · subst same
    simp [BinderAlloc.isFree, claimed, claimedBuffer]
  · simp [BinderAlloc.isFree, claimed, same]

end

/-- Claiming a free buffer keeps the trees in order. -/
theorem exists_claimBuffer
    (ordered : Ordered alloc [])
    (member : buffer ∈ alloc.buffers)
    (isFree : alloc.isFree buffer = true)
    (dataSize offsetsSize extraBuffersSize size : BitVec 32)
    (isAsync : Bool) :
    ∃ freeTree allocatedTree,
    claimBuffer alloc buffer dataSize offsetsSize extraBuffersSize size isAsync = some
    (claimed alloc buffer dataSize offsetsSize extraBuffersSize size
    isAsync freeTree allocatedTree, .ok buffer) ∧ Ordered
    (claimed alloc buffer dataSize offsetsSize extraBuffersSize size
    isAsync freeTree allocatedTree) [] := by
  have takenStart : (takeFree alloc buffer).start = alloc.start := by
    funext other
    by_cases same : other = buffer
    · subst same
      simp [takeFree, start, setBuffer]
    · simp [takeFree, start, setBuffer, update_of_ne same]
  have inTree := ordered.mem_freeBuffers.mpr ⟨member, isFree, by simp⟩
  have notAllocated : buffer ∉ alloc.allocatedBuffers.toList := by
    rw [ordered.mem_allocatedBuffers, isFree]
    simp
  obtain ⟨allocatedTree, inserted, permuted, sorted⟩ :=
    @exists_binderInsertAllocatedBufferLocked (takeFree alloc buffer) buffer
      (by simp [takeFree, BinderAlloc.isFree, setBuffer]) (by
        intro other otherMember
        have different := ne_of_mem_of_not_mem otherMember notAllocated
        have allocated := (ordered.mem_allocatedBuffers.mp otherMember).2
        simpa [takeFree, BinderAlloc.isFree, setBuffer, update_of_ne different] using allocated)
      (by
        rw [takenStart]
        intro other otherMember sameStart
        have otherInList := (ordered.mem_allocatedBuffers.mp otherMember).1
        rw [ordered.tiles.start_injOn otherInList member sameStart] at otherMember
        exact notAllocated otherMember)
      (by
        rw [takenStart]
        exact ordered.byAddress)
  rw [takenStart] at sorted
  refine ⟨rbErase buffer alloc.freeBuffers, allocatedTree, ?_, ?_⟩
  · rw [claimBuffer, inserted]
    simp [fillBuffer, takeFree, claimed, claimedBuffer, setBuffer]
  have erased := toList_rbErase ordered.nodup_freeBuffers inTree
  have treeNodup : allocatedTree.toList.Nodup :=
    permuted.nodup_iff.mpr (nodup_cons.mpr ⟨notAllocated, ordered.nodup_allocatedBuffers⟩)
  refine ⟨?_, ?_, ?_, ?_, ?_⟩
  · rw [start_claimed]
    exact ordered.tiles
  · refine (perm_ext_iff_of_nodup treeNodup (ordered.tiles.nodup.filter _)).mpr ?_
    intro other
    rw [permuted.mem_iff, mem_cons, mem_filter, isFree_claimed]
    show other = buffer ∨ other ∈ alloc.allocatedBuffers.toList ↔ _
    rw [ordered.mem_allocatedBuffers]
    by_cases same : other = buffer
    · subst same
      simp [member]
    · simp [same]
  · rw [start_claimed]
    exact sorted
  · show (rbErase buffer alloc.freeBuffers).toList.Perm _
    rw [erased]
    refine (perm_ext_iff_of_nodup (ordered.nodup_freeBuffers.filter _)
      (ordered.tiles.nodup.filter _)).mpr ?_
    intro other
    rw [mem_filter, mem_filter, isFree_claimed, ordered.mem_freeBuffers]
    simp [and_assoc]
  show (rbErase buffer alloc.freeBuffers).toList.Pairwise _
  rw [erased]
  refine (ordered.bySize.filter _).imp_of_mem ?_
  intro first second firstMember secondMember smaller
  have sameSize : ∀ other ∈ alloc.freeBuffers.toList.filter (· ≠ buffer), binderAllocBufferSize
      (claimed alloc buffer dataSize offsetsSize extraBuffersSize
      size isAsync (rbErase buffer alloc.freeBuffers) allocatedTree) other =
      binderAllocBufferSize alloc other := by
    intro other otherMember
    have inFree := (mem_filter.mp otherMember).1
    exact binderAllocBufferSize_congr rfl start_claimed rfl (ordered.mem_freeBuffers.mp inFree).1
  rw [sameSize first firstMember, sameSize second secondMember]
  exact smaller

end

variable {alloc : BinderAlloc} {buffer newBuffer : BufferPtr} {size : Nat}
variable {before after : List BufferPtr}

theorem start_addRemainder
    (other : BufferPtr) :
    (addRemainder alloc buffer newBuffer size).start other =
    if other = newBuffer then alloc.start buffer + size else alloc.start other := by
  by_cases same : other = newBuffer
  · subst same
    simp [addRemainder, start, setBuffer]
  · simp [addRemainder, start, setBuffer, same]

theorem isFree_addRemainder
    (other : BufferPtr) :
    (addRemainder alloc buffer newBuffer size).isFree other =
    (other == newBuffer || alloc.isFree other) := by
  by_cases same : other = newBuffer
  · subst same
    simp [addRemainder, BinderAlloc.isFree, setBuffer]
  · simp [addRemainder, BinderAlloc.isFree, setBuffer, same]

theorem buffers_addRemainder
    (shape : alloc.buffers = before ++ buffer :: after)
    (outside : buffer ∉ before) :
    (addRemainder alloc buffer newBuffer size).buffers =
    before ++ buffer :: newBuffer :: after := by
  show listAdd newBuffer buffer alloc.buffers = _
  rw [shape, listAdd_middle newBuffer outside]

section
variable (ordered : Ordered alloc []) (shape : alloc.buffers = before ++ buffer :: after)
include ordered shape

/-- The remainder divides the tile of the buffer. -/
theorem tiles_addRemainder
    (fresh : newBuffer ∉ alloc.buffers)
    (positive : 0 < size)
    (smaller : size < binderAllocBufferSize alloc buffer) :
    Tiles (addRemainder alloc buffer newBuffer size).start
    (addRemainder alloc buffer newBuffer size).finish
    (addRemainder alloc buffer newBuffer size).buffer
    (addRemainder alloc buffer newBuffer size).buffers := by
  have distinct := ordered.tiles.nodup
  have covers := ordered.tiles
  have member : buffer ∈ alloc.buffers := by simp [shape]
  have notNew := ne_of_mem_of_not_mem member fresh
  rw [binderAllocBufferSize_eq alloc member] at smaller
  rw [shape] at distinct covers smaller
  have outside := (notMem_of_nodup_middle distinct).1
  rw [extent_middle outside] at smaller
  rw [buffers_addRemainder shape outside]
  have sameStart : ∀ other ∈ before ++ buffer :: after,
      (addRemainder alloc buffer newBuffer size).start other = alloc.start other := by
    intro other otherMember
    have different := ne_of_mem_of_not_mem (shape ▸ otherMember) fresh
    rw [start_addRemainder, if_neg different]
  have sameNext : nextStart (addRemainder alloc buffer newBuffer size).start alloc.finish after =
      nextStart alloc.start alloc.finish after := by
    cases after with
    | nil => rfl
    | cons next rest => exact sameStart next (by simp)
  refine (covers.congr sameStart).split ?_ ?_
  · rw [start_addRemainder, start_addRemainder, if_neg notNew, if_pos rfl]
    omega
  · rw [start_addRemainder, if_pos rfl]
    omega

theorem size_addRemainder
    (fresh : newBuffer ∉ alloc.buffers)
    {other : BufferPtr}
    (member : other ∈ alloc.buffers) :
    binderAllocBufferSize (addRemainder alloc buffer newBuffer size) other = if other =
    buffer then size else binderAllocBufferSize alloc other := by
  have distinct := ordered.tiles.nodup
  have notNew : ∀ other ∈ alloc.buffers, other ≠ newBuffer := by
    rintro other otherMember rfl
    exact fresh otherMember
  have sameStart : ∀ other ∈ alloc.buffers, (addRemainder alloc buffer newBuffer size).start other =
      alloc.start other := by
    intro other otherMember
    rw [start_addRemainder, if_neg (notNew other otherMember)]
  rw [binderAllocBufferSize_eq alloc member]
  rw [shape] at distinct
  have outside := (notMem_of_nodup_middle distinct).1
  have listed := @buffers_addRemainder alloc buffer newBuffer size before after shape outside
  have memberAfter : other ∈ (addRemainder alloc buffer newBuffer size).buffers := by
    rw [listed]
    rw [shape] at member
    simp only [mem_append, mem_cons] at member ⊢
    tauto
  rw [binderAllocBufferSize_eq _ memberAfter, listed]
  by_cases same : other = buffer
  · subst same
    rw [extent_middle outside, if_pos rfl, nextStart, start_addRemainder,
      start_addRemainder, if_pos rfl, if_neg (notNew other member)]
    omega
  · rw [extent_merge same (notNew other member), if_neg same, shape]
    exact extent_congr (fun tile tileMember =>
      sameStart tile (shape ▸ tileMember))

/-- Splitting the best fit keeps the tree in order. -/
theorem exists_insertRemainder
    (isFree : alloc.isFree buffer = true)
    (fresh : newBuffer ∉ alloc.buffers)
    (positive : 0 < size)
    (smaller : size < binderAllocBufferSize alloc buffer)
    {treeBefore treeAfter : List BufferPtr}
    (treeShape : alloc.freeBuffers.toList = treeBefore ++ buffer :: treeAfter)
    (bestFit : ∀ other ∈ treeBefore, binderAllocBufferSize alloc other < size) :
    ∃ tree,
      binderInsertFreeBuffer (addRemainder alloc buffer newBuffer size) newBuffer = some
          { addRemainder alloc buffer newBuffer size with
            freeBuffers := tree } ∧
      Ordered { addRemainder alloc buffer newBuffer size with
          freeBuffers := tree } [] := by
  have distinct := ordered.tiles.nodup
  have outside := (notMem_of_nodup_middle (shape ▸ distinct)).1
  have inList : ∀ other ∈ alloc.freeBuffers.toList, other ∈ alloc.buffers :=
    fun other member => (ordered.mem_freeBuffers.mp member).1
  have newSize : ∀ other ∈ alloc.freeBuffers.toList,
      binderAllocBufferSize (addRemainder alloc buffer newBuffer size) other =
      if other = buffer then size else binderAllocBufferSize alloc other :=
    fun other member => size_addRemainder ordered shape fresh (inList other member)
  have treeDistinct := ordered.nodup_freeBuffers
  -- the key of `buffer` shrinks, but not below what stands before it
  have stillSorted : alloc.freeBuffers.toList.Pairwise fun first second =>
      binderAllocBufferSize (addRemainder alloc buffer newBuffer size) first ≤
      binderAllocBufferSize (addRemainder alloc buffer newBuffer size) second := by
    have sorted := ordered.bySize
    rw [treeShape] at newSize sorted treeDistinct ⊢
    obtain ⟨notBefore, notAfter⟩ := notMem_of_nodup_middle treeDistinct
    have fromBuffer := (pairwise_cons.mp (pairwise_append.mp sorted).2.1).1
    have rest := (sublist_cons_self buffer treeAfter).append_left treeBefore
    have kept : ∀ other ∈ treeBefore ++ treeAfter,
        binderAllocBufferSize (addRemainder alloc buffer newBuffer size) other =
        binderAllocBufferSize alloc other := by
      intro other member
      rw [newSize other (rest.subset member), if_neg]
      rintro rfl
      exact (mem_append.mp member).elim notBefore notAfter
    have sizeHere := newSize buffer (by simp)
    rw [if_pos rfl] at sizeHere
    have keptSorted : (treeBefore ++ treeAfter).Pairwise fun first second =>
        binderAllocBufferSize (addRemainder alloc buffer newBuffer size) first ≤
        binderAllocBufferSize (addRemainder alloc buffer newBuffer size) second := by
      refine (sorted.sublist rest).imp_of_mem fun firstMember secondMember order => ?_
      rwa [kept _ firstMember, kept _ secondMember]
    obtain ⟨beforeSorted, afterSorted, crossing⟩ := pairwise_append.mp keptSorted
    refine pairwise_append.mpr ⟨beforeSorted, pairwise_cons.mpr ⟨?_, afterSorted⟩, ?_⟩
    · intro other member
      rw [sizeHere, kept other (mem_append_right _ member)]
      exact Nat.le_of_lt (smaller.trans_le (fromBuffer other member))
    intro first firstMember second secondMember
    rcases mem_cons.mp secondMember with rfl | inAfter
    · rw [kept first (mem_append_left _ firstMember), sizeHere]
      exact (bestFit first firstMember).le
    · exact crossing first firstMember second inAfter
  obtain ⟨tree, inserted, permuted, sorted⟩ :=
    @exists_binderInsertFreeBuffer (addRemainder alloc buffer newBuffer size) newBuffer
      (by rw [isFree_addRemainder]; simp) (by
        intro other member
        rw [isFree_addRemainder, (ordered.mem_freeBuffers.mp member).2.1]
        simp)
      stillSorted
  refine ⟨tree, inserted, ?_⟩
  have notInTree : newBuffer ∉ alloc.freeBuffers.toList :=
    fun member => fresh (inList newBuffer member)
  have covers := tiles_addRemainder ordered shape fresh positive smaller
  have listed := @buffers_addRemainder alloc buffer newBuffer size before after shape outside
  have memberIff : ∀ other, other ∈ (addRemainder alloc buffer newBuffer size).buffers ↔
      other = newBuffer ∨ other ∈ alloc.buffers := by
    rw [listed, shape]
    simp only [mem_append, mem_cons]
    tauto
  refine ⟨covers, ?_, ?_, ?_, sorted⟩
  · refine (perm_ext_iff_of_nodup ordered.nodup_allocatedBuffers (covers.nodup.filter _)).mpr ?_
    intro other
    rw [ordered.mem_allocatedBuffers, mem_filter, memberIff]
    show _ ↔ _ ∧ (!(addRemainder alloc buffer newBuffer size).isFree other) = true
    rw [isFree_addRemainder]
    by_cases same : other = newBuffer
    · subst same
      simp [fresh]
    · simp [same]
  · refine ordered.byAddress.imp_of_mem ?_
    intro first second firstMember secondMember ordered'
    show (addRemainder alloc buffer newBuffer size).start first <
      (addRemainder alloc buffer newBuffer size).start second
    have old : ∀ other ∈ alloc.allocatedBuffers.toList, other ≠ newBuffer := by
      rintro other member rfl
      exact fresh (ordered.mem_allocatedBuffers.mp member).1
    rw [start_addRemainder, start_addRemainder, if_neg (old _ firstMember),
      if_neg (old _ secondMember)]
    exact ordered'
  · have permNodup : tree.toList.Nodup :=
      permuted.nodup_iff.mpr (nodup_cons.mpr ⟨notInTree, treeDistinct⟩)
    refine (perm_ext_iff_of_nodup permNodup (covers.nodup.filter _)).mpr ?_
    intro other
    rw [permuted.mem_iff, mem_cons, mem_filter, memberIff]
    show other = newBuffer ∨ other ∈ alloc.freeBuffers.toList ↔ _ ∧
      ((addRemainder alloc buffer newBuffer size).isFree other &&
        !([] : List BufferPtr).contains other) = true
    rw [isFree_addRemainder, ordered.mem_freeBuffers]
    by_cases same : other = newBuffer
    · subst same
      simp
    · simp [same]

end

end EchoKernel.Binder
