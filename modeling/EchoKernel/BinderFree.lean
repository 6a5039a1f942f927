import EchoKernel.BinderOrder

namespace EchoKernel.Binder

open IntervalTiling Rbtree List BinderAlloc

/-!
# Freeing a buffer

A freed buffer is merged with the free buffers around it. Meanwhile neither it
nor the one it is merged with is in the free tree, so no key of the tree
changes.
-/

/-- The state with another list, free tree and page array. -/
def BinderAlloc.relist (alloc : BinderAlloc) (buffers : List BufferPtr)
    (freeBuffers : RbTree BufferPtr) (pages : BinderPages) : BinderAlloc :=
  { alloc with
    buffers := buffers
    freeBuffers := freeBuffers
    pages := pages }

/-- The pages given up by one call for a range, in loop order. -/
def freeIndexes (base start finish : Nat) : List Nat :=
  if finish ≤ start then [] else indexesDown base start finish

theorem freePageRange_eq
    (alloc : BinderAlloc)
    (start finish : Nat) :
    freePageRange alloc start finish = { alloc with
        pages := (freeIndexes alloc.buffer start finish).foldl freePage alloc.pages } := by
  unfold freePageRange freeIndexes
  split <;> rfl

/-- The page that a deletion gives up, if any. -/
def deletedIndexes (base prev data : Nat) (next : Option Nat) : List Nat :=
  if pageToFree prev data next then
    freeIndexes base (bufferStartPage data) (bufferStartPage data + pageSize)
  else []

variable {alloc : BinderAlloc} {before : List BufferPtr}

section
variable {loose : List BufferPtr} {after : List BufferPtr} {prev buffer : BufferPtr}

theorem binderDeleteFreeBuffer_eq
    (shape : alloc.buffers = before ++ prev :: buffer :: after)
    (distinct : alloc.buffers.Nodup)
    (prevFree : alloc.isFree prev = true) :
    binderDeleteFreeBuffer alloc buffer = some { alloc with
          buffers := before ++ prev :: after
          pages :=
            (deletedIndexes alloc.buffer (alloc.start prev)
              (alloc.start buffer) (after.head?.map alloc.start)).foldl freePage alloc.pages } := by
  have reshape : alloc.buffers = (before ++ [prev]) ++ buffer :: after := by simp [shape]
  have outside : buffer ∉ before ++ [prev] := (notMem_of_nodup_middle (reshape ▸ distinct)).1
  have found : binderBufferPrev buffer alloc.buffers = some prev := by
    rw [reshape, binderBufferPrev_middle outside]
    simp
  have next : binderBufferNext buffer alloc.buffers = after.head? := by
    rw [reshape, binderBufferNext_middle outside]
  have erased : alloc.buffers.erase buffer = before ++ prev :: after := by
    rw [reshape, erase_append_right _ outside]
    simp
  have isFree : (alloc.mem prev).free = true := prevFree
  unfold binderDeleteFreeBuffer
  simp only [found, isFree, next, erased, deletedIndexes]
  cases frees : pageToFree (alloc.mem prev).data (alloc.mem buffer).data
    (after.head?.map fun next => (alloc.mem next).data) with
  | true =>
    have freesPage : pageToFree (alloc.start prev) (alloc.start buffer)
      (after.head?.map alloc.start) = true := frees
    simp only [freesPage, freePageRange_eq]
    rfl
  | false =>
    have keepsPage : pageToFree (alloc.start prev) (alloc.start buffer)
      (after.head?.map alloc.start) = false := frees
    simp [keepsPage, foldl_nil]

/-- What a merge leaves in order, both buffers out of the tree. -/
theorem Ordered.merge
    (ordered : Ordered alloc loose)
    (shape : alloc.buffers = before ++ prev :: buffer :: after)
    (bufferFree : alloc.isFree buffer = true)
    {tree : RbTree BufferPtr}
    (treePerm : tree.toList.Perm
      (alloc.buffers.filter fun other => alloc.isFree other && !([prev, buffer].contains other)))
    (treeSorted : tree.toList.Pairwise fun first second => binderAllocBufferSize alloc first ≤
      binderAllocBufferSize alloc second)
    (pages : BinderPages) :
    Ordered (alloc.relist (before ++ prev :: after) tree pages) [prev] := by
  have covers := ordered.tiles
  have distinct := ordered.tiles.nodup
  rw [shape] at covers distinct
  have merged := covers.merge
  have reshape : before ++ prev :: buffer :: after = (before ++ [prev]) ++ buffer :: after := by
    simp
  have bufferOutside : buffer ∉ before ++ [prev] ∧ buffer ∉ after :=
    notMem_of_nodup_middle (reshape ▸ distinct)
  have memberIff : ∀ other, other ∈ before ++ prev :: after ↔
      other ∈ alloc.buffers ∧ other ≠ buffer := by
    intro other
    rw [shape]
    simp only [mem_append, mem_cons, not_mem_nil, or_false] at bufferOutside ⊢
    constructor
    · rintro (inBefore | rfl | inAfter)
      · refine ⟨.inl inBefore, ?_⟩
        rintro rfl
        exact bufferOutside.1 (.inl inBefore)
      · refine ⟨.inr (.inl rfl), ?_⟩
        rintro rfl
        exact bufferOutside.1 (.inr rfl)
      · refine ⟨.inr (.inr (.inr inAfter)), ?_⟩
        rintro rfl
        exact bufferOutside.2 inAfter
    · rintro ⟨inBefore | rfl | rfl | inAfter, different⟩
      · exact .inl inBefore
      · exact .inr (.inl rfl)
      · exact absurd rfl different
      · exact .inr (.inr inAfter)
  have treeMember : ∀ other, other ∈ tree.toList ↔
      other ∈ alloc.buffers ∧ alloc.isFree other = true ∧ other ≠ prev ∧ other ≠ buffer := by
    intro other
    rw [treePerm.mem_iff]
    simp
  have sameSize : ∀ other ∈ tree.toList, binderAllocBufferSize
      (alloc.relist (before ++ prev :: after) tree pages) other =
      binderAllocBufferSize alloc other := by
    intro other member
    obtain ⟨inList, -, notPrev, notBuffer⟩ := (treeMember other).mp member
    have inMerged := (memberIff other).mpr ⟨inList, notBuffer⟩
    rw [binderAllocBufferSize_eq alloc inList, binderAllocBufferSize_eq _ inMerged, shape]
    exact (extent_merge notPrev notBuffer).symm
  refine ⟨merged, ?_, ordered.byAddress, ?_, ?_⟩
  · refine (perm_ext_iff_of_nodup ordered.nodup_allocatedBuffers (merged.nodup.filter _)).mpr ?_
    intro other
    rw [ordered.mem_allocatedBuffers, mem_filter, memberIff]
    show _ ↔ _ ∧ (!alloc.isFree other) = true
    constructor
    · rintro ⟨inList, allocated⟩
      refine ⟨⟨inList, ?_⟩, by simp [allocated]⟩
      rintro rfl
      rw [bufferFree] at allocated
      cases allocated
    · rintro ⟨⟨inList, -⟩, allocated⟩
      exact ⟨inList, by simpa using allocated⟩
  · refine (perm_ext_iff_of_nodup (treePerm.nodup_iff.mpr (ordered.tiles.nodup.filter _))
      (merged.nodup.filter _)).mpr ?_
    intro other
    rw [treeMember, mem_filter, memberIff]
    simp only [contains_cons, contains_nil, Bool.or_false,
      Bool.and_eq_true, Bool.not_eq_true', beq_eq_false_iff_ne]
    tauto
  · refine treeSorted.imp_of_mem ?_
    intro first second firstMember secondMember smaller
    rw [sameSize first firstMember, sameSize second secondMember]
    exact smaller

end

section
variable {buffer : BufferPtr}

theorem start_releaseBuffer : (releaseBuffer alloc buffer).start = alloc.start := by
  funext other
  rw [releaseBuffer]
  simp only [freePageRange_eq, BinderAlloc.start, setBuffer]
  by_cases same : other = buffer
  · subst same
    rw [Function.update_self]
  · rw [Function.update_of_ne same]

theorem isFree_releaseBuffer
    (other : BufferPtr) :
    (releaseBuffer alloc buffer).isFree other = (other == buffer || alloc.isFree other) := by
  rw [releaseBuffer]
  simp only [freePageRange_eq, BinderAlloc.isFree, setBuffer]
  by_cases same : other = buffer
  · subst same
    simp
  · simp [same]

theorem releaseBuffer_frame :
    (releaseBuffer alloc buffer).buffers = alloc.buffers ∧
    (releaseBuffer alloc buffer).buffer = alloc.buffer ∧ (releaseBuffer alloc buffer).bufferSize =
    alloc.bufferSize ∧ (releaseBuffer alloc buffer).freeBuffers = alloc.freeBuffers ∧
    (releaseBuffer alloc buffer).vma = alloc.vma := by
  rw [releaseBuffer]
  simp [freePageRange_eq, setBuffer]

/-- A released buffer is the only free one outside the tree. -/
theorem Ordered.release
    (ordered : Ordered alloc [])
    (member : buffer ∈ alloc.buffers)
    (allocated : alloc.isFree buffer = false) :
    Ordered (releaseBuffer alloc buffer) [buffer] := by
  obtain ⟨sameBuffers, sameBuffer, sameSize, sameTree, -⟩ := releaseBuffer_frame
  have sameFinish : (releaseBuffer alloc buffer).finish = alloc.finish := by
    rw [BinderAlloc.finish, sameBuffer, sameSize, BinderAlloc.finish]
  have erasedTree : (releaseBuffer alloc buffer).allocatedBuffers =
      rbErase buffer alloc.allocatedBuffers := by
    rfl
  have erased := toList_rbErase ordered.nodup_allocatedBuffers
    (ordered.mem_allocatedBuffers.mpr ⟨member, allocated⟩)
  refine ⟨?_, ?_, ?_, ?_, ?_⟩
  · rw [start_releaseBuffer, sameFinish, sameBuffer, sameBuffers]
    exact ordered.tiles
  · rw [erasedTree, erased, sameBuffers]
    refine (perm_ext_iff_of_nodup (ordered.nodup_allocatedBuffers.filter _)
      (ordered.tiles.nodup.filter _)).mpr ?_
    intro other
    rw [mem_filter, mem_filter, isFree_releaseBuffer, ordered.mem_allocatedBuffers]
    by_cases same : other = buffer
    · simp [same]
    · simp [same]
  · rw [erasedTree, erased, start_releaseBuffer]
    exact ordered.byAddress.filter _
  · rw [sameTree, sameBuffers]
    refine (perm_ext_iff_of_nodup ordered.nodup_freeBuffers (ordered.tiles.nodup.filter _)).mpr ?_
    intro other
    rw [mem_filter, isFree_releaseBuffer, ordered.mem_freeBuffers]
    by_cases same : other = buffer
    · subst same
      simp [allocated]
    · simp [same]
  · rw [sameTree]
    refine ordered.bySize.imp_of_mem ?_
    intro first second firstMember secondMember smaller
    rw [binderAllocBufferSize_congr sameBuffers start_releaseBuffer
        sameFinish (ordered.mem_freeBuffers.mp firstMember).1,
      binderAllocBufferSize_congr sameBuffers start_releaseBuffer
        sameFinish (ordered.mem_freeBuffers.mp secondMember).1]
    exact smaller

end

section
variable {buffer : BufferPtr} {after : List BufferPtr}

/-- The pages after `next` was deleted behind `prev`. -/
def pagesAfterDelete (alloc : BinderAlloc) (prev buffer : BufferPtr)
    (after : List BufferPtr) : BinderPages :=
  (deletedIndexes alloc.buffer (alloc.start prev) (alloc.start buffer)
    (after.head?.map alloc.start)).foldl freePage alloc.pages

theorem Ordered.erase
    {loose : List BufferPtr}
    (ordered : Ordered alloc loose)
    {other : BufferPtr}
    (inTree : other ∈ alloc.freeBuffers.toList)
    {removed : List BufferPtr}
    (both : ∀ buffer, buffer ∈ removed ↔ buffer ∈ loose ∨ buffer = other) :
    (rbErase other alloc.freeBuffers).toList.Perm (alloc.buffers.filter fun buffer =>
          alloc.isFree buffer && !removed.contains buffer) ∧
      (rbErase other alloc.freeBuffers).toList.Pairwise fun first second =>
          binderAllocBufferSize alloc first ≤ binderAllocBufferSize alloc second := by
  rw [toList_rbErase ordered.nodup_freeBuffers inTree]
  refine ⟨?_, ordered.bySize.filter _⟩
  refine (perm_ext_iff_of_nodup (ordered.nodup_freeBuffers.filter _)
    (ordered.tiles.nodup.filter _)).mpr ?_
  intro buffer
  rw [mem_filter, mem_filter, ordered.mem_freeBuffers]
  simp only [decide_not, Bool.not_eq_true', decide_eq_false_iff_not,
    Bool.and_eq_true, contains_eq_mem, both]
  tauto

section
variable (ordered : Ordered alloc [buffer]) (shape : alloc.buffers = before ++ buffer :: after)
  (isFree : alloc.isFree buffer = true)
include ordered shape isFree

theorem exists_mergeNext :
    (mergeNext alloc buffer = some alloc ∧ ∀ next ∈ after.head?, alloc.isFree next = false) ∨
    ∃ next rest tree, after = next :: rest ∧ alloc.isFree next = true ∧
    mergeNext alloc buffer = some (alloc.relist (before ++ buffer :: rest) tree
    (pagesAfterDelete alloc buffer next rest)) ∧ Ordered
    (alloc.relist (before ++ buffer :: rest) tree (pagesAfterDelete alloc buffer next rest))
    [buffer] := by
  have distinct := ordered.tiles.nodup
  have outside := (notMem_of_nodup_middle (shape ▸ distinct)).1
  have found : binderBufferNext buffer alloc.buffers = after.head? := by
    rw [shape, binderBufferNext_middle outside]
  cases after with
  | nil =>
    left
    refine ⟨?_, by simp⟩
    simp [mergeNext, found]
  | cons next rest =>
    cases nextFree : alloc.isFree next with
    | false =>
      left
      have allocated : (alloc.mem next).free = false := nextFree
      refine ⟨?_, ?_⟩
      · simp [mergeNext, found, allocated, ↓reduceIte]
      intro other isHead
      cases isHead
      exact nextFree
    | true =>
      right
      have isFreeNext : (alloc.mem next).free = true := nextFree
      have different : next ≠ buffer := by
        rintro rfl
        exact (notMem_of_nodup_middle (shape ▸ distinct)).2 (by simp)
      have inTree : next ∈ alloc.freeBuffers.toList := by
        refine ordered.mem_freeBuffers.mpr ⟨?_, nextFree, by
          simpa using different⟩
        simp [shape]
      obtain ⟨treePerm, treeSorted⟩ :=
        ordered.erase inTree (fun other => by simp :
          ∀ other, other ∈ [buffer, next] ↔ other ∈ [buffer] ∨ other = next)
      have merged := ordered.merge shape nextFree treePerm treeSorted
        (pagesAfterDelete alloc buffer next rest)
      refine ⟨next, rest, rbErase next alloc.freeBuffers, rfl, nextFree, ?_, merged⟩
      simp only [mergeNext, found, List.head?_cons, isFreeNext]
      rw [@binderDeleteFreeBuffer_eq
        { alloc with freeBuffers := rbErase next alloc.freeBuffers }
        before rest buffer next shape distinct isFree]
      rfl

theorem exists_mergePrev :
    (mergePrev alloc buffer = some (alloc, buffer) ∧
    ∀ prev ∈ before.getLast?, alloc.isFree prev = false) ∨ ∃ rest prev tree,
    before = rest ++ [prev] ∧ alloc.isFree prev = true ∧ mergePrev alloc buffer = some
    (alloc.relist (rest ++ prev :: after) tree
    (pagesAfterDelete alloc prev buffer after), prev) ∧ Ordered
    (alloc.relist (rest ++ prev :: after) tree (pagesAfterDelete alloc prev buffer after))
    [prev] := by
  have distinct := ordered.tiles.nodup
  have outside := (notMem_of_nodup_middle (shape ▸ distinct)).1
  have found : binderBufferPrev buffer alloc.buffers = before.getLast? := by
    rw [shape, binderBufferPrev_middle outside]
  rcases eq_nil_or_concat' before with rfl | ⟨rest, prev, rfl⟩
  · left
    refine ⟨?_, by simp⟩
    simp [mergePrev, found]
  have last : (rest ++ [prev]).getLast? = some prev := by simp
  rw [last] at found
  cases prevFree : alloc.isFree prev with
  | false =>
    left
    have allocated : (alloc.mem prev).free = false := prevFree
    refine ⟨?_, ?_⟩
    · simp [mergePrev, found, allocated, ↓reduceIte]
    rw [last]
    intro other isLast
    cases isLast
    exact prevFree
  | true =>
    right
    have isFreePrev : (alloc.mem prev).free = true := prevFree
    have reshape : alloc.buffers = rest ++ prev :: buffer :: after := by simp [shape]
    have different : prev ≠ buffer := by
      rintro rfl
      exact outside (by simp)
    have inTree : prev ∈ alloc.freeBuffers.toList := by
      refine ordered.mem_freeBuffers.mpr ⟨?_, prevFree, by
        simpa using different⟩
      simp [shape]
    obtain ⟨treePerm, treeSorted⟩ :=
      ordered.erase inTree (fun other => by simp [or_comm] :
        ∀ other, other ∈ [prev, buffer] ↔ other ∈ [buffer] ∨ other = prev)
    have merged := ordered.merge reshape isFree treePerm treeSorted
      (pagesAfterDelete alloc prev buffer after)
    refine ⟨rest, prev, rbErase prev alloc.freeBuffers, rfl, prevFree, ?_, merged⟩
    simp only [mergePrev, found, isFreePrev, binderDeleteFreeBuffer_eq reshape distinct prevFree]
    rfl

end

/-- The loose buffer goes back into the free tree. -/
theorem exists_insertLoose
    (ordered : Ordered alloc [buffer])
    (member : buffer ∈ alloc.buffers)
    (isFree : alloc.isFree buffer = true) :
    ∃ tree, binderInsertFreeBuffer alloc buffer = some { alloc with freeBuffers := tree } ∧
        Ordered { alloc with freeBuffers := tree } [] := by
  obtain ⟨tree, inserted, permuted, sorted⟩ :=
    exists_binderInsertFreeBuffer isFree
      (fun other inTree => (ordered.mem_freeBuffers.mp inTree).2.1) ordered.bySize
  refine ⟨tree, inserted, ordered.tiles, ordered.allocatedPerm, ordered.byAddress, ?_, sorted⟩
  have notInTree : buffer ∉ alloc.freeBuffers.toList := by
    rw [ordered.mem_freeBuffers]
    simp
  refine (perm_ext_iff_of_nodup (permuted.nodup_iff.mpr
      (nodup_cons.mpr ⟨notInTree, ordered.nodup_freeBuffers⟩))
    (ordered.tiles.nodup.filter _)).mpr ?_
  intro other
  rw [permuted.mem_iff, mem_cons, mem_filter, ordered.mem_freeBuffers]
  show _ ↔ _ ∧ (alloc.isFree other && !([] : List BufferPtr).contains other) = true
  by_cases same : other = buffer
  · subst same
    simp [member, isFree]
  · simp [same]

end

/-- The page given up when the next buffer is merged. -/
def upperIndexes (alloc : BinderAlloc) (buffer : BufferPtr) (upper : Option BufferPtr)
    (after : List BufferPtr) : List Nat :=
  match upper with
  | some next =>
    deletedIndexes alloc.buffer (alloc.start buffer) (alloc.start next)
      (after.head?.map alloc.start)
  | none => []

/-- The page given up when a buffer is merged with the one before. -/
def lowerIndexes (alloc : BinderAlloc) (lower : Option BufferPtr) (buffer : BufferPtr)
    (after : List BufferPtr) : List Nat :=
  match lower with
  | some prev =>
    deletedIndexes alloc.buffer (alloc.start prev) (alloc.start buffer)
      (after.head?.map alloc.start)
  | none => []

/--
How a free ends: the free buffers `lower` and `upper` around the buffer are
merged with it; those beyond are allocated.
-/
structure FreeOutcome (alloc : BinderAlloc) (buffer : BufferPtr) where
  before : List BufferPtr
  lower : Option BufferPtr
  upper : Option BufferPtr
  after : List BufferPtr
  tree : RbTree BufferPtr
  shape : alloc.buffers = before ++ lower.toList ++ buffer :: (upper.toList ++ after)
  lowerFree : ∀ prev ∈ lower, alloc.isFree prev = true
  upperFree : ∀ next ∈ upper, alloc.isFree next = true
  beforeEnd : ∀ prev ∈ before.getLast?, alloc.isFree prev = false
  afterStart : ∀ next ∈ after.head?, alloc.isFree next = false

namespace FreeOutcome

variable {buffer : BufferPtr}

section
variable (outcome : FreeOutcome alloc buffer)

/-- The buffer that is free in the end. -/
def merged : BufferPtr := outcome.lower.getD buffer

/-- The pages that are given up, in order. -/
def indexes : List Nat :=
  freeIndexes alloc.buffer (pageAlign (alloc.start buffer))
      (pageMask (alloc.start buffer + binderAllocBufferSize alloc buffer)) ++
    upperIndexes alloc buffer outcome.upper outcome.after ++
    lowerIndexes alloc outcome.lower buffer outcome.after

/-- The state in the end. -/
def next : BinderAlloc :=
  (releaseBuffer alloc buffer).relist
    (outcome.before ++ outcome.merged :: outcome.after) outcome.tree
    (outcome.indexes.foldl freePage alloc.pages)

end

end FreeOutcome

variable {buffer : BufferPtr}

theorem pages_releaseBuffer :
    (releaseBuffer alloc buffer).pages =
    (freeIndexes alloc.buffer (pageAlign (alloc.start buffer)) (pageMask
    (alloc.start buffer + binderAllocBufferSize alloc buffer))).foldl freePage alloc.pages := by
  rw [releaseBuffer]
  simp only [freePageRange_eq, setBuffer, BinderAlloc.start]

theorem FreeOutcome.next_eq
    (outcome : FreeOutcome alloc buffer) :
    outcome.next = (releaseBuffer alloc buffer).relist
    (outcome.before ++ outcome.merged :: outcome.after) outcome.tree
    ((lowerIndexes alloc outcome.lower buffer outcome.after).foldl freePage
    ((upperIndexes alloc buffer outcome.upper outcome.after).foldl
    freePage (releaseBuffer alloc buffer).pages)) := by
  rw [FreeOutcome.next, FreeOutcome.indexes, foldl_append, foldl_append, pages_releaseBuffer]

section
variable (ordered : Ordered alloc [])
  (coalesced : alloc.buffers.IsChain fun first second => ¬ (alloc.isFree first = true ∧
    alloc.isFree second = true))
include ordered coalesced

/-- After the first merge the next buffer is allocated. -/
theorem exists_upper {before after : List BufferPtr}
    (shape : alloc.buffers = before ++ buffer :: after)
    (allocated : alloc.isFree buffer = false) :
    ∃ upper rest tree, after = upper.toList ++ rest ∧ (∀ next ∈ upper, alloc.isFree next = true) ∧
        (∀ next ∈ rest.head?, alloc.isFree next = false) ∧
        let merged := (releaseBuffer alloc buffer).relist (before ++ buffer :: rest) tree
          ((upperIndexes alloc buffer upper rest).foldl freePage (releaseBuffer alloc buffer).pages)
        mergeNext (releaseBuffer alloc buffer) buffer = some merged ∧ Ordered merged [buffer] := by
  have member : buffer ∈ alloc.buffers := by simp [shape]
  have distinct := ordered.tiles.nodup
  rw [shape] at coalesced distinct
  have released := ordered.release member allocated
  obtain ⟨sameBuffers, sameBuffer, -, -, -⟩ := @releaseBuffer_frame alloc buffer
  have bufferOutside := (notMem_of_nodup_middle distinct).2
  have sameFree : ∀ other ∈ after,
      (releaseBuffer alloc buffer).isFree other = alloc.isFree other := by
    intro other inAfter
    have different := ne_of_mem_of_not_mem inAfter bufferOutside
    rw [isFree_releaseBuffer]
    simp [different]
  have releasedShape : (releaseBuffer alloc buffer).buffers = before ++ buffer :: after :=
    sameBuffers.trans shape
  have bufferFree : (releaseBuffer alloc buffer).isFree buffer = true := by
    rw [isFree_releaseBuffer]
    simp
  rcases exists_mergeNext released releasedShape bufferFree with
    ⟨kept, nextAllocated⟩ | ⟨next, rest, tree, rfl, nextFree, merged, after⟩
  · refine ⟨none, after, (releaseBuffer alloc buffer).freeBuffers, rfl, by simp, ?_, ?_, ?_⟩
    · intro next isHead
      have inAfter : next ∈ after := mem_of_mem_head? isHead
      rw [← sameFree next inAfter]
      exact nextAllocated next isHead
    · rw [kept, ← releasedShape]
      rfl
    · rw [← releasedShape]
      exact released
  have samePages : pagesAfterDelete (releaseBuffer alloc buffer) buffer next rest =
      (upperIndexes alloc buffer (some next) rest).foldl freePage
      (releaseBuffer alloc buffer).pages := by
    rw [pagesAfterDelete, start_releaseBuffer, sameBuffer]
    rfl
  rw [samePages] at merged after
  rw [sameFree next (by simp)] at nextFree
  refine ⟨some next, rest, tree, rfl, ?_, ?_, merged, after⟩
  · intro other isNext
    cases isNext
    exact nextFree
  intro other isHead
  cases rest with
  | nil => cases isHead
  | cons third others =>
    cases isHead
    have chain := (isChain_split.mp coalesced).2
    rw [isChain_cons_cons, isChain_cons_cons] at chain
    cases otherFree : alloc.isFree other with
    | false => rfl
    | true => exact absurd ⟨nextFree, otherFree⟩ chain.2.1

/-- Both merges and a released buffer's insertion. -/
theorem exists_freeOutcome
    (member : buffer ∈ alloc.buffers)
    (allocated : alloc.isFree buffer = false) :
    ∃ outcome : FreeOutcome alloc buffer, (match mergeNext (releaseBuffer alloc buffer) buffer with
        | none => none
        | some alloc =>
            match mergePrev alloc buffer with
            | none => none
            | some (alloc, merged) => binderInsertFreeBuffer alloc merged) =
          some outcome.next ∧
        Ordered outcome.next [] := by
  obtain ⟨before, after, shape⟩ := append_of_mem member
  obtain ⟨upper, rest, tree, rfl, upperFree, afterStart, merged, inOrder⟩ :=
    exists_upper ordered coalesced shape allocated
  have distinct := ordered.tiles.nodup
  rw [shape] at coalesced distinct
  have bufferOutside := (notMem_of_nodup_middle distinct).1
  have sameFree : ∀ other ∈ before,
      (releaseBuffer alloc buffer).isFree other = alloc.isFree other := by
    intro other inBefore
    have different := ne_of_mem_of_not_mem inBefore bufferOutside
    rw [isFree_releaseBuffer]
    simp [different]
  have bufferFree : (releaseBuffer alloc buffer).isFree buffer = true := by
    rw [isFree_releaseBuffer]
    simp
  rw [merged]
  rcases exists_mergePrev inOrder rfl bufferFree with
    ⟨kept, prevAllocated⟩ |
      ⟨others, prev, lowerTree, rfl, prevFree, mergedPrev, prevInOrder⟩
  · obtain ⟨finalTree, inserted, final⟩ :=
      exists_insertLoose inOrder (mem_append_right _ mem_cons_self) bufferFree
    refine ⟨⟨before, none, upper, rest, finalTree, ?_, by simp, upperFree, ?_, afterStart⟩, ?_, ?_⟩
    · simp [shape]
    · intro prev isLast
      rw [← sameFree prev (mem_of_getLast? isLast)]
      exact prevAllocated prev isLast
    · simp only [kept, inserted, FreeOutcome.next_eq]
      rfl
    · rw [FreeOutcome.next_eq]
      exact final
  obtain ⟨finalTree, inserted, final⟩ :=
    exists_insertLoose prevInOrder (mem_append_right _ mem_cons_self) prevFree
  have prevWasFree : alloc.isFree prev = true := by
    rw [← sameFree prev (by simp)]
    exact prevFree
  have samePages : pagesAfterDelete ((releaseBuffer alloc buffer).relist
      (others ++ [prev] ++ buffer :: rest) tree
      ((upperIndexes alloc buffer upper rest).foldl freePage
      (releaseBuffer alloc buffer).pages)) prev buffer rest =
      (lowerIndexes alloc (some prev) buffer rest).foldl freePage
      ((upperIndexes alloc buffer upper rest).foldl freePage
      (releaseBuffer alloc buffer).pages) := by
    rw [lowerIndexes, ← @start_releaseBuffer alloc buffer,
      ← (@releaseBuffer_frame alloc buffer).2.1]
    rfl
  refine ⟨⟨others, some prev, upper, rest, finalTree, ?_, ?_, upperFree, ?_, afterStart⟩, ?_, ?_⟩
  · simp [shape]
  · intro other isPrev
    cases isPrev
    exact prevWasFree
  · intro other isLast
    have chain := (isChain_append.mp coalesced).1
    have apart := (isChain_append.mp chain).2.2 other isLast prev rfl
    exact Bool.eq_false_iff.mpr fun otherFree => apart ⟨otherFree, prevWasFree⟩
  · simp only [mergedPrev, inserted, FreeOutcome.next_eq]
    rw [samePages]
    rfl
  · rw [FreeOutcome.next_eq]
    rw [samePages] at final
    exact final

end

end EchoKernel.Binder
