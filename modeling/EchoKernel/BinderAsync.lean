import EchoKernel.BinderRuns
import Mathlib.Algebra.BigOperators.Group.List.Basic
import Mathlib.Algebra.Order.Group.Nat
import Mathlib.Algebra.GroupWithZero.Nat

namespace EchoKernel.Binder

open LabelledRun List BinderAlloc

/-!
# The space for asynchronous transactions

An asynchronous allocation is charged for the padded size, but the check
before it and the free after it use the unpadded one. They agree unless all
three sizes are zero: then the charge is one pointer more than is checked and
given back.
-/

/-- What an allocated asynchronous buffer was charged. -/
def asyncShare (alloc : BinderAlloc) (buffer : BufferPtr) : Nat :=
  if (alloc.mem buffer).free = false ∧ (alloc.mem buffer).asyncTransaction = true then
    (chargedSize (alloc.mem buffer)).toNat + sizeofBinderBuffer.toNat
  else 0

/-- The charges of all asynchronous buffers. -/
def asyncCharge (alloc : BinderAlloc) : Nat := (alloc.buffers.map (asyncShare alloc)).sum

/-- Free space and charges are half of the area together. -/
def AsyncBalanced (alloc : BinderAlloc) : Prop :=
  alloc.freeAsyncSpace.toNat + asyncCharge alloc = alloc.bufferSize / 2

/-- The request is not an empty asynchronous one. -/
def Request.NotEmptyAsync : Request → Prop
  | .newBuf _ dataSize offsetsSize extraBuffersSize isAsync =>
    isAsync = true → ¬ (dataSize = 0 ∧ offsetsSize = 0 ∧ extraBuffersSize = 0)
  | .freeBuf _ => True

section
variable {dataSize offsetsSize extraBuffersSize : BitVec 32}

/-- Aligned sizes are multiples of a pointer's size. -/
theorem alignPtr_toNat_mod (size : BitVec 32) : (alignPtr size).toNat % 4 = 0 := by
  have lowBits : alignPtr size &&& 3 = 0 := by
    rw [alignPtr, BitVec.and_assoc]
    exact BitVec.and_zero
  have asNat := congrArg BitVec.toNat lowBits
  exact (Nat.and_two_pow_sub_one_eq_mod _ 2).symm.trans asNat

/-- A request of less than a pointer is for nothing. -/
theorem requestSize_lt
    (smaller : requestSize dataSize offsetsSize extraBuffersSize < sizeofPtr) :
    requestSize dataSize offsetsSize extraBuffersSize = 0 := by
  have data := alignPtr_toNat_mod dataSize
  have offsets := alignPtr_toNat_mod offsetsSize
  have extra := alignPtr_toNat_mod extraBuffersSize
  rw [requestSize] at smaller ⊢
  simp only [sizeofPtr] at smaller
  bv_omega

/-- A nonempty request that passes the checks needs no padding. -/
theorem Admitted.paddedSize_eq
    {alloc : BinderAlloc}
    {isAsync : Bool}
    (admitted : Admitted alloc dataSize offsetsSize extraBuffersSize isAsync)
    (notEmpty : ¬ (dataSize = 0 ∧ offsetsSize = 0 ∧ extraBuffersSize = 0)) :
    paddedSize dataSize offsetsSize extraBuffersSize =
    requestSize dataSize offsetsSize extraBuffersSize := by
  rw [paddedSize, if_neg]
  intro smaller
  have nothing := requestSize_lt smaller
  have dataFits := admitted.dataFits
  have offsetsFit := admitted.offsetsFit
  have extraBuffersFit := admitted.extraBuffersFit
  rw [nothing] at dataFits offsetsFit extraBuffersFit
  exact notEmpty ⟨BitVec.le_zero_iff.mp dataFits, BitVec.le_zero_iff.mp offsetsFit,
    BitVec.le_zero_iff.mp extraBuffersFit⟩

end

variable {alloc next : BinderAlloc} {buffer : BufferPtr}

theorem asyncShare_of_free (isFree : alloc.isFree buffer = true) : asyncShare alloc buffer = 0 := by
  have free : (alloc.mem buffer).free = true := isFree
  simp [asyncShare, free]

theorem sum_asyncShare_congr
    {buffers : List BufferPtr}
    (same : ∀ other ∈ buffers, next.mem other = alloc.mem other) :
    (buffers.map (asyncShare next)).sum = (buffers.map (asyncShare alloc)).sum := by
  refine congrArg sum (map_congr_left ?_)
  intro other member
  rw [asyncShare, asyncShare, same other member]

theorem sum_asyncShare_of_free
    {buffer : Option BufferPtr}
    (allFree : ∀ other ∈ buffer, alloc.isFree other = true) :
    (buffer.toList.map (asyncShare alloc)).sum = 0 := by
  cases buffer with
  | none => rfl
  | some other => simp [asyncShare_of_free (allFree other rfl)]

/-- An allocation adds the share of the new buffer. -/
theorem NewBufOutcome.asyncCharge_next
    {dataSize offsetsSize extraBuffersSize size : BitVec 32}
    {isAsync : Bool}
    (outcome : NewBufOutcome alloc next buffer dataSize offsetsSize extraBuffersSize size isAsync)
    (distinct : alloc.buffers.Nodup) :
    asyncCharge next = asyncCharge alloc + asyncShare next buffer := by
  obtain ⟨before, after, remainder, shape, nextShape, remainderFree⟩ := outcome.shape
  rw [shape] at distinct
  obtain ⟨notBefore, notAfter⟩ := IntervalTiling.notMem_of_nodup_middle distinct
  have sameMem : ∀ other, other ∈ before ∨ other ∈ after → next.mem other = alloc.mem other := by
    intro other member
    refine (outcome.others other ?_ ?_).1
    · rw [shape]
      simp only [mem_append]
      tauto
    · rintro rfl
      tauto
  rw [asyncCharge, asyncCharge, nextShape, shape]
  simp only [map_append, map_cons, sum_append, sum_cons]
  rw [sum_asyncShare_congr fun other member => sameMem other (.inl member),
    sum_asyncShare_congr fun other member => sameMem other (.inr member),
    sum_asyncShare_of_free fun other isNew => (remainderFree other isNew).2.1,
    asyncShare_of_free outcome.wasFree]
  omega

/-- A free takes the share of the freed buffer away. -/
theorem FreeOutcome.asyncCharge_next
    (outcome : FreeOutcome alloc buffer)
    (ordered : Ordered alloc []) :
    asyncCharge alloc = asyncCharge outcome.next + asyncShare alloc buffer := by
  have sameMem : ∀ other, other ∈ outcome.before ∨ other ∈ outcome.after →
      outcome.next.mem other = alloc.mem other := by
    intro other member
    exact outcome.mem_next (outcome.apart ordered (mem_append.mpr member)).1
  rw [asyncCharge, asyncCharge, outcome.buffers_next, outcome.shape]
  simp only [map_append, map_cons, sum_append, sum_cons]
  rw [sum_asyncShare_congr fun other member => sameMem other (.inl member),
    sum_asyncShare_congr fun other member => sameMem other (.inr member),
    sum_asyncShare_of_free outcome.lowerFree, sum_asyncShare_of_free outcome.upperFree,
    asyncShare_of_free outcome.isFree_merged]
  omega

variable {initial final : BinderAlloc}

section

/-- Runs without empty asynchronous requests keep this. -/
structure AsyncInvariant (alloc : BinderAlloc) : Prop where
  invariant : Invariant alloc
  balanced : AsyncBalanced alloc
  unpadded : ∀ buffer ∈ alloc.buffers, alloc.isFree buffer = false →
      (alloc.mem buffer).asyncTransaction = true →
      chargedSize (alloc.mem buffer) = storedSize (alloc.mem buffer)

/-- After mapping nothing is charged. -/
theorem FirstState.asyncInvariant (first : FirstState alloc) : AsyncInvariant alloc := by
  refine ⟨⟨first.wellFormed, first.pagesMatch⟩, ?_, ?_⟩
  · have uncharged : asyncCharge alloc = 0 := by
      refine sum_eq_zero ?_
      exact forall_mem_map.mpr fun buffer member => asyncShare_of_free (first.allFree buffer member)
    have bounded := first.wellFormed.area.bounded
    rw [finish] at bounded
    rw [AsyncBalanced, uncharged, first.asyncSpace, BitVec.toNat_ofNat, Nat.mod_eq_of_lt]
    · rfl
    · omega
  · intro buffer member allocated
    rw [first.allFree buffer member] at allocated
    cases allocated

variable (before : AsyncInvariant alloc)
include before

/-- An unpadded allocation keeps the balance. -/
theorem AsyncInvariant.newBuf
    {dataSize offsetsSize extraBuffersSize : BitVec 32}
    {isAsync : Bool}
    (admitted : Admitted alloc dataSize offsetsSize extraBuffersSize isAsync)
    (notEmpty : isAsync = true → ¬ (dataSize = 0 ∧ offsetsSize = 0 ∧ extraBuffersSize = 0))
    (outcome : NewBufOutcome alloc next buffer dataSize offsetsSize extraBuffersSize
      (paddedSize dataSize offsetsSize extraBuffersSize) isAsync)
    (nextInvariant : Invariant next) :
    AsyncInvariant next := by
  have wellFormed := before.invariant.wellFormed
  obtain ⟨front, back, remainder, shape, nextShape, remainderFree⟩ := outcome.shape
  have member : buffer ∈ alloc.buffers := by simp [shape]
  have taken := outcome.taken
  refine ⟨nextInvariant, ?_, ?_⟩
  · have balanced := before.balanced
    rw [AsyncBalanced] at balanced ⊢
    have share : asyncShare next buffer = if isAsync then
        (paddedSize dataSize offsetsSize extraBuffersSize).toNat + sizeofBinderBuffer.toNat else
        0 := by
      rw [asyncShare, taken]
      cases isAsync <;> rfl
    rw [outcome.asyncCharge_next wellFormed.ordered.tiles.nodup, share,
      outcome.charged, outcome.sameArea.2.1]
    cases isAsync with
    | false => exact balanced
    | true =>
      have space := admitted.asyncSpace rfl
      rw [← admitted.paddedSize_eq (notEmpty rfl)] at space
      have inArea := (wellFormed.ordered.size_pos member).2
      have bounded := wellFormed.area.bounded
      have fits := outcome.fits
      simp only [sizeofBinderBuffer, pageSize, ↓reduceIte] at *
      bv_omega
  · intro other inNext allocated isAsynchronous
    by_cases same : other = buffer
    · subst same
      rw [taken] at isAsynchronous ⊢
      have asynchronous : isAsync = true := isAsynchronous
      exact admitted.paddedSize_eq (notEmpty asynchronous)
    · have inList := outcome.mem_of_allocated inNext allocated
      rw [outcome.isFree_eq inList] at allocated
      rw [(outcome.others other inList same).1] at isAsynchronous ⊢
      exact before.unpadded other inList (by simpa [same] using allocated) isAsynchronous

/-- A free gives back what was charged. -/
theorem AsyncInvariant.freeBuf
    (outcome : FreeOutcome alloc buffer)
    (allocated : alloc.isFree buffer = false)
    (nextInvariant : Invariant outcome.next) :
    AsyncInvariant outcome.next := by
  have wellFormed := before.invariant.wellFormed
  refine ⟨nextInvariant, ?_, ?_⟩
  · have balanced := before.balanced
    have bounded := wellFormed.area.bounded
    have notFree : (alloc.mem buffer).free = false := allocated
    have credited : outcome.next.freeAsyncSpace = if (alloc.mem buffer).asyncTransaction then
        alloc.freeAsyncSpace + (storedSize (alloc.mem buffer) + sizeofBinderBuffer) else
        alloc.freeAsyncSpace := by
      show (releaseBuffer alloc buffer).freeAsyncSpace = _
      rw [releaseBuffer]
      simp only [freePageRange_eq, setBuffer]
    rw [AsyncBalanced, outcome.asyncCharge_next wellFormed.ordered, asyncShare] at balanced
    rw [AsyncBalanced, credited, outcome.area_next.2.1]
    cases asynchronous : (alloc.mem buffer).asyncTransaction with
    | false => simpa [asynchronous] using balanced
    | true =>
      rw [asynchronous, if_pos ⟨notFree, rfl⟩,
        before.unpadded buffer outcome.member allocated asynchronous] at balanced
      rw [finish] at bounded
      simp only [↓reduceIte] at *
      bv_omega
  · intro other inNext otherAllocated isAsynchronous
    have inOthers := outcome.mem_others inNext otherAllocated
    rw [outcome.isFree_next wellFormed.ordered inOthers] at otherAllocated
    rw [outcome.mem_next (outcome.apart wellFormed.ordered inOthers).1] at isAsynchronous ⊢
    exact before.unpadded other (outcome.mem_buffers inOthers) otherAllocated isAsynchronous

/-- Every call but an empty asynchronous one keeps the balance. -/
theorem AsyncInvariant.step
    {request : Request}
    (notEmpty : request.NotEmptyAsync)
    (step : Step alloc request next) :
    AsyncInvariant next := by
  have nextInvariant := before.invariant.step step
  obtain ⟨wellFormed, pagesMatch⟩ := before.invariant
  cases step with
  | @newBuf _ env dataSize offsetsSize extraBuffersSize isAsync result fresh runs =>
    obtain ⟨actual, actualResult, actualRuns, -, ends, admitted⟩ :=
      exists_binderAllocNewBuf wellFormed pagesMatch env fresh dataSize
        offsetsSize extraBuffersSize isAsync
    rw [runs] at actualRuns
    cases actualRuns
    cases ends with
    | failed pages errno => exact ⟨nextInvariant, before.balanced, before.unpadded⟩
    | allocated buffer outcome =>
      exact before.newBuf (admitted buffer rfl) notEmpty outcome nextInvariant
  | freeBuf member runs =>
    have allocated := isFree_of_binderAllocFreeBuf runs
    obtain ⟨outcome, actualRuns, -⟩ :=
      exists_binderAllocFreeBuf wellFormed pagesMatch member allocated
    rw [runs] at actualRuns
    cases actualRuns
    exact before.freeBuf outcome allocated nextInvariant

/-- A free gives back the whole share of the buffer. -/
theorem AsyncInvariant.gives_back
    (member : buffer ∈ alloc.buffers)
    (allocated : alloc.isFree buffer = false) :
    ∃ next, binderAllocFreeBuf alloc buffer = some next ∧
    next.freeAsyncSpace.toNat = alloc.freeAsyncSpace.toNat + asyncShare alloc buffer := by
  obtain ⟨wellFormed, pagesMatch⟩ := before.invariant
  obtain ⟨outcome, runs, nextWellFormed, nextMatch⟩ :=
    exists_binderAllocFreeBuf wellFormed pagesMatch member allocated
  have after := before.freeBuf outcome allocated ⟨nextWellFormed, nextMatch⟩
  have balanced := before.balanced
  have nextBalanced := after.balanced
  rw [AsyncBalanced, outcome.asyncCharge_next wellFormed.ordered] at balanced
  rw [AsyncBalanced, outcome.area_next.2.1] at nextBalanced
  exact ⟨outcome.next, runs, by omega⟩

end

variable {requests : List Request}

theorem isSome_emptyAsync :
    (binderAllocNewBuf generousEnv twoPageAlloc 0 0 0 true).isSome = true := by
  decide

/-- The state with an empty asynchronous buffer. -/
def emptyAsyncAlloc : BinderAlloc :=
  ((binderAllocNewBuf generousEnv twoPageAlloc 0 0 0 true).get isSome_emptyAsync).1

theorem isSome_emptyAsyncFreed : (binderAllocFreeBuf emptyAsyncAlloc 1).isSome = true := by
  decide

/-- The state after the empty buffer was freed. -/
def emptyAsyncFreed : BinderAlloc :=
  (binderAllocFreeBuf emptyAsyncAlloc 1).get isSome_emptyAsyncFreed

/-- Making and freeing an empty asynchronous buffer loses 4 bytes. -/
theorem not_asyncBalanced_emptyAsyncFreed :
    Mapped twoPageAlloc ∧
    Run Step twoPageAlloc [.newBuf generousEnv 0 0 0 true, .freeBuf 1] emptyAsyncFreed ∧
    asyncCharge emptyAsyncFreed = 0 ∧ emptyAsyncFreed.freeAsyncSpace = 4092 ∧
    ¬ AsyncBalanced emptyAsyncFreed := by
  refine ⟨mapped_twoPageAlloc, ?_, by decide, by decide, ?_⟩
  · have allocated : Run Step twoPageAlloc [.newBuf generousEnv 0 0 0 true] emptyAsyncAlloc :=
      .after .start (.newBuf (by simp [FreshIn, generousEnv, twoPageAlloc, oneBuffer,
          binderAllocInit])
        (Option.some_get isSome_emptyAsync).symm)
    exact allocated.after (.freeBuf (by decide) (Option.some_get isSome_emptyAsyncFreed).symm)
  · unfold AsyncBalanced
    decide

/--
In runs without empty asynchronous requests the free space and the charges of
asynchronous buffers are together half of the area, and a free gives back what
was charged.
-/
theorem asyncBalanced_of_run
    (mapped : Mapped initial)
    (run : Run Step initial requests final)
    (notEmpty : ∀ request ∈ requests, request.NotEmptyAsync) :
    AsyncBalanced final ∧ ∀ buffer ∈
    final.buffers, (final.mem buffer).free = false →
    ∃ next, binderAllocFreeBuf final buffer = some next ∧
    next.freeAsyncSpace.toNat = final.freeAsyncSpace.toNat + asyncShare final buffer := by
  have invariant : AsyncInvariant final := run.invariant mapped.firstState.asyncInvariant
    (fun _ _ _ before admitted step => before.step admitted step) notEmpty
  exact ⟨invariant.balanced, fun _ member allocated =>
    invariant.gives_back member allocated⟩

theorem asyncBalanced_of_run_hundredBytes :
    AsyncBalanced hundredBytesAlloc ∧
    asyncCharge hundredBytesAlloc = 148 ∧ hundredBytesAlloc.freeAsyncSpace = 3948 := by
  have notEmpty : ∀ request ∈ [Request.newBuf generousEnv 100 0 0 true], request.NotEmptyAsync := by
    simp [Request.NotEmptyAsync]
  exact ⟨(asyncBalanced_of_run mapped_twoPageAlloc run_hundredBytes
    notEmpty).1, by decide, by decide⟩

end EchoKernel.Binder
