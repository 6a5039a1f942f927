import EchoKernel.BinderFreeSpec
import EchoKernel.BinderNewBufSpec
import EchoKernel.LabelledRun

namespace EchoKernel.Binder

open IntervalTiling LabelledRun Rbtree

/-!
# Runs of the allocator

A run starts when the area is mapped and consists of allocations and frees,
with any answers of the kernel.
-/

/-- The area of a process and the kernel's answers while mapping. -/
structure MmapRequest where
  env : MmapEnv
  vmStart : Nat
  vmEnd : Nat
  nonempty : vmStart < vmEnd
  startAligned : vmStart % pageSize = 0
  endAligned : vmEnd % pageSize = 0
  -- `get_vm_area` returns pages of the kernel, with a guard page after them
  areaPositive : ∀ addr ∈ env.vmArea, 0 < addr
  areaAligned : ∀ addr ∈ env.vmArea, addr % pageSize = 0
  areaBounded : ∀ addr ∈ env.vmArea, addr + (vmEnd - vmStart) + pageSize ≤ 2 ^ 32

/-- An allocator whose area was not mapped yet. -/
inductive Unmapped : BinderAlloc → Prop
  | init : Unmapped binderAllocInit
  | failed {alloc next : BinderAlloc} {errno : Errno} (request : MmapRequest)
      (unmapped : Unmapped alloc) (runs : binderAllocMmapHandler request.env alloc request.vmStart
          request.vmEnd = some (next, some errno)) : Unmapped next

/-- The state after a successful `binder_alloc_mmap_handler`. -/
def Mapped (next : BinderAlloc) : Prop :=
  ∃ (alloc : BinderAlloc) (request : MmapRequest), Unmapped alloc ∧
      binderAllocMmapHandler request.env alloc request.vmStart request.vmEnd = some (next, none)

/-- The calls of a run, each with the answers of the kernel. -/
inductive Request where
  | newBuf (env : AllocEnv) (dataSize offsetsSize extraBuffersSize : BitVec 32) (isAsync : Bool)
  | freeBuf (buffer : BufferPtr)

/-- A structure that `kzalloc` returns is not in use. -/
def FreshIn (env : AllocEnv) (alloc : BinderAlloc) : Prop :=
  ∀ newBuffer ∈ env.kzalloc, newBuffer ∉ alloc.buffers

inductive Step : BinderAlloc → Request → BinderAlloc → Prop
  | newBuf {alloc next : BinderAlloc} {env : AllocEnv}
      {dataSize offsetsSize extraBuffersSize : BitVec 32} {isAsync : Bool}
      {result : Except Errno BufferPtr} (fresh : FreshIn env alloc) (runs :
        binderAllocNewBuf env alloc dataSize offsetsSize extraBuffersSize
          isAsync = some (next, result)) : Step alloc
        (.newBuf env dataSize offsetsSize extraBuffersSize isAsync) next
  | freeBuf {alloc next : BinderAlloc} {buffer : BufferPtr} (member : buffer ∈ alloc.buffers)
      (runs : binderAllocFreeBuf alloc buffer = some next) : Step alloc (.freeBuf buffer) next

variable {alloc next : BinderAlloc}

/-- The whole area in one free buffer that is not yet in the tree. -/
def oneBuffer (alloc : BinderAlloc) (addr size : Nat) (buffer : BufferPtr) : BinderAlloc :=
  { alloc with
    buffer := addr
    bufferSize := size
    pages := { alloc.pages with page := fun _ => ⟨false, .zeroed⟩ }
    buffers := buffer :: alloc.buffers
    mem := Function.update alloc.mem buffer { zeroedBuffer with data := addr, free := true } }

/-- Mapping fails and leaves list and trees, or lists one buffer. -/
theorem binderAllocMmapHandler_cases
    {env : MmapEnv}
    {vmStart vmEnd : Nat}
    {ret : Option Errno}
    (runs : binderAllocMmapHandler env alloc vmStart vmEnd = some (next, ret)) :
    (∃ errno,
        ret = some errno ∧ next.buffers = alloc.buffers ∧ next.freeBuffers = alloc.freeBuffers ∧
          next.allocatedBuffers = alloc.allocatedBuffers ∧
          next.pages.warnings = alloc.pages.warnings) ∨
      ∃ addr buffer inserted, ret = none ∧ env.vmArea = some addr ∧ binderInsertFreeBuffer
              (oneBuffer alloc addr (vmEnd - vmStart) buffer) buffer = some inserted ∧
          next = { inserted with
              freeAsyncSpace := BitVec.ofNat 32 (inserted.bufferSize / 2)
              vma := true } := by
  have failed : ∀ (kept : BinderAlloc) (errno : Errno), kept.buffers = alloc.buffers →
      kept.freeBuffers = alloc.freeBuffers → kept.allocatedBuffers = alloc.allocatedBuffers →
      kept.pages.warnings = alloc.pages.warnings → some (kept, some errno) = some (next, ret) →
      ∃ errno, ret = some errno ∧ next.buffers = alloc.buffers ∧
      next.freeBuffers = alloc.freeBuffers ∧ next.allocatedBuffers = alloc.allocatedBuffers ∧
      next.pages.warnings = alloc.pages.warnings := by
    intro kept errno buffers freeTree allocatedTree warnings same
    cases same
    exact ⟨errno, rfl, buffers, freeTree, allocatedTree, warnings⟩
  unfold binderAllocMmapHandler at runs
  split at runs
  · exact .inl (failed alloc .ebusy rfl rfl rfl rfl runs)
  split at runs
  · exact .inl (failed alloc .enomem rfl rfl rfl rfl runs)
  rename_i addr isArea
  split at runs
  · cases kzallocated : env.kzalloc with
    | none =>
      rw [kzallocated] at runs
      cases runs
      exact .inl ⟨.enomem, rfl, rfl, rfl, rfl, rfl⟩
    | some buffer =>
      rw [kzallocated] at runs
      right
      dsimp only at runs
      split at runs
      · cases runs
      rename_i inserted insertion
      cases runs
      exact ⟨addr, buffer, inserted, rfl, isArea, insertion, rfl⟩
  · exact .inl (failed alloc .enomem rfl rfl rfl rfl runs)

/-- An allocator without an area is empty. -/
theorem Unmapped.empty
    (unmapped : Unmapped alloc) :
    alloc.buffers = [] ∧
    alloc.freeBuffers = .null ∧ alloc.allocatedBuffers = .null ∧ alloc.pages.warnings = [] := by
  induction unmapped with
  | init => exact ⟨rfl, rfl, rfl, rfl⟩
  | failed request _ runs inductionHypothesis =>
    rcases binderAllocMmapHandler_cases runs with
      ⟨errno, -, buffers, freeTree, allocatedTree, warnings⟩ |
        ⟨-, -, -, succeeded, -⟩
    · rw [buffers, freeTree, allocatedTree, warnings]
      exact inductionHypothesis
    · cases succeeded

/-- The state that mapping the area leaves. -/
structure FirstState (alloc : BinderAlloc) : Prop where
  wellFormed : WellFormed alloc
  pagesMatch : PagesMatch alloc
  allFree : ∀ buffer ∈ alloc.buffers, alloc.isFree buffer = true
  asyncSpace : alloc.freeAsyncSpace = BitVec.ofNat 32 (alloc.bufferSize / 2)

/-- After mapping the whole area is one free buffer. -/
theorem Mapped.firstState (mapped : Mapped next) : FirstState next := by
  obtain ⟨alloc, request, unmapped, runs⟩ := mapped
  obtain ⟨noBuffers, noFree, noAllocated, silent⟩ := unmapped.empty
  rcases binderAllocMmapHandler_cases runs with
    ⟨errno, failed, -⟩ | ⟨addr, buffer, inserted, -, isArea, inserts, rfl⟩
  · cases failed
  have positive := request.areaPositive addr isArea
  have aligned := request.areaAligned addr isArea
  have bounded := request.areaBounded addr isArea
  have nonempty := request.nonempty
  have startAligned := request.startAligned
  have endAligned := request.endAligned
  generalize size : request.vmEnd - request.vmStart = areaSize at *
  have emptyTree : (oneBuffer alloc addr areaSize buffer).freeBuffers.toList = [] := by
    show alloc.freeBuffers.toList = []
    rw [noFree]
    rfl
  have listed : (oneBuffer alloc addr areaSize buffer).buffers = [buffer] := by
    show buffer :: alloc.buffers = [buffer]
    rw [noBuffers]
  have starts : (oneBuffer alloc addr areaSize buffer).start buffer = addr := by
    simp [BinderAlloc.start, oneBuffer]
  have isFree : (oneBuffer alloc addr areaSize buffer).isFree buffer = true := by
    simp [BinderAlloc.isFree, oneBuffer]
  obtain ⟨tree, insertsTree, permuted, sorted⟩ :=
    exists_binderInsertFreeBuffer isFree (by simp [emptyTree]) (by simp [emptyTree])
  rw [inserts, Option.some.injEq] at insertsTree
  subst insertsTree
  rw [emptyTree] at permuted
  have allFree : ∀ other ∈ (oneBuffer alloc addr areaSize buffer).buffers,
      (oneBuffer alloc addr areaSize buffer).isFree other = true := by
    rw [listed]
    simpa using isFree
  have notAllocated : ∀ other ∈ (oneBuffer alloc addr areaSize buffer).buffers,
      (oneBuffer alloc addr areaSize buffer).isFree other ≠ false := by
    intro other member
    rw [allFree other member]
    simp
  refine ⟨⟨⟨positive, aligned, ?_, bounded⟩, ⟨?_, ?_, ?_, ?_, sorted⟩, ?_,
    ?_, ?_⟩, ⟨?_, ?_, silent⟩, allFree, rfl⟩
  · show areaSize % pageSize = 0
    simp only [pageSize] at *
    omega
  · show Tiles (oneBuffer alloc addr areaSize buffer).start
      (addr + areaSize) addr (oneBuffer alloc addr areaSize buffer).buffers
    rw [listed]
    exact ⟨starts, addr + areaSize, by omega, rfl⟩
  · show alloc.allocatedBuffers.toList.Perm
      ((oneBuffer alloc addr areaSize buffer).buffers.filter fun other =>
        !(oneBuffer alloc addr areaSize buffer).isFree other)
    rw [noAllocated, listed]
    simp [isFree]
  · show alloc.allocatedBuffers.toList.Pairwise _
    rw [noAllocated]
    exact .nil
  · show tree.toList.Perm ((oneBuffer alloc addr areaSize buffer).buffers.filter fun other =>
      (oneBuffer alloc addr areaSize buffer).isFree other && !([] : List BufferPtr).contains other)
    rw [listed]
    simpa [isFree] using permuted
  · rw [listed]
    exact .singleton _
  · intro other member allocated
    exact absurd allocated (notAllocated other member)
  · rw [listed]
    simp [oneBuffer, zeroedBuffer]
  · rintro index ⟨other, member, allocated, -⟩
    exact absurd allocated (notAllocated other member)
  · intro index _
    exact .inl ⟨rfl, by simp [oneBuffer]⟩

variable {initial final : BinderAlloc} {requests : List Request}

/-- What holds in every state of a run. -/
structure Invariant (alloc : BinderAlloc) : Prop where
  wellFormed : WellFormed alloc
  pagesMatch : PagesMatch alloc

/-- Other page arrays keep the rest well formed. -/
theorem WellFormed.withPages
    (wellFormed : WellFormed alloc)
    (pages : BinderPages) :
    WellFormed { alloc with pages := pages } where
  area :=
    ⟨wellFormed.area.positive, wellFormed.area.aligned,
      wellFormed.area.sizeAligned, wellFormed.area.bounded⟩
  ordered := wellFormed.ordered.withPages pages
  coalesced := wellFormed.coalesced
  sized := wellFormed.sized
  noTransaction := wellFormed.noTransaction

theorem NewBufResult.wellFormed
    {dataSize offsetsSize extraBuffersSize : BitVec 32}
    {isAsync : Bool}
    {result : Except Errno BufferPtr}
    (ends : NewBufResult alloc dataSize offsetsSize extraBuffersSize
      (paddedSize dataSize offsetsSize extraBuffersSize) isAsync next result)
    (before : WellFormed alloc) :
    WellFormed next := by
  cases ends with
  | failed pages errno => exact before.withPages pages
  | allocated buffer outcome => exact outcome.wellFormed before rfl

theorem isFree_of_binderAllocFreeBuf
    {buffer : BufferPtr}
    (runs : binderAllocFreeBuf alloc buffer = some next) :
    alloc.isFree buffer = false := by
  cases isFree : alloc.isFree buffer with
  | false => rfl
  | true =>
    have free : (alloc.mem buffer).free = true := isFree
    simp [binderAllocFreeBuf, free] at runs

/-- Every call keeps the invariant. -/
theorem Invariant.step
    (invariant : Invariant alloc)
    {request : Request}
    (step : Step alloc request next) :
    Invariant next := by
  obtain ⟨wellFormed, pagesMatch⟩ := invariant
  cases step with
  | @newBuf _ env dataSize offsetsSize extraBuffersSize isAsync result fresh runs =>
    obtain ⟨actual, actualResult, actualRuns, nextMatch, ends, -⟩ :=
      exists_binderAllocNewBuf wellFormed pagesMatch env fresh dataSize
        offsetsSize extraBuffersSize isAsync
    rw [runs] at actualRuns
    cases actualRuns
    exact ⟨ends.wellFormed wellFormed, nextMatch⟩
  | freeBuf member runs =>
    obtain ⟨outcome, actualRuns, nextWellFormed, nextMatch⟩ :=
      exists_binderAllocFreeBuf wellFormed pagesMatch member (isFree_of_binderAllocFreeBuf runs)
    rw [runs] at actualRuns
    cases actualRuns
    exact ⟨nextWellFormed, nextMatch⟩

theorem invariant_of_run
    (mapped : Mapped initial)
    (run : Run Step initial requests final) :
    Invariant final := by
  have first := mapped.firstState
  exact run.always ⟨first.wellFormed, first.pagesMatch⟩
    fun _ _ _ invariant step => invariant.step step

/-- No call that is allowed runs into a `BUG_ON`. -/
theorem Invariant.returns
    (invariant : Invariant alloc) :
    (∀ env dataSize offsetsSize extraBuffersSize isAsync, FreshIn env alloc →
    (binderAllocNewBuf env alloc dataSize offsetsSize extraBuffersSize isAsync).isSome = true) ∧
    ∀ buffer ∈ alloc.buffers, alloc.isFree buffer = false →
    (binderAllocFreeBuf alloc buffer).isSome = true := by
  obtain ⟨wellFormed, pagesMatch⟩ := invariant
  constructor
  · intro env dataSize offsetsSize extraBuffersSize isAsync fresh
    obtain ⟨next, result, runs, -⟩ :=
      exists_binderAllocNewBuf wellFormed pagesMatch env fresh dataSize
        offsetsSize extraBuffersSize isAsync
    rw [runs]
    rfl
  · intro buffer member allocated
    obtain ⟨outcome, runs, -⟩ := exists_binderAllocFreeBuf wellFormed pagesMatch member allocated
    rw [runs]
    rfl

def twoPageArea : MmapRequest where
  env := ⟨some 0x10000, true, some 1⟩
  vmStart := 0
  vmEnd := 8192
  nonempty := by decide
  startAligned := by decide
  endAligned := by decide
  areaPositive := by decide
  areaAligned := by decide
  areaBounded := by decide

/-- The state after the area of two pages was mapped. -/
def twoPageAlloc : BinderAlloc :=
  { oneBuffer binderAllocInit 0x10000 8192 1 with
    freeBuffers := .node .black .null 1 .null
    freeAsyncSpace := 4096
    vma := true }

theorem mapped_twoPageAlloc : Mapped twoPageAlloc := ⟨binderAllocInit, twoPageArea, .init, rfl⟩

/-- A kernel that grants every allocation. -/
def generousEnv : AllocEnv where
  mmgetNotZero := true
  page := fun _ => .mapped
  kzalloc := some 2

theorem isSome_hundredBytes :
    (binderAllocNewBuf generousEnv twoPageAlloc 100 0 0 true).isSome = true := by
  decide

/-- The state with an asynchronous buffer of a hundred bytes. -/
def hundredBytesAlloc : BinderAlloc :=
  ((binderAllocNewBuf generousEnv twoPageAlloc 100 0 0 true).get isSome_hundredBytes).1

theorem run_hundredBytes :
    Run Step twoPageAlloc [.newBuf generousEnv 100 0 0 true] hundredBytesAlloc :=
  .after .start (.newBuf (by simp [FreshIn, generousEnv, twoPageAlloc, oneBuffer, binderAllocInit])
      (Option.some_get isSome_hundredBytes).symm)

/-- List and trees describe one division of the area. -/
structure Consistent (alloc : BinderAlloc) : Prop where
  tiles : Tiles (fun buffer => (alloc.mem buffer).data)
      (alloc.buffer + alloc.bufferSize) alloc.buffer alloc.buffers
  increasing : alloc.buffers.Pairwise fun first second =>
      (alloc.mem first).data < (alloc.mem second).data
  coalesced : alloc.buffers.IsChain fun first second =>
      ¬ ((alloc.mem first).free = true ∧ (alloc.mem second).free = true)
  allocatedExactly : alloc.allocatedBuffers.toList.Perm
      (alloc.buffers.filter fun buffer => !(alloc.mem buffer).free)
  byAddress : alloc.allocatedBuffers.toList.Pairwise fun first second =>
      (alloc.mem first).data < (alloc.mem second).data
  freeExactly : alloc.freeBuffers.toList.Perm
      (alloc.buffers.filter fun buffer => (alloc.mem buffer).free)
  bySize : alloc.freeBuffers.toList.Pairwise fun first second =>
      binderAllocBufferSize alloc first ≤ binderAllocBufferSize alloc second

theorem WellFormed.consistent
    {alloc : BinderAlloc}
    (wellFormed : WellFormed alloc) :
    Consistent alloc := by
  have ordered := wellFormed.ordered
  refine ⟨ordered.tiles, ordered.tiles.pairwise_lt, wellFormed.coalesced,
    ordered.allocatedPerm, ordered.byAddress, ?_, ordered.bySize⟩
  have freePerm := ordered.freePerm
  simp only [List.contains_nil, Bool.not_false, Bool.and_true] at freePerm
  exact freePerm

/-- What a failing allocation leaves as it was. -/
structure Unchanged (alloc next : BinderAlloc) : Prop where
  buffers : next.buffers = alloc.buffers
  mem : next.mem = alloc.mem
  freeBuffers : next.freeBuffers = alloc.freeBuffers
  allocatedBuffers : next.allocatedBuffers = alloc.allocatedBuffers
  freeAsyncSpace : next.freeAsyncSpace = alloc.freeAsyncSpace

/--
In every run the list tiles the area without neighbouring free buffers and the
trees hold its buffers in order. The next call returns, and an allocation that
fails changes neither.
-/
theorem consistent_of_run
    (mapped : Mapped initial)
    (run : Run Step initial requests final) :
    Consistent final ∧ (∀ env dataSize offsetsSize extraBuffersSize isAsync, FreshIn env final →
    ∃ next result, binderAllocNewBuf env final dataSize offsetsSize extraBuffersSize
    isAsync = some (next, result) ∧
    ∀ errno, result = .error errno → Unchanged final next) ∧ ∀ buffer ∈ final.buffers,
    (final.mem buffer).free = false → (binderAllocFreeBuf final buffer).isSome = true := by
  have invariant := invariant_of_run mapped run
  refine ⟨invariant.wellFormed.consistent, ?_, invariant.returns.2⟩
  intro env dataSize offsetsSize extraBuffersSize isAsync fresh
  obtain ⟨next, result, runs, -, ends, -⟩ :=
    exists_binderAllocNewBuf invariant.wellFormed invariant.pagesMatch env
      fresh dataSize offsetsSize extraBuffersSize isAsync
  refine ⟨next, result, runs, ?_⟩
  rintro errno rfl
  cases ends with
  | failed pages errno => exact ⟨rfl, rfl, rfl, rfl, rfl⟩

theorem consistent_of_run_hundredBytes :
    Consistent hundredBytesAlloc ∧
    (∀ env dataSize offsetsSize extraBuffersSize isAsync, FreshIn env hundredBytesAlloc →
    ∃ next result, binderAllocNewBuf env hundredBytesAlloc dataSize offsetsSize
    extraBuffersSize isAsync = some (next, result) ∧ ∀ errno, result = .error errno →
    Unchanged hundredBytesAlloc next) ∧ ∀ buffer ∈ hundredBytesAlloc.buffers,
    (hundredBytesAlloc.mem buffer).free = false →
    (binderAllocFreeBuf hundredBytesAlloc buffer).isSome = true :=
  consistent_of_run mapped_twoPageAlloc run_hundredBytes

/--
In every run the pages that are present and off the list of unused pages are
those that allocated buffers overlap; the other present pages are on it. No
page was put on it twice or taken off while absent, so nothing was warned of,
and the next call returns.
-/
theorem pages_of_run
    (mapped : Mapped initial)
    (run : Run Step initial requests final) :
    (∀ index,
    ((final.pages.page index).pagePtr = true ∧ (final.pages.page index).lru ≠ .linked) ↔
    ∃ buffer ∈ final.buffers, (final.mem buffer).free = false ∧ Overlaps final buffer index) ∧
    (∀ index, (final.pages.page index).pagePtr = true → (¬ ∃ buffer ∈ final.buffers,
    (final.mem buffer).free = false ∧ Overlaps final buffer index) →
    (final.pages.page index).lru = .linked) ∧ final.pages.warnings = [] ∧
    (∀ env dataSize offsetsSize extraBuffersSize isAsync, FreshIn env final →
    (binderAllocNewBuf env final dataSize offsetsSize extraBuffersSize isAsync).isSome = true) ∧
    ∀ buffer ∈ final.buffers, (final.mem buffer).free = false →
    (binderAllocFreeBuf final buffer).isSome = true := by
  have invariant := invariant_of_run mapped run
  have pagesMatch := invariant.pagesMatch
  refine ⟨?_, ?_, pagesMatch.silent, invariant.returns⟩
  · intro index
    constructor
    · rintro ⟨present, offLru⟩
      by_contra notUsed
      rcases pagesMatch.unused index notUsed with ⟨absent, -⟩ | ⟨-, onLru⟩
      · rw [absent] at present
        cases present
      · exact offLru onLru
    · intro used
      obtain ⟨present, offLru⟩ := pagesMatch.used index used
      rw [offLru]
      exact ⟨present, by simp⟩
  · intro index present notUsed
    rcases pagesMatch.unused index notUsed with ⟨absent, -⟩ | ⟨-, onLru⟩
    · rw [absent] at present
      cases present
    · exact onLru

theorem pages_of_run_hundredBytes :
    ((hundredBytesAlloc.pages.page 0).pagePtr = true ∧
    (hundredBytesAlloc.pages.page 0).lru ≠ .linked) ∧ ((∃ buffer ∈ hundredBytesAlloc.buffers,
    (hundredBytesAlloc.mem buffer).free = false ∧ Overlaps hundredBytesAlloc buffer 0) ∧
    hundredBytesAlloc.pages.warnings = []) := by
  have pages := pages_of_run mapped_twoPageAlloc run_hundredBytes
  have present : (hundredBytesAlloc.pages.page 0).pagePtr = true ∧
      (hundredBytesAlloc.pages.page 0).lru ≠ .linked := by
    decide
  exact ⟨present, (pages.1 0).mp present, pages.2.2.1⟩

end EchoKernel.Binder
