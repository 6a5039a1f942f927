import EchoKernel.BinderInvariant

namespace EchoKernel.Binder

open IntervalTiling Rbtree List Option BinderAlloc

/-!
# Every free request

A free gives up the pages inside the merged free buffer: those between the
ends of the freed one, and those shared with the free buffers around it.
-/

/-- The page with a deleted buffer's start, if nothing else needs it. -/
theorem mem_deletedIndexes
    {base prev data : Nat}
    {next : Option Nat}
    (aligned : base % pageSize = 0)
    (positive : 0 < base)
    (inside : base ≤ prev)
    (above : prev < data)
    (below : ∀ address ∈ next, data < address)
    {index : Nat} :
    index ∈
    deletedIndexes base prev data next ↔ prev ≤ base + index * pageSize ∧
    base + index * pageSize < data ∧ data < base + (index + 1) * pageSize ∧
    ∀ address ∈ next, base + (index + 1) * pageSize ≤ address := by
  have page : index ∈ freeIndexes base (bufferStartPage data) (bufferStartPage data + pageSize) ↔
      base + index * pageSize ≤ data ∧ data < base + (index + 1) * pageSize := by
    rw [mem_freeIndexes]
    all_goals
      simp only [bufferStartPage, pageMask, pageSize] at *
      omega
  rw [deletedIndexes, mem_ite_nil_right, page]
  cases next with
  | none =>
    simp only [pageToFree, any_none, Bool.not_false, Bool.and_eq_true, bne_iff_ne,
      not_mem_none, false_implies, implies_true, and_true]
    simp only [prevBufferEndPage, bufferStartPage, pageMask, pageSize] at *
    omega
  | some address =>
    have later : data < address := below address rfl
    simp only [pageToFree, any_some, Bool.and_eq_true, bne_iff_ne,
      Bool.not_eq_true', beq_eq_false_iff_ne, mem_def, some.injEq, forall_eq']
    simp only [prevBufferEndPage, bufferStartPage, pageMask, pageSize] at *
    omega

/-- Deleting a buffer gives up at most one page. -/
theorem nodup_deletedIndexes
    {base prev data : Nat}
    {next : Option Nat}
    (aligned : base % pageSize = 0)
    (inside : base ≤ data) :
    (deletedIndexes base prev data next).Nodup := by
  unfold deletedIndexes
  split
  · refine nodup_freeIndexes ?_
    simp only [bufferStartPage, pageMask, pageSize] at *
    omega
  · exact nodup_nil

namespace FreeOutcome

variable {alloc : BinderAlloc} {buffer : BufferPtr}

section
variable (outcome : FreeOutcome alloc buffer)

theorem area_next :
    outcome.next.buffer = alloc.buffer ∧ outcome.next.bufferSize =
    alloc.bufferSize ∧ outcome.next.finish = alloc.finish ∧ outcome.next.vma = alloc.vma := by
  obtain ⟨-, sameBuffer, sameSize, -, sameVma⟩ := releaseBuffer_frame
  refine ⟨sameBuffer, sameSize, ?_, sameVma⟩
  show (releaseBuffer alloc buffer).buffer + (releaseBuffer alloc buffer).bufferSize = _
  rw [sameBuffer, sameSize]
  rfl

theorem buffers_next : outcome.next.buffers = outcome.before ++ outcome.merged :: outcome.after :=
  rfl

theorem start_next : outcome.next.start = alloc.start := start_releaseBuffer

theorem mem_next
    {other : BufferPtr}
    (different : other ≠ buffer) :
    outcome.next.mem other = alloc.mem other := by
  show (releaseBuffer alloc buffer).mem other = _
  rw [releaseBuffer]
  simp only [freePageRange_eq, setBuffer, Function.update_of_ne different]

theorem mem_next_self : outcome.next.mem buffer = { alloc.mem buffer with free := true } := by
  show (releaseBuffer alloc buffer).mem buffer = _
  rw [releaseBuffer]
  simp [setBuffer]

theorem isFree_merged : outcome.next.isFree outcome.merged = true := by
  show (releaseBuffer alloc buffer).isFree _ = true
  rw [isFree_releaseBuffer, merged]
  cases isLower : outcome.lower with
  | none => simp
  | some prev => simp [outcome.lowerFree prev isLower]

theorem shape_stretch :
    alloc.buffers = outcome.before ++
    ((outcome.lower.toList ++ buffer :: outcome.upper.toList) ++ outcome.after) := by
  rw [outcome.shape]
  simp

include outcome in
theorem member : buffer ∈ alloc.buffers := by
  simp [outcome.shape]

theorem nextStart_stretch
    (hi : Nat)
    (rest : List BufferPtr) :
    nextStart alloc.start hi ((outcome.lower.toList ++ buffer :: outcome.upper.toList) ++ rest) =
    alloc.start outcome.merged := by
  rw [merged]
  cases outcome.lower <;> rfl

end

section
variable (outcome : FreeOutcome alloc buffer)

/-- Merged buffers are different from the others. -/
theorem apart
    (ordered : Ordered alloc [])
    {other : BufferPtr}
    (member : other ∈ outcome.before ++ outcome.after) :
    other ≠ buffer ∧ other ≠ outcome.merged := by
  have distinct := ordered.tiles.nodup
  rw [outcome.shape_stretch, nodup_append] at distinct
  obtain ⟨-, laterDistinct, beforeApart⟩ := distinct
  obtain ⟨-, -, afterApart⟩ := nodup_append.mp laterDistinct
  have stretch : ∀ part, part ∈ outcome.lower.toList ++ buffer :: outcome.upper.toList →
      other ≠ part := by
    intro part inStretch
    rcases mem_append.mp member with inBefore | inAfter
    · exact beforeApart other inBefore part (mem_append_left _ inStretch)
    · exact (afterApart part inStretch other inAfter).symm
  refine ⟨stretch buffer (by simp), stretch outcome.merged ?_⟩
  rw [merged]
  cases outcome.lower <;> simp

/-- The buffers that are not merged keep their sizes. -/
theorem size_next
    (ordered : Ordered alloc [])
    (nextOrdered : Ordered outcome.next [])
    {other : BufferPtr}
    (member : other ∈ outcome.before ++ outcome.after) :
    binderAllocBufferSize outcome.next other = binderAllocBufferSize alloc other := by
  have inAlloc : other ∈ alloc.buffers := by
    rw [outcome.shape_stretch]
    simp only [mem_append] at member ⊢
    tauto
  have inNext : other ∈ outcome.next.buffers := by
    rw [outcome.buffers_next]
    simp only [mem_append] at member ⊢
    tauto
  have distinct := ordered.tiles.nodup
  have nextDistinct := nextOrdered.tiles.nodup
  rw [binderAllocBufferSize_eq _ inNext, binderAllocBufferSize_eq _ inAlloc,
    outcome.start_next, outcome.area_next.2.2.1]
  rw [outcome.shape_stretch] at distinct ⊢
  rw [outcome.buffers_next] at nextDistinct ⊢
  rcases mem_append.mp member with inBefore | inAfter
  · rw [extent_append_left inBefore, extent_append_left inBefore, outcome.nextStart_stretch]
    rfl
  have notInStretch : other ∉ outcome.before ++
      (outcome.lower.toList ++ buffer :: outcome.upper.toList) := by
    intro inStretch
    rw [← append_assoc] at distinct
    exact (nodup_append.mp distinct).2.2 other inStretch other inAfter rfl
  have notInFront : other ∉ outcome.before ++ [outcome.merged] := by
    intro inFront
    rw [append_cons] at nextDistinct
    exact (nodup_append.mp nextDistinct).2.2 other inFront other inAfter rfl
  rw [← append_assoc, append_cons, extent_append_right notInStretch, extent_append_right notInFront]

end

section
variable (outcome : FreeOutcome alloc buffer)

/-- Where the merged buffer ends. -/
def high : Nat := nextStart alloc.start alloc.finish outcome.after

/-- The places of the parts of the merged buffer. -/
structure Places : Prop where
  fromBase : alloc.buffer ≤ alloc.start outcome.merged
  below : alloc.start buffer < alloc.start buffer + binderAllocBufferSize alloc buffer
  noLower : outcome.lower = none → alloc.start outcome.merged = alloc.start buffer
  lower : ∀ prev ∈ outcome.lower, alloc.start prev = alloc.start outcome.merged ∧
        alloc.start prev < alloc.start buffer
  noUpper : outcome.upper = none →
      alloc.start buffer + binderAllocBufferSize alloc buffer = outcome.high
  upper : ∀ next ∈ outcome.upper, alloc.start next =
          alloc.start buffer + binderAllocBufferSize alloc buffer ∧ alloc.start next < outcome.high

/-- The parts of the merged buffer follow each other. -/
theorem places (ordered : Ordered alloc []) : outcome.Places := by
  have covers := ordered.tiles
  have distinct := covers.nodup
  have member := outcome.member
  have mergedMember : outcome.merged ∈ alloc.buffers := by
    rw [outcome.shape, merged]
    cases outcome.lower <;> simp
  have ends : alloc.start buffer + binderAllocBufferSize alloc buffer =
      nextStart alloc.start alloc.finish (outcome.upper.toList ++ outcome.after) := by
    rw [outcome.shape] at covers distinct
    rw [binderAllocBufferSize_eq alloc member, outcome.shape,
      extent_middle (notMem_of_nodup_middle distinct).1]
    exact Nat.add_sub_cancel' covers.lt_nextStart.le
  have longer := (ordered.size_pos member).1
  refine ⟨(covers.start_mem mergedMember).1, by omega, ?_, ?_, ?_, ?_⟩
  · intro noLower
    rw [merged, noLower]
    rfl
  · intro prev isLower
    have isMerged : outcome.merged = prev := by rw [merged, isLower]; rfl
    rw [isMerged]
    have reshape : alloc.buffers = outcome.before ++
        prev :: buffer :: (outcome.upper.toList ++ outcome.after) := by
      rw [outcome.shape, isLower]
      simp
    rw [reshape] at covers
    exact ⟨rfl, covers.lt_nextStart⟩
  · intro noUpper
    rw [ends, noUpper]
    rfl
  intro next isUpper
  have reshape : alloc.buffers = (outcome.before ++ outcome.lower.toList ++ [buffer]) ++
      next :: outcome.after := by
    rw [outcome.shape, isUpper]
    simp
  rw [reshape] at covers
  rw [ends, isUpper]
  exact ⟨rfl, covers.lt_nextStart⟩

/-- A page that ends before the next buffer ends before the merged one. -/
theorem ends_before_high
    (wellFormed : WellFormed alloc)
    {index data : Nat}
    (starts : alloc.buffer + index * pageSize < data)
    (inside : data ≤ outcome.high) :
    (∀ address ∈ outcome.after.head?.map alloc.start,
    alloc.buffer + (index + 1) * pageSize ≤ address) ↔
    alloc.buffer + (index + 1) * pageSize ≤ outcome.high := by
  rw [high] at inside ⊢
  revert inside
  cases outcome.after with
  | nil =>
    have sizeAligned := wellFormed.area.sizeAligned
    simp only [head?_nil, map_none, not_mem_none, false_implies, implies_true, true_iff]
    simp only [nextStart, finish, pageSize] at *
    omega
  | cons first rest =>
    simp [nextStart]

theorem le_high
    (ordered : Ordered alloc []) :
    alloc.start buffer + binderAllocBufferSize alloc buffer ≤ outcome.high := by
  have places := outcome.places ordered
  cases isUpper : outcome.upper with
  | none => exact (places.noUpper isUpper).le
  | some next =>
    obtain ⟨starts, below⟩ := places.upper next isUpper
    exact starts ▸ below.le

/-- The buffers after the merged one start behind it. -/
theorem lt_of_mem_after
    {data address : Nat}
    (below : data < outcome.high)
    (isNext : address ∈ outcome.after.head?.map alloc.start) :
    data < address := by
  rw [high] at below
  cases shape : outcome.after with
  | nil => simp [shape] at isNext
  | cons first rest =>
    rw [shape] at isNext below
    have isFirst : alloc.start first = address := by simpa using isNext
    exact isFirst ▸ below

variable (wellFormed : WellFormed alloc)
include wellFormed

/-- The pages between the ends of the buffer. -/
theorem mem_insideIndexes
    (member : buffer ∈ alloc.buffers)
    {index : Nat} :
    index ∈ freeIndexes alloc.buffer (pageAlign (alloc.start buffer)) (pageMask
    (alloc.start buffer + binderAllocBufferSize alloc buffer)) ↔
    alloc.start buffer ≤ alloc.buffer + index * pageSize ∧ alloc.buffer + (index + 1) * pageSize ≤
    alloc.start buffer + binderAllocBufferSize alloc buffer := by
  have aligned := wellFormed.area.aligned
  have fromBase := (wellFormed.ordered.tiles.start_mem member).1
  rw [mem_freeIndexes]
  all_goals
    simp only [pageAlign, pageMask, pageSize] at *
    omega

/-- The page shared with the free buffer after the freed one. -/
theorem mem_upperIndexes
    {index : Nat} :
    index ∈ upperIndexes alloc buffer outcome.upper outcome.after ↔
    alloc.start buffer ≤ alloc.buffer + index * pageSize ∧
    alloc.buffer + index * pageSize < alloc.start buffer + binderAllocBufferSize alloc buffer ∧
    alloc.start buffer + binderAllocBufferSize alloc buffer <
    alloc.buffer + (index + 1) * pageSize ∧
    alloc.buffer + (index + 1) * pageSize ≤ outcome.high := by
  have places := outcome.places wellFormed.ordered
  have member := outcome.member
  have fromBase := (wellFormed.ordered.tiles.start_mem member).1
  unfold upperIndexes
  cases isUpper : outcome.upper with
  | none =>
    have ends := places.noUpper isUpper
    simp only [not_mem_nil, false_iff]
    omega
  | some next =>
    obtain ⟨starts, below⟩ := places.upper next isUpper
    rw [mem_deletedIndexes wellFormed.area.aligned
      wellFormed.area.positive fromBase (starts ▸ places.below)
      (fun address => outcome.lt_of_mem_after below), starts]
    refine and_congr_right fun _ => and_congr_right fun startsBelow => and_congr_right fun _ => ?_
    exact outcome.ends_before_high wellFormed startsBelow (starts ▸ below).le

/-- The page shared with the free buffer before the freed one. -/
theorem mem_lowerIndexes
    {index : Nat} :
    index ∈ lowerIndexes alloc outcome.lower buffer outcome.after ↔ alloc.start outcome.merged ≤
    alloc.buffer + index * pageSize ∧ alloc.buffer + index * pageSize < alloc.start buffer ∧
    alloc.start buffer < alloc.buffer + (index + 1) * pageSize ∧
    alloc.buffer + (index + 1) * pageSize ≤ outcome.high := by
  have places := outcome.places wellFormed.ordered
  have below : alloc.start buffer < outcome.high :=
    places.below.trans_le (outcome.le_high wellFormed.ordered)
  unfold lowerIndexes
  cases isLower : outcome.lower with
  | none =>
    have starts := places.noLower isLower
    simp only [not_mem_nil, false_iff]
    omega
  | some prev =>
    obtain ⟨starts, earlier⟩ := places.lower prev isLower
    rw [mem_deletedIndexes wellFormed.area.aligned
      wellFormed.area.positive (starts ▸ places.fromBase) earlier
      (fun address => outcome.lt_of_mem_after below), starts]
    refine and_congr_right fun _ => and_congr_right fun startsBelow => and_congr_right fun _ => ?_
    exact outcome.ends_before_high wellFormed startsBelow below.le

/-- A free gives up exactly the pages inside the merged buffer. -/
theorem mem_indexes
    {index : Nat} :
    index ∈ outcome.indexes ↔ Overlaps alloc buffer index ∧
    alloc.start outcome.merged ≤ alloc.buffer + index * pageSize ∧
    alloc.buffer + (index + 1) * pageSize ≤ outcome.high := by
  have places := outcome.places wellFormed.ordered
  have upToHigh := outcome.le_high wellFormed.ordered
  have fromMerged : alloc.start outcome.merged ≤ alloc.start buffer := by
    cases isLower : outcome.lower with
    | none => exact (places.noLower isLower).le
    | some prev =>
      obtain ⟨starts, earlier⟩ := places.lower prev isLower
      exact starts ▸ earlier.le
  rw [indexes, mem_append, mem_append, mem_insideIndexes wellFormed outcome.member,
    outcome.mem_upperIndexes wellFormed, outcome.mem_lowerIndexes wellFormed, Overlaps]
  simp only [pageSize] at *
  omega

/-- No page is given up twice. -/
theorem nodup_indexes : outcome.indexes.Nodup := by
  have aligned := wellFormed.area.aligned
  have member := outcome.member
  have fromBase := (wellFormed.ordered.tiles.start_mem member).1
  have places := outcome.places wellFormed.ordered
  rw [indexes, nodup_append, nodup_append]
  refine ⟨⟨?_, ?_, ?_⟩, ?_, ?_⟩
  · refine nodup_freeIndexes ?_
    simp only [pageAlign, pageMask, pageSize] at *
    omega
  · unfold upperIndexes
    split
    · rename_i next isUpper
      refine nodup_deletedIndexes aligned ?_
      rw [(places.upper next isUpper).1]
      omega
    · exact nodup_nil
  · intro index inInside other inUpper
    rw [mem_insideIndexes wellFormed outcome.member] at inInside
    rw [outcome.mem_upperIndexes wellFormed] at inUpper
    rintro rfl
    omega
  · unfold lowerIndexes
    split
    · exact nodup_deletedIndexes aligned fromBase
    · exact nodup_nil
  intro index inEarlier other inLower
  rw [mem_append, mem_insideIndexes wellFormed outcome.member,
    outcome.mem_upperIndexes wellFormed] at inEarlier
  rw [outcome.mem_lowerIndexes wellFormed] at inLower
  rintro rfl
  omega

end

section
variable (outcome : FreeOutcome alloc buffer)

theorem isFree_next
    (ordered : Ordered alloc [])
    {other : BufferPtr}
    (member : other ∈ outcome.before ++ outcome.after) :
    outcome.next.isFree other = alloc.isFree other := by
  rw [BinderAlloc.isFree, outcome.mem_next (outcome.apart ordered member).1]
  rfl

theorem mem_buffers
    {other : BufferPtr}
    (member : other ∈ outcome.before ++ outcome.after) :
    other ∈ alloc.buffers := by
  rw [outcome.shape_stretch]
  simp only [mem_append] at member ⊢
  tauto

theorem eq_merged_or_mem
    {other : BufferPtr}
    (member : other ∈ outcome.next.buffers) :
    other = outcome.merged ∨ other ∈ outcome.before ++ outcome.after := by
  rw [outcome.buffers_next] at member
  simp only [mem_append, mem_cons] at member ⊢
  tauto

/-- The merged buffer is the only one that a free changes. -/
theorem mem_others
    {other : BufferPtr}
    (member : other ∈ outcome.next.buffers)
    (allocated : outcome.next.isFree other = false) :
    other ∈ outcome.before ++ outcome.after := by
  rcases outcome.eq_merged_or_mem member with rfl | inOthers
  · rw [outcome.isFree_merged] at allocated
    cases allocated
  · exact inOthers

theorem used_next
    (ordered : Ordered alloc [])
    (nextOrdered : Ordered outcome.next [])
    (index : Nat) :
    Used outcome.next outcome.next.buffers index ↔
    Used alloc (outcome.before ++ outcome.after) index := by
  have same : ∀ other ∈ outcome.before ++ outcome.after, (Overlaps outcome.next other index ↔
      Overlaps alloc other index) := by
    intro other member
    rw [Overlaps, Overlaps, outcome.size_next ordered nextOrdered member,
      outcome.start_next, outcome.area_next.1]
  constructor
  · rintro ⟨other, inNext, allocated, overlaps⟩
    have member := outcome.mem_others inNext allocated
    rw [outcome.isFree_next ordered member] at allocated
    exact ⟨other, member, allocated, (same other member).mp overlaps⟩
  rintro ⟨other, member, allocated, overlaps⟩
  refine ⟨other, ?_, ?_, (same other member).mpr overlaps⟩
  · rw [outcome.buffers_next]
    simp only [mem_append] at member ⊢
    tauto
  · rw [outcome.isFree_next ordered member]
    exact allocated

theorem pagesMatch
    (wellFormed : WellFormed alloc)
    (pagesMatch : PagesMatch alloc)
    (allocated : alloc.isFree buffer = false)
    (nextOrdered : Ordered outcome.next []) :
    PagesMatch outcome.next := by
  have ordered := wellFormed.ordered
  have member := outcome.member
  have places := outcome.places ordered
  have upToHigh := outcome.le_high ordered
  have around : ∀ index, Overlaps alloc buffer index →
      (Used alloc (outcome.before ++ outcome.after) index ↔
      alloc.buffer + index * pageSize < alloc.start outcome.merged ∨
      outcome.high < alloc.buffer + (index + 1) * pageSize) := by
    rintro index ⟨startsBelow, endsAbove⟩
    have outside :=
      @used_outside alloc outcome.before (outcome.lower.toList ++ buffer :: outcome.upper.toList)
        outcome.after wellFormed.area [] ordered outcome.shape_stretch
        outcome.beforeEnd outcome.afterStart index
    rw [outcome.nextStart_stretch] at outside
    refine outside ?_ (endsAbove.trans_le upToHigh)
    cases isLower : outcome.lower with
    | none => rw [places.noLower isLower]; exact startsBelow
    | some prev =>
      obtain ⟨starts, earlier⟩ := places.lower prev isLower
      omega
  have changed := fun index => @mem_indexes alloc buffer outcome wellFormed index
  obtain ⟨idle, others, warnings⟩ :=
    foldl_freePage (outcome.nodup_indexes wellFormed) (fun index inIndexes =>
      pagesMatch.used index ⟨buffer, member, allocated, ((changed index).mp inIndexes).1⟩)
  refine @PagesMatch.of_changed alloc outcome.next pagesMatch outcome.indexes ?_ ?_ warnings
  · intro index inIndexes
    right
    obtain ⟨overlaps, fromLow, toHigh⟩ := (changed index).mp inIndexes
    refine ⟨?_, idle index inIndexes⟩
    rw [outcome.used_next ordered nextOrdered, around index overlaps]
    omega
  intro index notInIndexes
  refine ⟨others index notInIndexes, ?_⟩
  rw [outcome.used_next ordered nextOrdered]
  constructor
  · rintro ⟨other, inOthers, otherAllocated, overlaps⟩
    refine ⟨other, ?_, otherAllocated, overlaps⟩
    rw [outcome.shape_stretch]
    simp only [mem_append] at inOthers ⊢
    tauto
  rintro ⟨other, inList, otherAllocated, overlaps⟩
  rw [outcome.shape] at inList
  simp only [mem_append, mem_cons, mem_toList] at inList
  rcases inList with (inBefore | isLower) | rfl | isUpper | inAfter
  · exact ⟨other, mem_append_left _ inBefore, otherAllocated, overlaps⟩
  · rw [outcome.lowerFree other isLower] at otherAllocated
    cases otherAllocated
  · rw [around index overlaps]
    by_contra inside
    refine notInIndexes ((changed index).mpr ⟨overlaps, ?_⟩)
    omega
  · rw [outcome.upperFree other isUpper] at otherAllocated
    cases otherAllocated
  · exact ⟨other, mem_append_right _ inAfter, otherAllocated, overlaps⟩

theorem wellFormed
    (before : WellFormed alloc)
    (nextOrdered : Ordered outcome.next []) :
    WellFormed outcome.next := by
  have ordered := before.ordered
  obtain ⟨sameBuffer, sameSize, -⟩ := outcome.area_next
  have chain := before.coalesced
  rw [Coalesced, outcome.shape_stretch, isChain_append, isChain_append] at chain
  have nextChain : ∀ part : List BufferPtr,
      (∀ other ∈ part, other ∈ outcome.before ++ outcome.after) → part.IsChain (fun first second =>
        ¬ (alloc.isFree first = true ∧ alloc.isFree second = true)) → part.IsChain
      fun first second =>
        ¬ (outcome.next.isFree first = true ∧ outcome.next.isFree second = true) := by
    intro part inOthers partChain
    refine partChain.imp_of_mem_imp ?_
    intro first second firstMember secondMember apart
    rw [outcome.isFree_next ordered (inOthers first firstMember),
      outcome.isFree_next ordered (inOthers second secondMember)]
    exact apart
  refine ⟨before.area.congr sameBuffer sameSize, nextOrdered, ?_, ?_, ?_⟩
  · refine coalesced_of_neighbours outcome.buffers_next ?_ ?_ ?_ ?_
    · exact nextChain _ (fun _ => mem_append_left _) chain.1
    · exact nextChain _ (fun _ => mem_append_right _) chain.2.1.2.1
    · intro prev isLast
      rw [outcome.isFree_next ordered (mem_append_left _ (mem_of_getLast? isLast))]
      exact outcome.beforeEnd prev isLast
    · intro later isHead
      rw [outcome.isFree_next ordered (mem_append_right _ (mem_of_mem_head? isHead))]
      exact outcome.afterStart later isHead
  · intro other member allocated
    have inOthers := outcome.mem_others member allocated
    rw [outcome.isFree_next ordered inOthers] at allocated
    rw [outcome.size_next ordered nextOrdered inOthers,
      outcome.mem_next (outcome.apart ordered inOthers).1]
    exact before.sized other (outcome.mem_buffers inOthers) allocated
  intro other member
  have inAlloc : other ∈ alloc.buffers := by
    rcases outcome.eq_merged_or_mem member with rfl | inOthers
    · rw [outcome.shape_stretch, merged]
      cases outcome.lower <;> simp
    · exact outcome.mem_buffers inOthers
  by_cases same : other = buffer
  · subst same
    rw [outcome.mem_next_self]
    exact before.noTransaction other inAlloc
  · rw [outcome.mem_next same]
    exact before.noTransaction other inAlloc

end

end FreeOutcome

theorem storedSize_le_chargedSize
    (buffer : BinderBuffer) :
    (storedSize buffer).toNat ≤ (chargedSize buffer).toNat := by
  unfold chargedSize
  split
  · rename_i smaller
    exact smaller.le
  · exact le_rfl

/-- No free of a buffer runs into a `BUG_ON`. -/
theorem exists_binderAllocFreeBuf
    {alloc : BinderAlloc}
    {buffer : BufferPtr}
    (wellFormed : WellFormed alloc)
    (pagesMatch : PagesMatch alloc)
    (member : buffer ∈ alloc.buffers)
    (allocated : alloc.isFree buffer = false) :
    ∃ outcome :
    FreeOutcome alloc buffer, binderAllocFreeBuf alloc buffer = some outcome.next ∧
    WellFormed outcome.next ∧ PagesMatch outcome.next := by
  have ordered := wellFormed.ordered
  obtain ⟨outcome, merges, nextOrdered⟩ :=
    exists_freeOutcome ordered wellFormed.coalesced member allocated
  refine ⟨outcome, ?_, outcome.wellFormed wellFormed nextOrdered,
    outcome.pagesMatch wellFormed pagesMatch allocated nextOrdered⟩
  obtain ⟨fromBase, belowEnd⟩ := ordered.tiles.start_mem member
  have sized := wellFormed.sized buffer member allocated
  have stored := storedSize_le_chargedSize (alloc.mem buffer)
  have notFree : (alloc.mem buffer).free = false := allocated
  have noTransaction := wellFormed.noTransaction buffer member
  unfold binderAllocFreeBuf
  rw [if_neg]
  · exact merges
  rintro (isFree | tooSmall | hasTransaction | below | above)
  · rw [notFree] at isFree
    cases isFree
  · omega
  · rw [noTransaction] at hasTransaction
    cases hasTransaction
  · exact Nat.not_lt.mpr fromBase below
  · exact Nat.lt_asymm belowEnd above

end EchoKernel.Binder
