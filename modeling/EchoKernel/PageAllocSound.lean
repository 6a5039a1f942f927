import EchoKernel.LabelledRun
import EchoKernel.PageAlloc
import Mathlib.Data.List.Nodup
import Mathlib.Data.List.Perm.Basic

namespace EchoKernel.PageAlloc

open Function List Option Prod

/-!
# The free lists of a zone over all calls

A block being freed or split counts as allocated. Pages are taken from the
lists or put on them in only two ways, and both keep the invariant; freeing
takes the buddies and puts their union, allocating takes a block and puts the
halves that are left.
-/

open BuddyBlocks LabelledRun

variable {machine : Machine} {zone after : Zone} {page order : Nat} {allocated : Set Nat}

variable {other otherOrder rounds : Nat}

section

/-- The blocks of an order on all lists. -/
def freePages (zone : Zone) (order : Nat) : List Nat := migratetypes.flatMap (zone.freeList order)

def Machine.pages (machine : Machine) : Set Nat := {page | machine.pageZoneId page = machine.zoneId}

/-- Lists, counters, marks and pages of a zone agree. -/
structure Sound (machine : Machine) (zone : Zone) (allocated : Set Nat) : Prop where
  nodup : ∀ order, (freePages zone order).Nodup
  counted : ∀ order, zone.nrFree order = (freePages zone order).length
  below : ∀ order, ∀ page ∈ freePages zone order, order < machine.maxOrder
  aligned : ∀ order, ∀ page ∈ freePages zone order, Aligned page order
  inZone : ∀ order, ∀ page ∈ freePages zone order, block page order ⊆ machine.pages
  marked : ∀ page ∈ machine.pages, ∀ order,
      zone.pageOrder page = some order ↔ page ∈ freePages zone order
  disjoint : ∀ order order' page page', page ∈ freePages zone order →
      page' ∈ freePages zone order' → (page, order) ≠ (page', order') →
      Disjoint (block page order) (block page' order')
  allocatedInZone : allocated ⊆ machine.pages
  partition : ∀ number ∈ machine.pages, number ∈ allocated ↔
        ¬ ∃ order, ∃ page ∈ freePages zone order, number ∈ block page order
  coalesced : ∀ order, ∀ page ∈ freePages zone order, order + 1 < machine.maxOrder →
        buddy page order ∉ freePages zone order

variable (sound : Sound machine zone allocated)
include sound

theorem Sound.page_mem (free : page ∈ freePages zone order) : page ∈ machine.pages :=
  sound.inZone order page free base_mem_block

theorem Sound.not_mem_of_allocated
    (isAllocated : page ∈ allocated) :
    page ∉ freePages zone order := by
  intro free
  exact (sound.partition page (sound.page_mem free)).mp isAllocated
    ⟨order, page, free, base_mem_block⟩

theorem Sound.disjoint_allocated
    (isAllocated : block page order ⊆ allocated)
    (free : other ∈ freePages zone otherOrder) :
    Disjoint (block page order) (block other otherOrder) := by
  rw [Set.disjoint_left]
  intro number member inside
  have held := isAllocated member
  exact (sound.partition number (sound.allocatedInZone held)).mp held
    ⟨otherOrder, other, free, inside⟩

/-- Whether a page is a free buddy is read from its mark. -/
theorem Sound.pageIsBuddy_iff
    (inZone : page ∈ machine.pages) :
    pageIsBuddy machine zone page other order = true ↔ other ∈ freePages zone order := by
  rw [pageIsBuddy]
  split
  · rename_i isMarked
    rw [decide_eq_true_eq, show machine.pageZoneId page = machine.zoneId from inZone]
    constructor
    · intro same
      exact (sound.marked other same.symm order).mp isMarked
    · intro free
      exact (sound.page_mem free).symm
  · rename_i unmarked
    refine iff_of_false (by simp) fun free => unmarked ?_
    exact (sound.marked other (sound.page_mem free) order).mpr free

end

/-- A page is taken from its list. -/
def takePage (zone : Zone) (page order : Nat) : Zone :=
  addNrFree (rmvPageOrder (listDel zone page) page) order (-1)

theorem freePages_listDel
    (nodup : ∀ order, (freePages zone order).Nodup)
    (order : Nat) :
    freePages (listDel zone page) order = (freePages zone order).erase page := by
  have parts (migratetype : Migratetype) (member : migratetype ∈ migratetypes) :
      (zone.freeList order migratetype).erase page =
      (zone.freeList order migratetype).filter (· != page) := by
    refine List.Nodup.erase_eq_filter ?_ page
    exact (nodup_flatMap.mp (nodup order)).1 migratetype member
  rw [List.Nodup.erase_eq_filter (nodup order), freePages, freePages, filter_flatMap, flatMap_def]
  exact congrArg _ (map_congr_left parts)

section
variable (sound : Sound machine zone allocated) (free : page ∈ freePages zone order)
include sound free

/-- Who is free after a page has been taken. -/
theorem Sound.mem_takePage :
    other ∈ freePages (takePage zone page order) otherOrder ↔
    other ∈ freePages zone otherOrder ∧ (other, otherOrder) ≠ (page, order) := by
  have lists : freePages (takePage zone page order) otherOrder =
    (freePages zone otherOrder).erase page := freePages_listDel sound.nodup otherOrder
  rw [lists, (sound.nodup otherOrder).mem_erase_iff, and_comm]
  refine and_congr_right fun otherFree => not_congr ?_
  constructor
  · rintro rfl
    have inZone := sound.page_mem free
    have first := (sound.marked other inZone order).mpr free
    have second := (sound.marked other inZone otherOrder).mpr otherFree
    rw [first] at second
    rw [some.inj second]
  · rintro same
    exact (Prod.mk.injEq _ _ _ _ ▸ same).1

/-- Taking a block makes its pages allocated. -/
theorem Sound.take : Sound machine (takePage zone page order) (allocated ∪ block page order) := by
  have lists (otherOrder : Nat) : freePages (takePage zone page order) otherOrder =
    (freePages zone otherOrder).erase page := freePages_listDel sound.nodup otherOrder
  have mem {other otherOrder : Nat} := @Sound.mem_takePage _ _ _ _ _ other otherOrder sound free
  refine ⟨?_, ?_, ?_, ?_, ?_, ?_, ?_, ?_, ?_, ?_⟩
  · intro otherOrder
    rw [lists]
    exact (sound.nodup otherOrder).erase page
  · intro otherOrder
    have count := sound.counted otherOrder
    rw [lists]
    change update zone.nrFree order (zone.nrFree order + -1) otherOrder = _
    by_cases same : otherOrder = order
    · subst same
      have positive := length_pos_of_mem free
      rw [update_self, length_erase_of_mem free]
      omega
    have absent : page ∉ freePages zone otherOrder := by
      intro otherFree
      have inZone := sound.page_mem free
      have first := (sound.marked page inZone order).mpr free
      have second := (sound.marked page inZone otherOrder).mpr otherFree
      rw [first] at second
      exact same (some.inj second).symm
    rw [update_of_ne same, erase_of_not_mem absent, count]
  · exact fun otherOrder other member => sound.below otherOrder other (mem.mp member).1
  · exact fun otherOrder other member => sound.aligned otherOrder other (mem.mp member).1
  · exact fun otherOrder other member => sound.inZone otherOrder other (mem.mp member).1
  · intro other inZone otherOrder
    rw [mem]
    change update zone.pageOrder page none other = some otherOrder ↔ _
    by_cases same : other = page
    · subst same
      refine iff_of_false (by simp) ?_
      rintro ⟨otherFree, differ⟩
      have first := (sound.marked other inZone order).mpr free
      have second := (sound.marked other inZone otherOrder).mpr otherFree
      rw [first] at second
      exact differ (by rw [some.inj second])
    · rw [update_of_ne same, sound.marked other inZone]
      refine ⟨fun otherFree => ⟨otherFree, fun equal => ?_⟩, And.left⟩
      exact same (congrArg fst equal)
  · exact fun first second one two oneFree twoFree =>
      sound.disjoint first second one two (mem.mp oneFree).1 (mem.mp twoFree).1
  · exact Set.union_subset sound.allocatedInZone (sound.inZone order page free)
  · intro number inZone
    rw [Set.mem_union, sound.partition number inZone]
    constructor
    · rintro (missing | inside) ⟨otherOrder, other, member, holds⟩
      · exact missing ⟨otherOrder, other, (mem.mp member).1, holds⟩
      · obtain ⟨otherFree, differ⟩ := mem.mp member
        exact Set.disjoint_left.mp (sound.disjoint _ _ _ _ otherFree free differ) holds inside
    intro missing
    by_cases inside : number ∈ block page order
    · exact .inr inside
    refine .inl ?_
    rintro ⟨otherOrder, other, member, holds⟩
    refine missing ⟨otherOrder, other, mem.mpr ⟨member, ?_⟩, holds⟩
    intro equal
    cases equal
    exact inside holds
  · intro otherOrder other member room buddyFree
    exact sound.coalesced otherOrder other (mem.mp member).1 room (mem.mp buddyFree).1

end

variable {migratetype : Migratetype}

section
variable {longer : List Nat}

/-- A block was put on one of its order's lists. -/
structure Put (zone : Zone) (page order : Nat) (after : Zone) : Prop where
  marks : after.pageOrder = update zone.pageOrder page (some order)
  counts : after.nrFree = update zone.nrFree order (zone.nrFree order + 1)
  others : ∀ other, other ≠ order → freePages after other = freePages zone other
  listed : (freePages after order).Perm (page :: freePages zone order)

/-- A list of one type is extended by a page. -/
theorem flatMap_update_perm
    {types : List Migratetype}
    {lists : Migratetype → List Nat}
    (nodup : types.Nodup)
    (member : migratetype ∈ types)
    (extended : longer.Perm (page :: lists migratetype)) :
    (types.flatMap (update lists migratetype longer)).Perm (page :: types.flatMap lists) := by
  induction types with
  | nil => cases member
  | cons first rest inductionHypothesis =>
    obtain ⟨fresh, restNodup⟩ := nodup_cons.mp nodup
    rw [flatMap_cons, flatMap_cons]
    by_cases same : first = migratetype
    · subst same
      have untouched : rest.flatMap (update lists first longer) = rest.flatMap lists := by
        refine congrArg _ (map_congr_left fun other isRest => ?_)
        refine update_of_ne ?_ _ _
        rintro rfl
        exact fresh isRest
      rw [update_self, untouched]
      exact extended.append_right _
    · have isRest : migratetype ∈ rest :=
        (mem_cons.mp member).resolve_left fun equal => same equal.symm
      rw [update_of_ne same]
      exact ((inductionHypothesis restNodup isRest).append_left _).trans perm_middle

theorem freePages_setList
    (extended : longer.Perm (page :: zone.freeList order migratetype)) :
    (freePages (setList zone order migratetype longer) order).Perm
    (page :: freePages zone order) := by
  rw [freePages, setList]
  simp only [update_self]
  exact flatMap_update_perm (by decide) (by cases migratetype <;> decide) extended

theorem freePages_setList_of_ne
    (differ : other ≠ order) :
    freePages (setList zone order migratetype longer) other = freePages zone other := by
  rw [freePages, setList]
  simp only [update_of_ne differ]
  rfl

theorem mem_put
    (put : Put zone page order after) :
    other ∈ freePages after otherOrder ↔ (other, otherOrder) = (page, order) ∨
    other ∈ freePages zone otherOrder := by
  by_cases same : otherOrder = order
  · subst same
    rw [put.listed.mem_iff, Prod.mk.injEq]
    simp
  · rw [put.others otherOrder same]
    simp [same]

/-- Putting a block on the lists frees its pages. -/
theorem Sound.put
    (sound : Sound machine zone allocated)
    (isPut : Put zone page order after)
    (below : order < machine.maxOrder)
    (aligned : Aligned page order)
    (isAllocated : block page order ⊆ allocated)
    (alone : order + 1 < machine.maxOrder → buddy page order ∉ freePages zone order) :
    Sound machine after (allocated \ block page order) := by
  have mem {other otherOrder : Nat} := @mem_put zone after page order other otherOrder isPut
  have fresh {otherOrder : Nat} : page ∉ freePages zone otherOrder :=
    sound.not_mem_of_allocated (isAllocated base_mem_block)
  refine ⟨?_, ?_, ?_, ?_, ?_, ?_, ?_, ?_, ?_, ?_⟩
  · intro otherOrder
    by_cases same : otherOrder = order
    · subst same
      rw [isPut.listed.nodup_iff]
      exact nodup_cons.mpr ⟨fresh, sound.nodup otherOrder⟩
    · rw [isPut.others otherOrder same]
      exact sound.nodup otherOrder
  · intro otherOrder
    have count := sound.counted otherOrder
    rw [isPut.counts]
    by_cases same : otherOrder = order
    · subst same
      rw [update_self, isPut.listed.length_eq, length_cons]
      omega
    · rw [update_of_ne same, isPut.others otherOrder same, count]
  · intro otherOrder other member
    rcases mem.mp member with equal | old
    · cases equal
      exact below
    · exact sound.below otherOrder other old
  · intro otherOrder other member
    rcases mem.mp member with equal | old
    · cases equal
      exact aligned
    · exact sound.aligned otherOrder other old
  · intro otherOrder other member
    rcases mem.mp member with equal | old
    · cases equal
      exact Set.Subset.trans isAllocated sound.allocatedInZone
    · exact sound.inZone otherOrder other old
  · intro other inZone otherOrder
    rw [mem, isPut.marks]
    by_cases same : other = page
    · subst same
      rw [update_self, some.injEq, Prod.mk.injEq]
      refine ⟨fun equal => .inl ⟨rfl, equal.symm⟩, ?_⟩
      rintro (⟨_, equal⟩ | old)
      · exact equal.symm
      · exact absurd old fresh
    · rw [update_of_ne same, sound.marked other inZone]
      refine ⟨.inr, ?_⟩
      rintro (equal | old)
      · exact absurd (congrArg fst equal) same
      · exact old
  · intro first second one two oneFree twoFree differ
    rcases mem.mp oneFree with oneNew | oneOld <;> rcases mem.mp twoFree with twoNew | twoOld
    · exact absurd (oneNew.trans twoNew.symm) differ
    · cases oneNew
      exact sound.disjoint_allocated isAllocated twoOld
    · cases twoNew
      exact (sound.disjoint_allocated isAllocated oneOld).symm
    · exact sound.disjoint first second one two oneOld twoOld differ
  · exact Set.Subset.trans Set.diff_subset sound.allocatedInZone
  · intro number inZone
    rw [Set.mem_diff, sound.partition number inZone]
    constructor
    · rintro ⟨missing, outside⟩ ⟨otherOrder, other, member, holds⟩
      rcases mem.mp member with equal | old
      · cases equal
        exact outside holds
      · exact missing ⟨otherOrder, other, old, holds⟩
    · intro missing
      refine ⟨?_, fun inside =>
        missing ⟨order, page, mem.mpr (.inl rfl), inside⟩⟩
      rintro ⟨otherOrder, other, old, holds⟩
      exact missing ⟨otherOrder, other, mem.mpr (.inr old), holds⟩
  · intro otherOrder other member room buddyMember
    rcases mem.mp member with equal | old <;> rcases mem.mp buddyMember with buddyEqual | buddyOld
    · cases equal
      exact aligned.buddy_ne (congrArg fst buddyEqual)
    · cases equal
      exact alone room buddyOld
    · have isPage := congrArg fst buddyEqual
      have isOrder := congrArg snd buddyEqual
      simp only at isPage isOrder
      subst isOrder
      refine alone room ?_
      rw [← isPage, buddy_buddy]
      exact old
    · exact sound.coalesced otherOrder other old room buddyOld

end

variable {held : Set Nat}

section
variable {merge : Merge}

/-- The block being freed counts as allocated, the others are held. -/
structure Merging (machine : Machine) (held : Set Nat) (merge : Merge) : Prop where
  sound : Sound machine merge.zone (held ∪ block merge.page merge.order)
  apart : Disjoint held (block merge.page merge.order)
  aligned : Aligned merge.page merge.order
  below : merge.order < machine.maxOrder
  index : merge.pageIdx = merge.page % 2 ^ machine.maxOrder

section
variable (merging : Merging machine held merge)
include merging

theorem Merging.buddy_eq :
    merge.page + findBuddyIndex merge.pageIdx merge.order - merge.pageIdx =
    buddy merge.page merge.order := by
  rw [merging.index]
  exact add_buddy_index merging.aligned merging.below

theorem Merging.pageIsBuddy_iff :
    pageIsBuddy machine merge.zone merge.page
    (merge.page + findBuddyIndex merge.pageIdx merge.order - merge.pageIdx) merge.order = true ↔
    buddy merge.page merge.order ∈ freePages merge.zone merge.order := by
  rw [merging.buddy_eq]
  exact merging.sound.pageIsBuddy_iff (merging.sound.allocatedInZone (.inr base_mem_block))

/-- The block is joined with its free buddy. -/
theorem Merging.mergeBuddy
    (room : merge.order + 1 < machine.maxOrder)
    (free : buddy merge.page merge.order ∈ freePages merge.zone merge.order) :
    Merging machine held (mergeBuddy merge) := by
  have places := add_parent_index merging.aligned merging.below
  rw [← merging.index] at places
  have isPage : (PageAlloc.mergeBuddy merge).page = parent merge.page merge.order := places.1
  have isOrder : (PageAlloc.mergeBuddy merge).order = merge.order + 1 := rfl
  have isZone : (PageAlloc.mergeBuddy merge).zone =
      takePage merge.zone (buddy merge.page merge.order) merge.order := by
    have isBuddy := merging.buddy_eq
    rw [← isBuddy]
    rfl
  have blocks := merging.aligned.block_parent
  refine ⟨?_, ?_, ?_, ?_, ?_⟩
  · rw [isZone, isPage, isOrder, blocks, ← Set.union_assoc]
    exact merging.sound.take free
  · rw [isPage, isOrder, blocks, Set.disjoint_union_right]
    refine ⟨merging.apart, ?_⟩
    rw [Set.disjoint_left]
    intro number isHeld inside
    exact (merging.sound.partition number
      (merging.sound.allocatedInZone (.inl isHeld))).mp (.inl isHeld) ⟨_, _, free, inside⟩
  · rw [isPage]
    exact merging.aligned.parent
  · exact room
  · rw [isPage]
    exact places.2

/-- The loop ends at its limit or at a buddy not free. -/
theorem Merging.mergeWhile
    {limit rounds : Nat}
    {next : Merge}
    {done : Bool}
    (isRounds : rounds = limit - 1 - merge.order)
    (inside : limit ≤ machine.maxOrder)
    (result : PageAlloc.mergeWhile machine rounds merge = (next, done)) :
    Merging machine held next ∧
    (done = true → buddy next.page next.order ∉ freePages next.zone next.order) ∧
    (done = false → limit - 1 ≤ next.order) := by
  induction rounds generalizing merge with
  | zero =>
    cases result
    refine ⟨merging, nofun, fun _ => ?_⟩
    omega
  | succ rounds inductionHypothesis =>
    rw [PageAlloc.mergeWhile] at result
    by_cases free : buddy merge.page merge.order ∈ freePages merge.zone merge.order
    · rw [if_pos (merging.pageIsBuddy_iff.mpr free)] at result
      refine inductionHypothesis (merging.mergeBuddy (by omega) free) ?_ result
      change rounds = limit - 1 - (merge.order + 1)
      omega
    · rw [if_neg fun isBuddy => free (merging.pageIsBuddy_iff.mp isBuddy)] at result
      cases result
      exact ⟨{ merging with }, fun _ => free, nofun⟩

/-- Merging ends with a block whose buddy is not free. -/
theorem Merging.mergeStages
    {limit stages : Nat}
    {next : Merge}
    (isStages : stages + limit = machine.maxOrder)
    (result : PageAlloc.mergeStages machine stages limit merge = next) :
    Merging machine held next ∧ (next.order + 1 < machine.maxOrder →
    buddy next.page next.order ∉ freePages next.zone next.order) := by
  induction stages generalizing limit merge with
  | zero =>
    rcases ran : PageAlloc.mergeWhile machine (limit - 1 - merge.order) merge with ⟨last, done⟩
    obtain ⟨merged, stopped, reached⟩ := merging.mergeWhile rfl (by omega) ran
    rw [PageAlloc.mergeStages, ran] at result
    obtain rfl : last = next := by simpa using result
    cases done with
    | true => exact ⟨merged, fun _ => stopped rfl⟩
    | false =>
      have high := reached rfl
      exact ⟨merged, fun room => by omega⟩
  | succ stages inductionHypothesis =>
    rcases ran : PageAlloc.mergeWhile machine (limit - 1 - merge.order) merge with ⟨last, done⟩
    obtain ⟨merged, stopped, -⟩ := merging.mergeWhile rfl (by omega) ran
    rw [PageAlloc.mergeStages, ran] at result
    cases done with
    | true =>
      cases result
      exact ⟨merged, fun _ => stopped rfl⟩
    | false => exact inductionHypothesis merged (by omega) result

end

theorem put_doneMerging
    (machine : Machine)
    (merge : Merge)
    (migratetype : Migratetype) :
    Put merge.zone merge.page merge.order (doneMerging machine merge migratetype) := by
  rw [doneMerging]
  split
  · refine ⟨rfl, rfl, fun other differ => freePages_setList_of_ne differ, ?_⟩
    exact freePages_setList (perm_append_singleton _ _)
  · refine ⟨rfl, rfl, fun other differ => freePages_setList_of_ne differ, ?_⟩
    exact freePages_setList (List.Perm.refl _)

/-- `__free_one_page` frees an allocated block. -/
theorem Sound.freeOnePage
    {allocated : Set Nat}
    {pfn order : Nat}
    (sound : Sound machine zone allocated)
    (below : order < machine.maxOrder)
    (aligned : Aligned pfn order)
    (isAllocated : block pfn order ⊆ allocated)
    (migratetype : Migratetype) :
    Sound machine (freeOnePage machine zone pfn order migratetype)
    (allocated \ block pfn order) := by
  have start : Merging machine (allocated \ block pfn order)
      ⟨zone, pfn, pfn % 2 ^ machine.maxOrder, 0, order⟩ := by
    refine ⟨?_, Set.disjoint_sdiff_left, aligned, below, rfl⟩
    rw [Set.sdiff_union_of_subset isAllocated]
    exact sound
  obtain ⟨merged, alone⟩ := start.mergeStages
    (Nat.sub_add_cancel (Nat.min_le_left machine.maxOrder (machine.pageblockOrder + 1))) rfl
  have done := merged.sound.put (put_doneMerging machine _ migratetype) merged.below merged.aligned
    Set.subset_union_right alone
  rw [Set.union_sdiff_cancel_right (Set.disjoint_iff.mp merged.apart)] at done
  exact done

end

/-- `expand` keeps the lower part of the block and frees the rest. -/
theorem sound_expand
    {high : Nat}
    (sound : Sound machine zone (held ∪ block page high))
    (apart : Disjoint held (block page high))
    (aligned : Aligned page high)
    (below : high < machine.maxOrder)
    (isRounds : rounds = high - order)
    (ordered : order ≤ high) :
    Sound machine (expand page migratetype rounds high zone) (held ∪ block page order) := by
  induction rounds generalizing high zone with
  | zero =>
    obtain rfl : order = high := by omega
    exact sound
  | succ rounds inductionHypothesis =>
    obtain ⟨low, rfl⟩ := Nat.exists_eq_add_of_le' (show 1 ≤ high by omega)
    obtain ⟨lowAligned, isBuddy⟩ := aligned.upper
    have halves : block page (low + 1) = block page low ∪ block (page + 2 ^ low) low := by
      ext number
      rw [Set.mem_union, mem_block, mem_block, mem_block]
      omega
    have buddyAligned : Aligned (page + 2 ^ low) low := by
      rw [← isBuddy]
      exact lowAligned.buddy
    have backwards : buddy (page + 2 ^ low) low = page := by rw [← isBuddy, buddy_buddy]
    have isPut : Put zone (page + 2 ^ low) low (setPageOrder
        (addNrFree (listAdd zone (page + 2 ^ low) low migratetype) low 1)
        (page + 2 ^ low) low) := by
      refine ⟨rfl, rfl, fun other differ => freePages_setList_of_ne differ, ?_⟩
      exact freePages_setList (List.Perm.refl _)
    rw [halves, Set.disjoint_union_right] at apart
    have freed := sound.put isPut (by omega) buddyAligned (by
        rw [halves]
        exact fun number inside => .inr (.inr inside))
      (fun _ => by
        rw [backwards]
        exact sound.not_mem_of_allocated (.inr base_mem_block))
    have lower : Disjoint (block page low) (block (page + 2 ^ low) low) := by
      rw [Set.disjoint_left, ← isBuddy]
      exact fun number member => lowAligned.not_mem_buddy member
    rw [halves, ← Set.union_assoc, Set.union_sdiff_cancel_right
      (Set.disjoint_iff.mp (Set.disjoint_union_left.mpr ⟨apart.2, lower⟩))] at freed
    exact inductionHypothesis freed apart.1 lowAligned (by omega) (by omega) (by omega)

/-- A block from the lists, cut to the order asked for. -/
theorem Sound.rmqueueFrom
    {current : Nat}
    {after : Zone}
    (sound : Sound machine zone allocated)
    (ordered : order ≤ current)
    (found : rmqueueFrom order migratetype rounds current zone = some (after, page)) :
    Sound machine after (allocated ∪ block page order) := by
  induction rounds generalizing current with
  | zero => cases found
  | succ rounds inductionHypothesis =>
    rw [PageAlloc.rmqueueFrom] at found
    cases isList : zone.freeList current migratetype with
    | nil =>
      rw [isList] at found
      exact inductionHypothesis (by omega) found
    | cons first others =>
      rw [isList] at found
      cases found
      have free : page ∈ freePages zone current := by
        refine mem_flatMap.mpr ⟨migratetype, ?_, ?_⟩
        · cases migratetype <;> decide
        · rw [isList]
          exact mem_cons_self
      refine sound_expand (sound.take free) ?_
        (sound.aligned current page free) (sound.below current page free) rfl ordered
      rw [Set.disjoint_left]
      intro number isAllocated inside
      exact (sound.partition number (sound.allocatedInZone isAllocated)).mp isAllocated
        ⟨_, _, free, inside⟩

theorem Sound.rmqueueSmallest
    {after : Zone}
    (sound : Sound machine zone allocated)
    (found : rmqueueSmallest machine zone order migratetype = some (after, page)) :
    Sound machine after (allocated ∪ block page order) :=
  Sound.rmqueueFrom sound le_rfl found

inductive Call where
  | free (pfn order : Nat) (migratetype : Migratetype)
  | rmqueue (order : Nat) (migratetype : Migratetype)
  deriving Repr, DecidableEq

/-- The zone, and the pages that are allocated. -/
structure State where
  zone : Zone
  allocated : Set Nat

/-- A call; only allocated blocks are freed. -/
inductive Step (machine : Machine) : State → Call → State → Prop
  | free {state : State} {pfn order : Nat} (migratetype : Migratetype)
      (below : order < machine.maxOrder) (aligned : Aligned pfn order)
      (isAllocated : block pfn order ⊆ state.allocated) :
      Step machine state (.free pfn order migratetype)
        ⟨freeOnePage machine state.zone pfn order migratetype, state.allocated \ block pfn order⟩
  | rmqueue {state : State} {order page : Nat} {migratetype : Migratetype} {after : Zone} (found :
        rmqueueSmallest machine state.zone order migratetype = some (after, page)) :
      Step machine state (.rmqueue order migratetype) ⟨after, state.allocated ∪ block page order⟩
  | empty {state : State} {order : Nat} {migratetype : Migratetype} (missing :
        rmqueueSmallest machine state.zone order migratetype = none) :
      Step machine state (.rmqueue order migratetype) state

/-- A zone before any of its pages has been freed. -/
theorem sound_fresh
    {pageOrder : Nat → Option Nat}
    (unmarked : ∀ page ∈ machine.pages, pageOrder page = none) :
    Sound machine ⟨fun _ _ => [], fun _ => 0, pageOrder⟩ machine.pages := by
  have none (order : Nat) : freePages ⟨fun _ _ => [], fun _ => 0, pageOrder⟩ order = [] := rfl
  refine ⟨?_, ?_, ?_, ?_, ?_, ?_, ?_, Set.Subset.refl _, ?_, ?_⟩
  · exact fun order => nodup_nil
  · exact fun order => rfl
  · exact fun order page member => by cases member
  · exact fun order page member => by cases member
  · exact fun order page member => by cases member
  · intro page inZone order
    rw [none]
    rw [show (⟨fun _ _ => [], fun _ => 0, pageOrder⟩ : Zone).pageOrder page =
      pageOrder page from rfl, unmarked page inZone]
    simp
  · exact fun _ _ _ _ member => by cases member
  · intro number inZone
    refine iff_of_true inZone ?_
    rintro ⟨order, page, member, _⟩
    cases member
  · exact fun order page member => by cases member

/-- The free lists agree with the pages after all calls. -/
theorem sound_of_run
    {calls : List Call}
    {initial final : State}
    (start : Sound machine initial.zone initial.allocated)
    (run : Run (Step machine) initial calls final) :
    Sound machine final.zone final.allocated := by
  refine @Run.always _ _ _ _ _ _
    (fun state => Sound machine state.zone state.allocated) start ?_ run
  intro state call next sound taken
  cases taken with
  | free migratetype below aligned isAllocated =>
    exact sound.freeOnePage below aligned isAllocated migratetype
  | rmqueue found => exact sound.rmqueueSmallest found
  | empty missing => exact sound

/-- A machine with one zone of all pages. -/
def oneZone : Machine where
  maxOrder := 11
  pageblockOrder := 10
  pageZoneId _ := 0
  zoneId := 0
  movableCma := false
  orderPositive := by decide

/-- Four pages are freed and one of them is allocated. -/
theorem sound_of_run_split :
    ∃ final, Run (Step oneZone)
    ⟨⟨fun _ _ => [], fun _ => 0, fun _ => none⟩, oneZone.pages⟩
    [.free 4 2 .movable, .rmqueue 0 .movable] final ∧ Sound oneZone final.zone final.allocated := by
  have allPages : block 4 2 ⊆ oneZone.pages := fun _ _ => rfl
  have run : Run (Step oneZone) ⟨⟨fun _ _ => [], fun _ => 0, fun _ => none⟩, oneZone.pages⟩
      ([] ++ [.free 4 2 .movable] ++ [.rmqueue 0 .movable]) _ :=
    .after (.after .start (.free .movable (by decide) (by decide : 2 ^ 2 ∣ 4) allPages))
      (.rmqueue rfl)
  exact ⟨_, run, sound_of_run (sound_fresh fun _ _ => rfl) run⟩

end EchoKernel.PageAlloc
