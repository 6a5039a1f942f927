import EchoKernel.BuddyBlocks

namespace EchoKernel.PageAlloc

/-!
# The buddy allocator

`__free_one_page`, `expand` and `__rmqueue_smallest` of `page_alloc.c` on the
free lists of a zone without guard pages and isolated pageblocks. Pages are
frame numbers.
-/

inductive Migratetype where
  | unmovable
  | movable
  | reclaimable
  | highatomic
  | cma
  | isolate
  deriving Repr, DecidableEq

/-- The lists of a free area, `MIGRATE_TYPES` of them. -/
def migratetypes : List Migratetype :=
  [.unmovable, .movable, .reclaimable, .highatomic, .cma, .isolate]

/-- What the allocator knows of machine and zone. -/
structure Machine where
  /-- `MAX_ORDER`. -/
  maxOrder : Nat
  /-- `pageblock_order`. -/
  pageblockOrder : Nat
  /-- `page_zone_id` of a page. -/
  pageZoneId : Nat → Nat
  /-- The identifier of the pages of the zone. -/
  zoneId : Nat
  /-- `IS_ZONE_MOVABLE_CMA_ZONE`. -/
  movableCma : Bool
  orderPositive : 0 < maxOrder

/-- The zone's free lists, and the pages with the buddy mark and their order. -/
structure Zone where
  freeList : Nat → Migratetype → List Nat
  nrFree : Nat → Int
  pageOrder : Nat → Option Nat

section
variable (zone : Zone) (page order : Nat)

/-- `set_page_order`. -/
def setPageOrder : Zone :=
  { zone with pageOrder := Function.update zone.pageOrder page (some order) }

/-- `rmv_page_order`. -/
def rmvPageOrder (page : Nat) : Zone :=
  { zone with pageOrder := Function.update zone.pageOrder page none }

/-- `list_del` of a page, which is on one list at most. -/
def listDel (page : Nat) : Zone :=
  { zone with freeList := fun order migratetype => (zone.freeList order migratetype).erase page }

/-- One list of the zone is replaced. -/
def setList (order : Nat) (migratetype : Migratetype) (pages : List Nat) : Zone :=
  { zone with
    freeList :=
      Function.update zone.freeList order
        (Function.update (zone.freeList order) migratetype pages) }

/-- `list_add`. -/
def listAdd (migratetype : Migratetype) : Zone :=
  setList zone order migratetype (page :: zone.freeList order migratetype)

/-- `list_add_tail`. -/
def listAddTail (migratetype : Migratetype) : Zone :=
  setList zone order migratetype (zone.freeList order migratetype ++ [page])

def addNrFree (order : Nat) (change : Int) : Zone :=
  { zone with nrFree := Function.update zone.nrFree order (zone.nrFree order + change) }

end

section
variable (machine : Machine)

/-- `__find_buddy_index`. -/
def findBuddyIndex (pageIdx order : Nat) : Nat := pageIdx ^^^ 2 ^ order

/-- `page_is_buddy`, without guard pages. -/
def pageIsBuddy (zone : Zone) (page buddy order : Nat) : Bool :=
  if zone.pageOrder buddy = some order then
    decide (machine.pageZoneId page = machine.pageZoneId buddy)
  else false

/-- The variables of `__free_one_page`. -/
structure Merge where
  zone : Zone
  page : Nat
  pageIdx : Nat
  buddyIdx : Nat
  order : Nat

/-- The buddy leaves its list and joins the page. -/
def mergeBuddy (merge : Merge) : Merge :=
  let buddyIdx := findBuddyIndex merge.pageIdx merge.order
  let buddy := merge.page + buddyIdx - merge.pageIdx
  let combinedIdx := buddyIdx &&& merge.pageIdx
  { zone := rmvPageOrder (addNrFree (listDel merge.zone buddy) merge.order (-1)) buddy
    page := merge.page + combinedIdx - merge.pageIdx
    pageIdx := combinedIdx
    buddyIdx := buddyIdx
    order := merge.order + 1 }

/--
The loop of `__free_one_page` up to a limit of the order, which gives the
rounds. True for a jump to `done_merging`.
-/
def mergeWhile : Nat → Merge → Merge × Bool
  | 0, merge => (merge, false)
  | rounds + 1, merge =>
    let buddyIdx := findBuddyIndex merge.pageIdx merge.order
    let buddy := merge.page + buddyIdx - merge.pageIdx
    if pageIsBuddy machine merge.zone merge.page buddy merge.order then
      mergeWhile rounds (mergeBuddy merge)
    else ({ merge with buddyIdx := buddyIdx }, true)

/-- The stages of `continue_merging`, with limits from `max_order` to `MAX_ORDER`. -/
def mergeStages : Nat → Nat → Merge → Merge
  | stages, limit, merge =>
    let (merge, done) := mergeWhile machine (limit - 1 - merge.order) merge
    if done then merge
    else
      match stages with
      | 0 => merge
      | stages + 1 => mergeStages stages (limit + 1) merge

/-- From `done_merging` on. -/
def doneMerging (merge : Merge) (migratetype : Migratetype) : Zone :=
  let zone := setPageOrder merge.zone merge.page merge.order
  let combinedIdx := merge.buddyIdx &&& merge.pageIdx
  let higherPage := merge.page + combinedIdx - merge.pageIdx
  let buddyIdx := findBuddyIndex combinedIdx (merge.order + 1)
  let higherBuddy := higherPage + buddyIdx - combinedIdx
  let zone :=
    if merge.order < machine.maxOrder - 2 ∧
        pageIsBuddy machine zone higherPage higherBuddy (merge.order + 1) then
      listAddTail zone merge.page merge.order migratetype
    else listAdd zone merge.page merge.order migratetype
  addNrFree zone merge.order 1

/-- `__free_one_page`. -/
def freeOnePage (zone : Zone) (pfn order : Nat) (migratetype : Migratetype) : Zone :=
  let maxOrder := min machine.maxOrder (machine.pageblockOrder + 1)
  let merge : Merge := ⟨zone, pfn, pfn % 2 ^ machine.maxOrder, 0, order⟩
  doneMerging machine (mergeStages machine (machine.maxOrder - maxOrder) maxOrder merge) migratetype

end

variable (machine : Machine)

/-- The loop of `expand`; the rounds go from `high` down to `low`. -/
def expand (page : Nat) (migratetype : Migratetype) : Nat → Nat → Zone → Zone
  | 0, _, zone => zone
  | rounds + 1, high, zone =>
    let half := page + 2 ^ (high - 1)
    expand page migratetype rounds (high - 1) (setPageOrder
        (addNrFree (listAdd zone half (high - 1) migratetype) (high - 1) 1) half (high - 1))

/-- The list that `__rmqueue_smallest` looks at. -/
def effectiveType (migratetype : Migratetype) : Migratetype :=
  if machine.movableCma ∧ migratetype = .movable then .cma else migratetype

/-- The loop of `__rmqueue_smallest`; the rounds end at `MAX_ORDER`. -/
def rmqueueFrom (order : Nat) (migratetype : Migratetype) : Nat → Nat → Zone → Option (Zone × Nat)
  | 0, _, _ => none
  | rounds + 1, current, zone =>
    match zone.freeList current migratetype with
    | [] => rmqueueFrom order migratetype rounds (current + 1) zone
    | page :: _ =>
      some (expand page migratetype (current - order) current
          (addNrFree (rmvPageOrder (listDel zone page) page) current (-1)), page)

/-- `__rmqueue_smallest`. -/
def rmqueueSmallest (zone : Zone) (order : Nat) (migratetype : Migratetype) : Option (Zone × Nat) :=
  rmqueueFrom order (effectiveType machine migratetype) (machine.maxOrder - order) order zone

end EchoKernel.PageAlloc
