import EchoKernel.PosixLocksWalk

namespace EchoKernel.PosixLocks

open List Option FileLock

/-!
# The locks of an owner after a request

What follows the loop of `posix_lock_inode` cuts the locks that reach out of
the request. A granted request gives its type to its range and leaves the
owner's other bytes as they were.
-/

open IntervalPaint

variable {Owner : Type}
variable {request fl : FileLock Owner} {walk : Walk Owner}
variable {passed below rest others mine : List (FileLock Owner)}
variable {left node : Option (FileLock Owner)}

/-- The locks of the owner after the request. -/
structure Applied (request : FileLock Owner) (mine new : List (FileLock Owner)) : Prop where
  painted : Painted (mine.map interval) (new.map interval)
      request.flStart request.flEnd fun type => request.flType ≠ .unlck ∧ request.flType = type
  held : ∀ fl ∈ new, Held request.flOwner fl

/-- A successful request is applied, a failed one changes nothing. -/
def Serves (request : FileLock Owner) (mine others : List (FileLock Owner))
    (result : LockReturn × List (FileLock Owner)) : Prop :=
  if result.1 = .ok then ∃ new, result.2 = new ++ others ∧ Applied request mine new
  else result.2 = mine ++ others

/-- What is left of a lock before the request is held. -/
theorem Held.cutLeft
    {owner : Owner}
    (held : Held owner fl)
    (inRange : InRange request)
    (startsBefore : fl.flStart < request.flStart) :
    Held owner (cutLeft request fl) := by
  have order := inRange.order
  have stop := inRange.stop
  have cut : (PosixLocks.cutLeft request fl).flEnd = request.flStart - 1 := inRange.loff_pred
  refine ⟨⟨held.inRange.start, ?_, ?_⟩, held.locked, held.owned⟩
  · rw [cut]
    exact Int.le_sub_one_of_lt startsBefore
  · omega

/-- The lock that the request leaves in the list. -/
def markLocks (request whole : FileLock Owner) : List (FileLock Owner) :=
  if request.flType = .unlck then [] else [whole]

theorem map_markLocks
    (request whole : FileLock Owner) :
    (markLocks request whole).map interval = mark (erases request) whole.interval := by
  rw [markLocks, mark, erases]
  by_cases isErase : request.flType = .unlck <;> simp [isErase]

section
variable (stage : Stage request passed below left node walk rest)
include stage

theorem Stage.paint_eq :
    Paint (erases request) walk.request.interval = fun type => request.flType ≠ .unlck ∧
    request.flType = type := by
  funext type
  rw [Paint, erases, decide_eq_false_iff_not, interval, stage.sameType]

/-- The left lock is cut where it stands. -/
theorem Stage.doneCut : walk.doneCut = keptLocks request below left ++ node.toList := by
  rw [Walk.doneCut, stage.leftAt, stage.done, keptLocks]
  cases left with
  | none => rfl
  | some fl =>
    have sameCut : cutLeft walk.request fl = cutLeft request fl := by
      rw [cutLeft, stage.sameStart rfl, cutLeft]
    simp [modify_eq_take_drop, sameCut]

theorem Stage.held_kept : ∀ fl ∈ keptLocks request below left, Held request.flOwner fl := by
  intro fl member
  rcases mem_append.mp member with isBelow | isLeft
  · exact stage.held fl (mem_append_left _ isBelow)
  obtain ⟨whole, isWhole, rfl⟩ := map_eq_some_iff.mp (mem_toList.mp isLeft)
  have held := stage.held whole (mem_append_right _ (mem_toList.mpr isWhole))
  exact held.cutLeft stage.asked (stage.leftBelow whole isWhole)

theorem Stage.held_request (locks : request.flType ≠ .unlck) : Held request.flOwner walk.request :=
  ⟨stage.inRange, stage.sameType ▸ locks, stage.sameOwner⟩

theorem Stage.held_markLocks : ∀ fl ∈ markLocks request walk.request, Held request.flOwner fl := by
  intro fl member
  rw [markLocks] at member
  split at member
  · cases member
  rename_i locks
  rw [mem_singleton.mp member]
  exact stage.held_request locks

/-- The request ends before the rest of the locks. -/
theorem Stage.applied
    (restAfter : ∀ other ∈ rest, walk.request.interval.Before other.interval) :
    Applied request (passed ++ rest)
    (keptLocks request below left ++ markLocks request walk.request ++ rest) := by
  refine ⟨?_, ?_⟩
  · have painted := stage.painting.finish (forall_mem_map.mpr restAfter)
    rw [stage.paint_eq] at painted
    simpa only [map_append, map_markLocks] using painted
  · rw [forall_mem_append, forall_mem_append]
    exact ⟨⟨stage.held_kept, stage.held_markLocks⟩, stage.restHeld⟩

end

theorem Stage.held_cutRight
    (stage : Stage request passed below left node walk (fl :: rest))
    (endsAfter : walk.request.flEnd < fl.flEnd) :
    Held request.flOwner (cutRight walk.request fl) := by
  have held := stage.restHeld fl mem_cons_self
  have start := stage.inRange.start
  have order := stage.inRange.order
  have stop := held.inRange.stop
  have cut : (cutRight walk.request fl).flStart = walk.request.flEnd + 1 :=
    loff_eq (by omega) (by omega)
  refine ⟨⟨?_, ?_, held.inRange.stop⟩, held.locked, held.owned⟩
  · omega
  · rw [cut]
    exact endsAfter

/-- The next lock reaches out at the request's end. -/
theorem Stage.applied_cutRight
    (stage : Stage request passed below left node walk (fl :: rest))
    (otherType : walk.request.flType ≠ fl.flType)
    (startsAfter : walk.request.flStart ≤ fl.flStart)
    (startsIn : fl.flStart ≤ walk.request.flEnd)
    (endsAfter : walk.request.flEnd < fl.flEnd) :
    Applied request (passed ++ fl :: rest)
    (keptLocks request below left ++ markLocks request walk.request ++
    cutRight walk.request fl :: rest) := by
  have stop := (stage.restHeld fl mem_cons_self).inRange.stop
  refine ⟨?_, ?_⟩
  · have painted := stage.painting.finish_cutStart otherType startsAfter startsIn endsAfter
    rw [stage.paint_eq] at painted
    simp only [map_append, map_cons, map_markLocks,
      interval_cutRight stage.inRange (Int.lt_of_lt_of_le endsAfter stop)]
    exact painted
  · rw [forall_mem_append, forall_mem_append, forall_mem_cons]
    exact ⟨⟨stage.held_kept, stage.held_markLocks⟩, stage.held_cutRight endsAfter,
      forall_mem_of_forall_mem_cons stage.restHeld⟩

/-- The request breaks a lock in two pieces. -/
theorem Stage.applied_split
    (stage : Stage request passed below none none walk (fl :: rest))
    (otherType : walk.request.flType ≠ fl.flType)
    (startsBefore : fl.flStart < walk.request.flStart)
    (endsAfter : walk.request.flEnd < fl.flEnd) :
    Applied request (passed ++ fl :: rest)
    (below ++ [cutLeft walk.request fl] ++ markLocks request walk.request ++
    cutRight walk.request fl :: rest) := by
  have held := stage.restHeld fl mem_cons_self
  refine ⟨?_, ?_⟩
  · have painted := stage.painting.finish_split otherType startsBefore endsAfter
    rw [stage.paint_eq] at painted
    simp only [map_append, map_cons, map_markLocks, interval_cutLeft stage.inRange,
      interval_cutRight stage.inRange (Int.lt_of_lt_of_le endsAfter held.inRange.stop)]
    simpa [keptLocks, interval] using painted
  · rw [forall_mem_append, forall_mem_append, forall_mem_append, forall_mem_singleton,
      forall_mem_cons]
    exact ⟨⟨⟨(forall_mem_append.mp stage.held).1, held.cutLeft stage.inRange startsBefore⟩,
      stage.held_markLocks⟩, stage.held_cutRight endsAfter,
      forall_mem_of_forall_mem_cons stage.restHeld⟩

theorem serves_ok
    {new : List (FileLock Owner)}
    (applied : Applied request mine new) :
    Serves request mine others (.ok, new ++ others) := by
  exact ⟨new, rfl, applied⟩

theorem serves_error
    (errno : Errno) :
    Serves request mine others (.error errno, mine ++ others) := by
  rw [Serves, if_neg (by simp)]

theorem Walk.split_of_no_right
    {inserted : List (FileLock Owner)}
    (noRight : walk.right = none) :
    walk.split inserted rest = walk.doneCut ++ inserted ++ rest := by
  simp only [Walk.split, noRight]

theorem Walk.split_of_right
    {inserted : List (FileLock Owner)}
    {place : Nat}
    (isRight : walk.right = some place) :
    walk.split inserted (fl :: rest) = (if walk.left = some place then
        walk.done ++ [cutLeft walk.request fl]
      else walk.doneCut) ++ inserted ++ cutRight walk.request fl :: rest := by
  simp only [Walk.split, isRight]
  split <;> rfl

section
variable (stage : Stage request passed below left node walk rest)
include stage

/-- The request is in the list once it was added. -/
theorem Stage.node_eq
    (added : walk.added = true) :
    node.toList = markLocks request walk.request := by
  rw [markLocks]
  split
  · rename_i isErase
    rw [stage.eraseNode isErase]
    rfl
  rename_i locks
  have isSome := stage.addedNode locks
  have isRequest := stage.isRequest
  rw [added] at isSome
  cases node with
  | none => cases isSome
  | some whole => rw [isRequest]; rfl

theorem Stage.node_none (notAdded : walk.added = false) : node = none := by
  by_cases isErase : request.flType = .unlck
  · exact stage.eraseNode isErase
  have isSome := stage.addedNode isErase
  rw [notAdded] at isSome
  exact isNone_iff_eq_none.mp (isSome_eq_false_iff.mp isSome.symm)

/-- The end of the loop, the other locks behind the request. -/
theorem Stage.finish
    (restAfter : ∀ other ∈ rest, walk.request.interval.Before other.interval)
    (newFl2 : Bool) :
    Serves request (passed ++ rest) others (walk.finish newFl2 (rest ++ others)) := by
  have applied := stage.applied restAfter
  rw [Walk.finish, stage.noRight, if_neg (by simp)]
  split
  · rename_i added
    rw [Walk.split_of_no_right stage.noRight, stage.doneCut,
      stage.node_eq added, append_nil, ← append_assoc]
    exact serves_ok applied
  rename_i notAdded
  rw [Bool.not_eq_true] at notAdded
  have isPassed := stage.untouched notAdded
  have noNode := stage.node_none notAdded
  subst noNode
  have done := stage.done
  rw [toList_none, append_nil] at done
  split
  · rename_i isErase
    rw [stage.sameType] at isErase
    split
    · rw [isPassed, ← append_assoc]
      exact serves_error _
    have noLeft := stage.eraseLeft isErase notAdded
    subst noLeft
    rw [markLocks, if_pos isErase, append_nil] at applied
    rw [done, ← append_assoc]
    exact serves_ok applied
  · rename_i locks
    split
    · rw [isPassed, ← append_assoc]
      exact serves_error _
    rw [markLocks, if_neg (stage.sameType ▸ locks)] at applied
    rw [Walk.split_of_no_right stage.noRight, stage.doneCut,
      toList_none, append_nil, ← append_assoc]
    exact serves_ok applied

theorem Stage.left_ne : walk.left ≠ some walk.done.length := by
  rw [stage.leftAt, stage.done]
  cases left with
  | none => simp
  | some fl => simp

end

section
variable (stage : Stage request passed below left node walk (fl :: rest))
  (otherType : walk.request.flType ≠ fl.flType)
include stage otherType

/-- The loop ends at a lock broken in two. -/
theorem Stage.finish_split
    (startsBefore : fl.flStart < walk.request.flStart)
    (endsAfter : walk.request.flEnd < fl.flEnd)
    (newFl2 : Bool) :
    Serves request (passed ++ fl :: rest) others
    ((atRight walk fl).finish newFl2 (fl :: rest ++ others)) := by
  obtain ⟨rfl, rfl, notAdded⟩ := stage.unstarted startsBefore
  have applied := stage.applied_split otherType startsBefore endsAfter
  have isPassed := stage.untouched notAdded
  have done := stage.done
  simp only [toList_none, append_nil] at done
  have sameLock : (atRight walk fl).left = some walk.done.length := if_pos startsBefore
  have split (inserted : List (FileLock Owner)) :
      (atRight walk fl).split inserted (fl :: rest ++ others) =
      below ++ [cutLeft walk.request fl] ++ inserted ++
      cutRight walk.request fl :: rest ++ others := by
    rw [cons_append, Walk.split_of_right rfl, if_pos sameLock, ← done, append_assoc _ _ others]
    rfl
  rw [Walk.finish]
  split
  · rw [show (atRight walk fl).done = passed from isPassed, ← append_assoc]
    exact serves_error _
  split
  · rename_i added
    have isErase : request.flType = .unlck := by
      simpa [atRight, notAdded, stage.sameType] using added
    rw [markLocks, if_pos isErase] at applied
    rw [split]
    exact serves_ok applied
  rename_i stillNot
  have locks : request.flType ≠ .unlck := by
    simpa [atRight, notAdded, stage.sameType] using stillNot
  rw [markLocks, if_neg locks] at applied
  rw [if_neg (show (atRight walk fl).request.flType ≠ .unlck from stage.sameType ▸ locks)]
  split
  · rw [show (atRight walk fl).done = passed from isPassed, ← append_assoc]
    exact serves_error _
  · rw [split]
    exact serves_ok applied

/-- The loop ends at a lock that reaches out. -/
theorem Stage.finish_cutRight
    (startsAfter : walk.request.flStart ≤ fl.flStart)
    (startsIn : fl.flStart ≤ walk.request.flEnd)
    (endsAfter : walk.request.flEnd < fl.flEnd)
    (newFl2 : Bool) :
    Serves request (passed ++ fl :: rest) others
    ((atRight walk fl).finish newFl2 (fl :: rest ++ others)) := by
  have applied := stage.applied_cutRight otherType startsAfter startsIn endsAfter
  have sameLeft : (atRight walk fl).left = walk.left := by
    rw [atRight, if_neg (Int.not_lt.mpr startsAfter)]
  have notSame : (atRight walk fl).left ≠ some walk.done.length := by
    rw [sameLeft]
    exact stage.left_ne
  have doneCut : (atRight walk fl).doneCut = keptLocks request below left ++ node.toList := by
    rw [Walk.doneCut, sameLeft]
    exact stage.doneCut
  have split (inserted : List (FileLock Owner)) :
      (atRight walk fl).split inserted (fl :: rest ++ others) =
      keptLocks request below left ++ node.toList ++ inserted ++
      cutRight walk.request fl :: rest ++ others := by
    rw [cons_append, Walk.split_of_right rfl, if_neg notSame, doneCut, append_assoc _ _ others]
    rfl
  rw [Walk.finish, if_neg (fun both => notSame both.2.1)]
  by_cases added : walk.added = true
  · rw [if_pos (show (atRight walk fl).added = true by
      simp [atRight, added]), split, stage.node_eq added, append_nil]
    exact serves_ok applied
  rw [Bool.not_eq_true] at added
  have isPassed := stage.untouched added
  have noNode := stage.node_none added
  subst noNode
  by_cases isErase : request.flType = .unlck
  · rw [markLocks, if_pos isErase] at applied
    rw [if_pos (show (atRight walk fl).added = true by
      simp [atRight, stage.sameType, isErase]), split,
      append_nil]
    exact serves_ok applied
  rw [markLocks, if_neg isErase] at applied
  rw [if_neg (show ¬ (atRight walk fl).added = true by
      simp [atRight, added, stage.sameType, isErase]),
    if_neg (show (atRight walk fl).request.flType ≠ .unlck from stage.sameType ▸ isErase)]
  split
  · rw [show (atRight walk fl).done = passed from isPassed, ← append_assoc]
    exact serves_error _
  · rw [split, toList_none, append_nil]
    exact serves_ok applied

end

/-- However the loop ends, the request is served. -/
theorem Ended.finish
    (ended : Ended request mine walk rest)
    (newFl2 : Bool) :
    Serves request mine others (walk.finish newFl2 (rest ++ others)) := by
  cases ended with
  | clear stage whole restAfter =>
    rw [← whole]
    exact stage.finish restAfter newFl2
  | @right _ _ _ _ _ walk fl stage whole otherType startsIn endsAfter =>
    rw [← whole]
    by_cases startsBefore : fl.flStart < walk.request.flStart
    · exact stage.finish_split otherType startsBefore endsAfter newFl2
    · exact stage.finish_cutRight otherType (Int.not_lt.mp startsBefore) startsIn endsAfter newFl2

/-- The request is applied to the locks of its owner. -/
theorem serves_applyRequest
    [DecidableEq Owner]
    (asked : InRange request)
    (ordered : Ordered (mine.map interval))
    (held : ∀ fl ∈ mine, Held request.flOwner fl)
    (behind : ∀ fl ∈ others.head?, fl.flOwner ≠ request.flOwner)
    (newFl newFl2 : Bool) :
    Serves request mine others (applyRequest newFl newFl2 request (mine ++ others)) := by
  have stage : Stage request [] [] none none ⟨[], request, none, false, newFl, none, none⟩ mine :=
    { asked := asked
      done := rfl
      leftAt := rfl
      requestAt := rfl
      isRequest := rfl
      noRight := rfl
      addedNode := fun _ => rfl
      eraseNode := fun _ => rfl
      eraseLeft := fun _ _ => rfl
      untouched := fun _ => rfl
      inRange := asked
      sameType := rfl
      sameOwner := rfl
      leftBelow := fun _ isLeft => nomatch isLeft
      sameStart := fun _ => rfl
      held := fun _ member => nomatch member
      restHeld := held
      painting := .start asked.order
        (forall_mem_map.mpr fun fl isMine => (held fl isMine).inRange.order) ordered
          request.flType }
  obtain ⟨walkEnd, restEnd, failed, result, onFail, onEnd⟩ := stage.processLocks behind
  rw [applyRequest, result]
  cases failed with
  | true =>
    dsimp only
    rw [← append_assoc, onFail rfl]
    exact serves_error _
  | false => exact (onEnd rfl).finish newFl2

end EchoKernel.PosixLocks
