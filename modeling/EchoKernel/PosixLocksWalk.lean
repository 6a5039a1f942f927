import EchoKernel.IntervalPaint
import EchoKernel.PosixLocks

namespace EchoKernel.PosixLocks

open List Option Bool FileLock

/-!
# The walk over the locks of an owner

The loop of `posix_lock_inode` paints the request's range over its owner's
locks. The passed locks are those below the range, at most one that reaches
into it, and the request itself once it is in the list.
-/

open IntervalPaint

variable {Owner : Type}
variable {request fl : FileLock Owner}

section
variable {value : Int}

/-- The bytes of a lock with its type. -/
def FileLock.interval (fl : FileLock Owner) : Interval LockType := ⟨fl.flStart, fl.flEnd, fl.flType⟩

structure Held (owner : Owner) (fl : FileLock Owner) : Prop where
  inRange : InRange fl
  locked : fl.flType ≠ .unlck
  owned : fl.flOwner = owner

theorem loff_eq (low : -1 ≤ value) (high : value ≤ offsetMax) : loff value = value := by
  rw [offsetMax] at high
  rw [loff, Int.bmod_eq_of_le (by omega) (by omega)]

theorem InRange.loff_pred (inRange : InRange fl) : loff (fl.flStart - 1) = fl.flStart - 1 := by
  have start := inRange.start
  have order := inRange.order
  have stop := inRange.stop
  exact loff_eq (by omega) (by omega)

theorem interval_cutLeft
    (inRange : InRange request) :
    (cutLeft request fl).interval = cutEnd fl.interval request.flStart := by
  rw [cutLeft, inRange.loff_pred]
  rfl

theorem interval_cutRight
    (inRange : InRange request)
    (below : request.flEnd < offsetMax) :
    (cutRight request fl).interval = cutStart fl.interval request.flEnd := by
  have start := inRange.start
  have order := inRange.order
  rw [cutRight, loff_eq (by omega) (by omega)]
  rfl

/-- The range of two locks that are made one. -/
theorem InRange.merged
    {one other whole : FileLock Owner}
    (oneInRange : InRange one)
    (otherInRange : InRange other)
    (isStart : whole.flStart = mergedStart other one)
    (isEnd : whole.flEnd = mergedEnd other one) :
    InRange whole := by
  rw [mergedStart] at isStart
  rw [mergedEnd] at isEnd
  have oneOrder := oneInRange.order
  refine ⟨?_, ?_, ?_⟩
  · rw [isStart]
    split
    · exact oneInRange.start
    · exact otherInRange.start
  · omega
  rw [isEnd]
  split
  · exact oneInRange.stop
  · exact otherInRange.stop

end

variable {walk after : Walk Owner} {passed below rest : List (FileLock Owner)}
variable {left node : Option (FileLock Owner)}

section

def erases (request : FileLock Owner) : Bool := decide (request.flType = .unlck)

/-- The locks that stay before the request. -/
def keptLocks (request : FileLock Owner) (below : List (FileLock Owner))
    (left : Option (FileLock Owner)) : List (FileLock Owner) :=
  below ++ (left.map (cutLeft request)).toList

/-- The loop's variables between two locks. -/
structure Stage (request : FileLock Owner) (passed below : List (FileLock Owner))
    (left node : Option (FileLock Owner)) (walk : Walk Owner)
    (rest : List (FileLock Owner)) : Prop where
  asked : InRange request
  done : walk.done = below ++ left.toList ++ node.toList
  leftAt : walk.left = left.map fun _ => below.length
  requestAt : walk.requestAt = node.map fun _ => (below ++ left.toList).length
  isRequest : walk.request = node.getD request
  noRight : walk.right = none
  addedNode : request.flType ≠ .unlck → walk.added = node.isSome
  eraseNode : request.flType = .unlck → node = none
  eraseLeft : request.flType = .unlck → walk.added = false → left = none
  untouched : walk.added = false → walk.done = passed
  inRange : InRange walk.request
  sameType : walk.request.flType = request.flType
  sameOwner : walk.request.flOwner = request.flOwner
  leftBelow : ∀ fl ∈ left, fl.flStart < request.flStart
  sameStart : left.isSome → walk.request.flStart = request.flStart
  held : ∀ fl ∈ below ++ left.toList, Held request.flOwner fl
  restHeld : ∀ fl ∈ rest, Held request.flOwner fl
  painting :
    Painting request.flStart request.flEnd (erases request)
      (left.isSome || walk.added) (passed.map interval)
      ((keptLocks request below left).map interval)
      walk.request.interval (rest.map interval)

variable (stage : Stage request passed below left node walk (fl :: rest))
include stage

/-- A lock before the request's start is met before any change. -/
theorem Stage.unstarted
    (startsBefore : fl.flStart < walk.request.flStart) :
    left = none ∧ node = none ∧ walk.added = false := by
  have notStarted : (left.isSome || walk.added) = false := by
    by_contra isStarted
    rw [not_eq_false] at isStarted
    have fromStart := stage.painting.above isStarted fl.interval mem_cons_self
    have reaches := stage.painting.reaches.1
    have contradiction : walk.request.flStart ≤ fl.flStart := Int.le_trans reaches fromStart
    omega
  rw [or_eq_false_iff, isSome_eq_false_iff, isNone_iff_eq_none] at notStarted
  obtain ⟨noLeft, notAdded⟩ := notStarted
  refine ⟨noLeft, ?_, notAdded⟩
  by_cases isErase : request.flType = .unlck
  · exact stage.eraseNode isErase
  have noNode := stage.addedNode isErase
  rw [notAdded] at noNode
  exact isNone_iff_eq_none.mp (isSome_eq_false_iff.mp noNode.symm)

/-- A lock below the request is kept. -/
theorem Stage.keep
    (before : fl.interval.Before walk.request.interval) :
    Stage request (passed ++ [fl]) (below ++ [fl]) none none (walk.keep fl) rest := by
  have held := stage.restHeld fl mem_cons_self
  have startsBefore : fl.flStart < walk.request.flStart :=
    Int.lt_of_le_of_lt held.inRange.order before.1
  obtain ⟨rfl, rfl, notAdded⟩ := stage.unstarted startsBefore
  have done := stage.done
  have painting := stage.painting.skip before
  refine
    { stage with
      done := ?_
      untouched := fun _ => ?_
      held := ?_
      restHeld := forall_mem_of_forall_mem_cons stage.restHeld
      painting := ?_ }
  · simp [Walk.keep, done, append_nil]
  · rw [Walk.keep, stage.untouched notAdded]
  · rw [toList_none, append_nil, forall_mem_append, forall_mem_singleton]
    exact ⟨fun other isBelow => stage.held other (by simp [isBelow]), held⟩
  · simpa [keptLocks, Walk.keep] using painting

/-- A lock that reaches into the request. -/
theorem Stage.cut
    (otherType : walk.request.flType ≠ fl.flType)
    (startsBefore : fl.flStart < walk.request.flStart)
    (reachesIn : walk.request.flStart ≤ fl.flEnd)
    (endsIn : fl.flEnd ≤ walk.request.flEnd) :
    Stage request (passed ++ [fl]) below (some fl) none (Walk.keep { walk with
          added := walk.added || decide (walk.request.flType = .unlck)
          left := some walk.done.length } fl) rest := by
  have held := stage.restHeld fl mem_cons_self
  obtain ⟨rfl, rfl, notAdded⟩ := stage.unstarted startsBefore
  have done := stage.done
  have isRequest : walk.request = request := stage.isRequest
  have painting := stage.painting.cut otherType startsBefore reachesIn endsIn
  simp only [toList_none, append_nil] at done
  refine
    { stage with
      done := ?_
      leftAt := ?_
      addedNode := ?_
      eraseLeft := ?_
      untouched := fun _ => ?_
      leftBelow := ?_
      sameStart := fun _ => congrArg FileLock.flStart isRequest
      held := ?_
      restHeld := forall_mem_of_forall_mem_cons stage.restHeld
      painting := ?_ }
  · simp [Walk.keep, done, append_nil]
  · simp [Walk.keep, done]
  · intro locks
    simp [Walk.keep, notAdded, isRequest, locks, isSome_none]
  · intro isErase stillFalse
    simp only [Walk.keep, isRequest, isErase, decide_true,
      Bool.or_true, true_eq_false] at stillFalse
  · rw [Walk.keep, stage.untouched notAdded]
  · intro other isLeft
    cases isLeft
    rw [← isRequest]
    exact startsBefore
  · rw [toList_some, forall_mem_append, forall_mem_singleton]
    exact ⟨(forall_mem_append.mp stage.held).1, held⟩
  · simp only [keptLocks, map_append, map_some, toList_some, map_cons, interval_cutLeft stage.asked]
    simpa [keptLocks, Walk.keep, interval, isRequest] using painting

section
variable (startsIn : walk.request.flStart ≤ fl.flStart) (endsIn : fl.flEnd ≤ walk.request.flEnd)
include startsIn endsIn

/-- A lock inside the request disappears. -/
theorem Stage.cover
    (added : (walk.added || decide (walk.request.flType = .unlck)) = true) :
    Stage request (passed ++ [fl]) below left node { walk with
        added := walk.added || decide (walk.request.flType = .unlck) }
      rest := by
  have painting := stage.painting.cover startsIn endsIn
  refine
    { stage with
      addedNode := ?_
      eraseLeft := ?_
      untouched := ?_
      restHeld := forall_mem_of_forall_mem_cons stage.restHeld
      painting := ?_ }
  · intro locks
    rw [← stage.addedNode locks, stage.sameType]
    simp [locks, Bool.or_false]
  · exact fun _ notAdded => absurd (added.symm.trans notAdded) (by decide)
  · exact fun notAdded => absurd (added.symm.trans notAdded) (by decide)
  · simpa [added] using painting

/-- The request takes the place of a lock inside it. -/
theorem Stage.replace
    (notAdded : walk.added = false)
    (locks : walk.request.flType ≠ .unlck) :
    Stage request (passed ++ [fl]) below left (some walk.request) walk.replace rest := by
  have painting := stage.painting.cover startsIn endsIn
  have asksLock : request.flType ≠ .unlck := stage.sameType ▸ locks
  have noNode : node = none := by
    have noNode := stage.addedNode asksLock
    rw [notAdded] at noNode
    exact isNone_iff_eq_none.mp (isSome_eq_false_iff.mp noNode.symm)
  subst noNode
  have done := stage.done
  simp only [toList_none, append_nil] at done
  refine
    { stage with
      done := ?_
      requestAt := ?_
      isRequest := rfl
      addedNode := fun _ => rfl
      eraseNode := fun isErase => absurd isErase asksLock
      eraseLeft := fun isErase => absurd isErase asksLock
      untouched := fun isFalse => nomatch isFalse
      restHeld := forall_mem_of_forall_mem_cons stage.restHeld
      painting := ?_ }
  · simp [Walk.replace, done]
  · simp [Walk.replace, done]
  · simpa [Walk.replace] using painting

end

/-- A left lock that grows keeps the start of the request. -/
theorem Stage.mergedStart_eq
    (hasLeft : left.isSome) :
    mergedStart fl walk.request = request.flStart := by
  have fromStart := stage.painting.above (by rw [hasLeft, Bool.true_or]) fl.interval mem_cons_self
  have sameStart := stage.sameStart hasLeft
  change request.flStart ≤ fl.flStart at fromStart
  rw [mergedStart]
  omega

section
variable (sameType : walk.request.flType = fl.flType)
  (touchesLow : walk.request.flStart - 1 ≤ fl.flEnd)
  (touchesHigh : fl.flStart - 1 ≤ walk.request.flEnd)
include sameType touchesLow touchesHigh

/-- A stage after a lock of the same type was taken in. -/
theorem Stage.absorb
    {whole : FileLock Owner}
    (isWhole : whole.interval = hull walk.request.interval fl.interval)
    (owned : whole.flOwner = request.flOwner)
    (done : after.done = below ++ left.toList ++ [whole])
    (isRequest : after.request = whole)
    (requestAt : after.requestAt = some (below ++ left.toList).length)
    (added : after.added = true)
    (leftAt : after.left = walk.left)
    (rightAt : after.right = walk.right) :
    Stage request (passed ++ [fl]) below left (some whole) after rest := by
  have held := stage.restHeld fl mem_cons_self
  have asksLock : request.flType ≠ .unlck := by
    rw [← stage.sameType, sameType]
    exact held.locked
  have notErase : erases request = false := decide_eq_false asksLock
  have fresh := stage.painting
  rw [notErase] at fresh
  have painting := fresh.absorb sameType touchesLow touchesHigh
  have isStart : whole.flStart = mergedStart fl walk.request := congrArg Interval.first isWhole
  have isEnd : whole.flEnd = mergedEnd fl walk.request := congrArg Interval.last isWhole
  have isType : whole.flType = walk.request.flType := congrArg Interval.label isWhole
  refine
    { stage with
      done := done
      leftAt := leftAt.trans stage.leftAt
      requestAt := requestAt
      isRequest := isRequest
      noRight := rightAt.trans stage.noRight
      addedNode := fun _ => added
      eraseNode := fun isErase => absurd isErase asksLock
      eraseLeft := fun isErase => absurd isErase asksLock
      untouched := fun isFalse => absurd (added.symm.trans isFalse) (by decide)
      inRange := ?_
      sameType := ?_
      sameOwner := ?_
      sameStart := fun hasLeft => ?_
      restHeld := forall_mem_of_forall_mem_cons stage.restHeld
      painting := ?_ }
  · rw [isRequest]
    exact stage.inRange.merged held.inRange isStart isEnd
  · rw [isRequest, isType, stage.sameType]
  · rw [isRequest, owned]
  · rw [isRequest, isStart, stage.mergedStart_eq hasLeft]
  · rw [isRequest, added, Bool.or_true, notErase, isWhole, map_append]
    exact painting

/-- The request and a lock of its type become one. -/
theorem Stage.merge :
    ∃ whole, Stage request (passed ++ [fl]) below left (some whole) (walk.merge fl) rest := by
  have held := stage.restHeld fl mem_cons_self
  have asksLock : request.flType ≠ .unlck := by
    rw [← stage.sameType, sameType]
    exact held.locked
  have isAdded := stage.addedNode asksLock
  have done := stage.done
  have requestAt := stage.requestAt
  cases node with
  | none =>
    have isWhole :
        interval { fl with
          flStart := mergedStart fl walk.request
          flEnd := mergedEnd fl walk.request } =
          hull walk.request.interval fl.interval := by
      rw [← sameType]
      rfl
    refine ⟨_, stage.absorb sameType touchesLow touchesHigh isWhole
      held.owned ?_ ?_ ?_ ?_ ?_ ?_⟩ <;> rw [toList_none, append_nil] at done <;>
      rw [map_none] at requestAt <;>
      simp only [Walk.merge, Walk.setRequest, isAdded, requestAt, done,
        isSome_none, false_eq_true, if_false]
  | some old =>
    refine ⟨{ walk.request with
      flStart := mergedStart fl walk.request
      flEnd := mergedEnd fl walk.request }, ?_⟩
    rw [map_some] at requestAt
    rw [toList_some] at done
    refine stage.absorb sameType touchesLow touchesHigh rfl stage.sameOwner ?_ ?_ ?_ ?_ ?_ ?_ <;>
      simp only [Walk.merge, Walk.setRequest, isAdded, requestAt, done, isSome_some, if_true]
    rw [set_append_right _ _ (Nat.le_refl _), Nat.sub_self, set_cons_zero]

end

end

variable [DecidableEq Owner] {others mine : List (FileLock Owner)}

/-- The variables when the next lock reaches out. -/
def atRight (walk : Walk Owner) (fl : FileLock Owner) : Walk Owner :=
  { walk with
    added := walk.added || decide (walk.request.flType = .unlck)
    left :=
      if fl.flStart < walk.request.flStart then some walk.done.length
      else walk.left
    right := some walk.done.length }

/-- How the loop ends without an error. -/
inductive Ended (request : FileLock Owner) (mine : List (FileLock Owner)) :
    Walk Owner → List (FileLock Owner) → Prop
  | clear
      {passed below rest : List (FileLock Owner)}
      {left node : Option (FileLock Owner)}
      {walk : Walk Owner}
      (stage : Stage request passed below left node walk rest)
      (whole : passed ++ rest = mine)
      (restAfter : ∀ other ∈ rest, walk.request.interval.Before other.interval) :
      Ended request mine walk rest
  | right
      {passed below rest : List (FileLock Owner)}
      {left node : Option (FileLock Owner)}
      {walk : Walk Owner}
      {fl : FileLock Owner}
      (stage : Stage request passed below left node walk (fl :: rest))
      (whole : passed ++ fl :: rest = mine)
      (otherType : walk.request.flType ≠ fl.flType)
      (startsIn : fl.flStart ≤ walk.request.flEnd)
      (endsAfter : walk.request.flEnd < fl.flEnd) :
      Ended request mine (atRight walk fl) (fl :: rest)

/-- What is known after a lock of the owner. -/
def Follows (request fl : FileLock Owner)
    (passed rest : List (FileLock Owner)) : Verdict Owner → Prop
  | .next after => ∃ below left node, Stage request (passed ++ [fl]) below left node after rest
  | .stop after => Ended request (passed ++ fl :: rest) after (fl :: rest)
  | .fail after => after.done = passed

section
variable (stage : Stage request passed below left node walk (fl :: rest))
include stage

theorem Stage.stop
    (before : walk.request.interval.Before fl.interval) :
    Ended request (passed ++ fl :: rest) walk (fl :: rest) := by
  have nonempty := (stage.restHeld fl mem_cons_self).inRange.order
  refine .clear stage rfl fun other member => ?_
  exact before_all nonempty stage.painting.restOrdered before other.interval (mem_map_of_mem member)

theorem Stage.processSame
    (sameType : walk.request.flType = fl.flType) :
    Follows request fl passed rest (processSame walk fl) := by
  have held := stage.restHeld fl mem_cons_self
  rw [PosixLocks.processSame, stage.inRange.loff_pred, held.inRange.loff_pred]
  split
  · exact ⟨_, _, _, stage.keep
      ⟨show fl.flEnd < walk.request.flStart by omega,
        fun _ => show fl.flEnd + 1 < walk.request.flStart by omega⟩⟩
  split
  · exact stage.stop
      ⟨show walk.request.flEnd < fl.flStart by omega,
        fun _ => show walk.request.flEnd + 1 < fl.flStart by omega⟩
  · obtain ⟨whole, merged⟩ := stage.merge sameType (by omega) (by omega)
    exact ⟨_, _, _, merged⟩

/-- Lock and request differ in type and overlap. -/
theorem Stage.processOverlap
    (otherType : walk.request.flType ≠ fl.flType)
    (reachesIn : walk.request.flStart ≤ fl.flEnd)
    (startsIn : fl.flStart ≤ walk.request.flEnd) :
    Follows request fl passed rest (processOverlap
        { walk with
          added := walk.added || decide (walk.request.flType = .unlck)
          left :=
            if fl.flStart < walk.request.flStart then some walk.done.length
            else walk.left } fl) := by
  rw [PosixLocks.processOverlap]
  dsimp only
  split
  · rename_i endsAfter
    exact .right stage rfl otherType startsIn endsAfter
  rename_i endsIn
  split
  · rename_i startsAfter
    rw [if_neg (Int.not_lt.mpr startsAfter)]
    split
    · rename_i added
      exact ⟨_, _, _, stage.cover startsAfter (Int.not_lt.mp endsIn) added⟩
    rename_i notAdded
    rw [not_eq_true, or_eq_false_iff, decide_eq_false_iff_not] at notAdded
    split
    · exact stage.untouched notAdded.1
    · exact ⟨_, _, _, stage.replace startsAfter (Int.not_lt.mp endsIn) notAdded.1 notAdded.2⟩
  · rename_i startsBefore
    rw [if_pos (Int.not_le.mp startsBefore)]
    exact ⟨_, _, _, stage.cut otherType (Int.not_le.mp startsBefore)
      reachesIn (Int.not_lt.mp endsIn)⟩

theorem Stage.processOther
    (otherType : walk.request.flType ≠ fl.flType) :
    Follows request fl passed rest (processOther walk fl) := by
  rw [PosixLocks.processOther]
  split
  · rename_i below
    exact ⟨_, _, _, stage.keep ⟨below, fun same => absurd same.symm otherType⟩⟩
  rename_i reachesIn
  split
  · rename_i behind
    exact stage.stop ⟨behind, fun same => absurd same otherType⟩
  · rename_i startsIn
    exact stage.processOverlap otherType (Int.not_lt.mp reachesIn) (Int.not_lt.mp startsIn)

theorem Stage.processLock : Follows request fl passed rest (processLock walk fl) := by
  rw [PosixLocks.processLock]
  split
  · rename_i sameType
    exact stage.processSame sameType
  · rename_i otherType
    exact stage.processOther otherType

end

theorem Stage.processLocks
    (stage : Stage request passed below left node walk rest)
    (behind : ∀ fl ∈ others.head?, fl.flOwner ≠ request.flOwner) :
    ∃ walkEnd restEnd failed,
    processLocks walk (rest ++ others) = (walkEnd, restEnd ++ others, failed) ∧
    (failed = true → walkEnd.done ++ restEnd = passed ++ rest) ∧
    (failed = false → Ended request (passed ++ rest) walkEnd restEnd) := by
  induction rest generalizing passed below left node walk with
  | nil =>
    refine ⟨walk, [], false, ?_, (fun isTrue => nomatch isTrue),
      fun _ => .clear stage rfl fun _ member => nomatch member⟩
    cases others with
    | nil => rfl
    | cons other more =>
      have different : posixSameOwner walk.request other = false := by
        rw [posixSameOwner, stage.sameOwner, decide_eq_false_iff_not]
        exact (behind other rfl).symm
      rw [nil_append, PosixLocks.processLocks, different]
      rfl
  | cons fl rest inductionHypothesis =>
    have held := stage.restHeld fl mem_cons_self
    have same : posixSameOwner walk.request fl = true := by
      rw [posixSameOwner, stage.sameOwner, held.owned, decide_eq_true rfl]
    have follows := stage.processLock
    rw [cons_append, PosixLocks.processLocks, same]
    cases verdict : PosixLocks.processLock walk fl with
    | next after =>
      rw [verdict] at follows
      obtain ⟨below, left, node, next⟩ := follows
      have continues := inductionHypothesis next
      rw [append_assoc] at continues
      exact continues
    | stop after =>
      rw [verdict] at follows
      exact ⟨after, fl :: rest, false, rfl, (fun isTrue => nomatch isTrue), fun _ => follows⟩
    | fail after =>
      rw [verdict] at follows
      have unchanged : after.done = passed := follows
      refine ⟨after, fl :: rest, true, rfl, fun _ => ?_, fun isFalse => nomatch isFalse⟩
      rw [unchanged]

end EchoKernel.PosixLocks
