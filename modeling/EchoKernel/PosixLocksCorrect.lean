import EchoKernel.LabelledRun
import EchoKernel.PosixLocksApply
import Mathlib.Data.List.TakeWhile

namespace EchoKernel.PosixLocks

open List

/-!
# Requests on the locks of an inode

A request changes only its owner's locks, a failed one changes nothing, and
two owners never hold conflicting locks on a byte.
-/

open IntervalPaint LabelledRun

variable {Owner : Type}
variable {locks mine after new : List (FileLock Owner)} {other : Owner} {type : LockType}
variable {byte : Int}

section
variable {others before : List (FileLock Owner)} {owner : Owner} {fl : FileLock Owner}

/-- The locks of one owner are contiguous. -/
inductive Grouped : List (FileLock Owner) → Prop
  | nil : Grouped []
  | group {owner : Owner} {mine others : List (FileLock Owner)}
      (same : ∀ fl ∈ mine, fl.flOwner = owner) (different : ∀ fl ∈ others, fl.flOwner ≠ owner)
      (grouped : Grouped others) : Grouped (mine ++ others)

/--
The POSIX locks of an inode: those of one owner are contiguous, sorted and
disjoint, and neighbours of one type are not adjacent.
-/
structure WellFormed (locks : List (FileLock Owner)) : Prop where
  grouped : Grouped locks
  ordered : locks.Pairwise fun one other =>
      one.flOwner = other.flOwner → one.interval.Before other.interval
  inRange : ∀ fl ∈ locks, InRange fl
  locked : ∀ fl ∈ locks, fl.flType ≠ .unlck

/-- An owner holds a lock of a type on a byte. -/
def HeldBy (locks : List (FileLock Owner)) (owner : Owner) (type : LockType) (byte : Int) : Prop :=
  ∃ fl ∈ locks, fl.flOwner = owner ∧ fl.flType = type ∧ fl.flStart ≤ byte ∧ byte ≤ fl.flEnd

/-- Two owners hold only read locks on a common byte. -/
def ConflictFree (locks : List (FileLock Owner)) : Prop :=
  ∀ one other, one ≠ other → ∀ type otherType byte,
      HeldBy locks one type byte → HeldBy locks other otherType byte →
        type ≠ .wrlck ∧ otherType ≠ .wrlck

theorem heldBy_append :
    HeldBy (before ++ after) owner type byte ↔ HeldBy before owner type byte ∨
    HeldBy after owner type byte := by
  simp [HeldBy, or_and_right, exists_or]

theorem not_heldBy_of_ne
    (different : ∀ fl ∈ locks, fl.flOwner ≠ owner) :
    ¬ HeldBy locks owner type byte := by
  rintro ⟨fl, member, owned, _⟩
  exact different fl member owned

theorem heldBy_iff_holds
    (same : ∀ fl ∈ locks, fl.flOwner = owner) :
    HeldBy locks owner type byte ↔ Holds (locks.map FileLock.interval) type byte := by
  constructor
  · rintro ⟨fl, member, _, isType, inside⟩
    exact ⟨fl.interval, mem_map_of_mem member, isType, inside⟩
  rintro ⟨interval, member, isType, inside⟩
  obtain ⟨fl, isLock, rfl⟩ := mem_map.mp member
  exact ⟨fl, isLock, same fl isLock, isType, inside⟩

variable [DecidableEq Owner]

/-- The locks before the first lock of the owner. -/
def beforeOwner (owner : Owner) (locks : List (FileLock Owner)) : List (FileLock Owner) :=
  locks.takeWhile fun fl => !decide (owner = fl.flOwner)

/-- The locks from the first lock of the owner on. -/
def fromOwner (owner : Owner) (locks : List (FileLock Owner)) : List (FileLock Owner) :=
  locks.dropWhile fun fl => !decide (owner = fl.flOwner)

/-- The locks of an owner, with those before and after them. -/
structure Around (owner : Owner) (locks mine after : List (FileLock Owner)) : Prop where
  rest : fromOwner owner locks = mine ++ after
  same : ∀ fl ∈ mine, fl.flOwner = owner
  different : ∀ fl ∈ after, fl.flOwner ≠ owner
  regroup : ∀ new : List (FileLock Owner), (∀ fl ∈ new, fl.flOwner = owner) →
      Grouped (beforeOwner owner locks ++ (new ++ after))

theorem mem_beforeOwner
    (member : fl ∈ beforeOwner owner locks) :
    fl ∈ locks ∧ fl.flOwner ≠ owner := by
  have isOther := mem_takeWhile_imp member
  simp only [Bool.not_eq_eq_eq_not, Bool.not_true, decide_eq_false_iff_not] at isOther
  exact ⟨(takeWhile_sublist _).subset member, Ne.symm isOther⟩

theorem mem_fromOwner (member : fl ∈ fromOwner owner locks) : fl ∈ locks :=
  (dropWhile_sublist _).subset member

/-- Every owner has a place in a grouped list. -/
theorem Grouped.around
    (grouped : Grouped locks)
    (owner : Owner) :
    ∃ mine after, Around owner locks mine after := by
  induction grouped with
  | nil =>
    refine ⟨[], [], rfl, (fun _ member => nomatch member),
      (fun _ member => nomatch member), fun new same => ?_⟩
    rw [beforeOwner, takeWhile_nil, nil_append]
    exact .group same (fun fl member => nomatch member) .nil
  | @group first run others same different grouped inductionHypothesis =>
    obtain ⟨mine, after, rest, sameMine, differentAfter, regroup⟩ := inductionHypothesis
    by_cases isFirst : first = owner
    · subst isFirst
      cases run with
      | nil => exact ⟨mine, after, rest, sameMine, differentAfter, regroup⟩
      | cons head run =>
        have isOwner : first = head.flOwner := (same head mem_cons_self).symm
        have noneBefore : beforeOwner first (head :: run ++ others) = [] :=
          takeWhile_cons_of_neg (by simp [isOwner])
        have allFrom : fromOwner first (head :: run ++ others) = head :: run ++ others :=
          dropWhile_cons_of_neg (by simp [isOwner])
        refine ⟨head :: run, others, allFrom, same, different, fun new sameNew => ?_⟩
        rw [noneBefore, nil_append]
        exact .group sameNew different grouped
    have allOther : ∀ fl ∈ run, (!decide (owner = fl.flOwner)) = true := by
      intro fl member
      rw [same fl member]
      simp [Ne.symm isFirst]
    have splits : beforeOwner owner (run ++ others) = run ++ beforeOwner owner others :=
      takeWhile_append_of_pos allOther
    refine ⟨mine, after, (dropWhile_append_of_pos allOther).trans rest, sameMine,
      differentAfter, fun new sameNew => ?_⟩
    rw [splits, append_assoc]
    refine .group same ?_ (regroup new sameNew)
    intro fl member
    simp only [mem_append] at member
    rcases member with isBefore | isNew | isAfter
    · exact different fl (mem_beforeOwner isBefore).1
    · rw [sameNew fl isNew]
      exact Ne.symm isFirst
    · refine different fl (@mem_fromOwner _ _ owner _ _ ?_)
      exact rest ▸ mem_append_right mine isAfter

section
variable (around : Around owner locks mine after)
include around

theorem Around.split : locks = beforeOwner owner locks ++ (mine ++ after) := by
  rw [← around.rest]
  exact takeWhile_append_dropWhile.symm

theorem Around.mem_of_mine (isMine : fl ∈ mine) : fl ∈ locks := by
  rw [around.split]
  exact mem_append_right _ (mem_append_left _ isMine)

theorem Around.ordered (wellFormed : WellFormed locks) : Ordered (mine.map FileLock.interval) := by
  have ordered := wellFormed.ordered
  rw [around.split] at ordered
  have orderedMine := (pairwise_append.mp (pairwise_append.mp ordered).2.1).1
  refine pairwise_map.mpr (orderedMine.imp_of_mem ?_)
  intro one other isOne isOther before
  exact before ((around.same one isOne).trans (around.same other isOther).symm)

end

end

variable {request : FileLock Owner}

section
variable [DecidableEq Owner]

/--
The owner of the request has its type on its range and the previous locks
elsewhere, and nothing changes for others.
-/
structure Granted (request : FileLock Owner) (locks new : List (FileLock Owner)) : Prop where
  wellFormed : WellFormed new
  own : ∀ type byte, HeldBy new request.flOwner type byte ↔
        if request.flStart ≤ byte ∧ byte ≤ request.flEnd then
          request.flType ≠ .unlck ∧ request.flType = type
        else HeldBy locks request.flOwner type byte
  others : (new.filter fun fl => decide (fl.flOwner ≠ request.flOwner)) =
      locks.filter fun fl => decide (fl.flOwner ≠ request.flOwner)

/-- What a call returns and leaves. -/
structure Served (request : FileLock Owner) (locks : List (FileLock Owner))
    (result : LockReturn × List (FileLock Owner)) : Prop where
  granted : result.1 = .ok → request.flFlags.access = false → Granted request locks result.2
  unchanged : result.1 ≠ .ok ∨ request.flFlags.access = true → result.2 = locks

theorem filter_of_same
    {owner : Owner}
    (same : ∀ fl ∈ locks, fl.flOwner = owner) :
    (locks.filter fun fl => decide (fl.flOwner ≠ owner)) = [] := by
  refine filter_eq_nil_iff.mpr fun fl member => ?_
  simp [same fl member]

section
variable (around : Around request.flOwner locks mine after) (wellFormed : WellFormed locks)
include around wellFormed

/-- The owner's locks are exchanged in the list. -/
theorem Around.granted
    (applied : Applied request mine new) :
    Granted request locks (beforeOwner request.flOwner locks ++ (new ++ after)) := by
  have sameNew (fl : FileLock Owner) (member : fl ∈ new) :
    fl.flOwner = request.flOwner := (applied.held fl member).owned
  have differentBefore (fl : FileLock Owner) (member : fl ∈ beforeOwner request.flOwner locks) :
    fl.flOwner ≠ request.flOwner := (mem_beforeOwner member).2
  have grouped := around.regroup new sameNew
  have same := around.same
  have different := around.different
  have split := around.split
  generalize beforeOwner request.flOwner locks = before at differentBefore grouped split
  subst split
  obtain ⟨orderedBefore, orderedRest, apart⟩ := pairwise_append.mp wellFormed.ordered
  obtain ⟨orderedMine, orderedAfter, apartAfter⟩ := pairwise_append.mp orderedRest
  refine ⟨⟨grouped, ?_, ?_, ?_⟩, ?_, ?_⟩
  · refine pairwise_append.mpr ⟨orderedBefore, pairwise_append.mpr ⟨?_, orderedAfter, ?_⟩, ?_⟩
    · refine (pairwise_map.mp applied.painted.ordered).imp ?_
      exact fun before _ => before
    · intro one isNew other isAfter sameOwner
      exact absurd (sameOwner ▸ sameNew one isNew) (different other isAfter)
    intro one isBefore other member sameOwner
    rcases mem_append.mp member with isNew | isAfter
    · exact absurd (sameOwner.trans (sameNew other isNew)) (differentBefore one isBefore)
    · exact apart one isBefore other (mem_append_right _ isAfter) sameOwner
  · simp only [forall_mem_append]
    exact ⟨fun fl isBefore => wellFormed.inRange fl (by simp [isBefore]),
      fun fl isNew => (applied.held fl isNew).inRange,
      fun fl isAfter => wellFormed.inRange fl (by simp [isAfter])⟩
  · simp only [forall_mem_append]
    exact ⟨fun fl isBefore => wellFormed.locked fl (by simp [isBefore]),
      fun fl isNew => (applied.held fl isNew).locked,
      fun fl isAfter => wellFormed.locked fl (by simp [isAfter])⟩
  · intro type byte
    have paints := applied.painted.paints type byte
    rw [← heldBy_iff_holds sameNew, ← heldBy_iff_holds same] at paints
    simp only [heldBy_append, not_heldBy_of_ne differentBefore,
      not_heldBy_of_ne different, false_or]
    rw [paints]
    split
    · rename_i inside
      simp [inside, or_false]
    · rename_i outside
      simp [outside, false_or]
  · simp only [filter_append, filter_of_same sameNew, filter_of_same same]

/-- What the owner's locks go through, the whole list does. -/
theorem Around.served
    {result : LockReturn × List (FileLock Owner)}
    (noAccess : ¬ request.flFlags.access = true)
    (serves : Serves request mine after result) :
    Served request locks (result.1, beforeOwner request.flOwner locks ++ result.2) := by
  rw [Serves] at serves
  refine ⟨fun isOk _ => ?_, fun failed => ?_⟩
  · rw [if_pos isOk] at serves
    obtain ⟨new, isNew, applied⟩ := serves
    rw [isNew]
    exact around.granted wellFormed applied
  · have notOk := failed.resolve_right noAccess
    rw [if_neg notOk] at serves
    rw [serves, ← around.split]

end

theorem served_posixLockCtx
    (wellFormed : WellFormed locks)
    (call : LockCall Owner) :
    Served call.request locks (posixLockCtx locks call) := by
  rw [posixLockCtx]
  split
  · refine ⟨fun isOk => ?_, fun _ => rfl⟩
    rw [conflictReturn] at isOk
    split at isOk
    · cases isOk
    · split at isOk <;> cases isOk
  split
  · rename_i access
    exact ⟨fun _ noAccess => absurd (access.symm.trans noAccess) (by decide), fun _ => rfl⟩
  rename_i noAccess
  obtain ⟨mine, after, around⟩ := wellFormed.grouped.around call.request.flOwner
  have held (fl : FileLock Owner) (isMine : fl ∈ mine) : Held call.request.flOwner fl :=
    ⟨wellFormed.inRange fl (around.mem_of_mine isMine),
      wellFormed.locked fl (around.mem_of_mine isMine), around.same fl isMine⟩
  have serves :=
    serves_applyRequest call.ranged (around.ordered wellFormed) held (fun fl isHead =>
        around.different fl (mem_of_mem_head? isHead))
      (needsNew call.request && call.newAlloc)
      (needsNew call.request && call.newAlloc2)
  rw [← around.rest] at serves
  exact around.served wellFormed noAccess serves

end

section
variable [DecidableEq Owner]

theorem Granted.heldBy_other
    (granted : Granted request locks new)
    (different : other ≠ request.flOwner)
    (held : HeldBy new other type byte) :
    HeldBy locks other type byte := by
  obtain ⟨fl, member, rfl, isType, inside⟩ := held
  have kept : fl ∈ locks.filter fun fl => decide (fl.flOwner ≠ request.flOwner) := by
    rw [← granted.others]
    exact mem_filter.mpr ⟨member, decide_eq_true different⟩
  exact ⟨fl, (mem_filter.mp kept).1, rfl, isType, inside⟩

/-- A lock not in the way of a request allows it on its bytes. -/
theorem allows_of_no_conflict
    (noConflict : findConflict request locks = none)
    (locking : request.flType ≠ .unlck)
    (inside : request.flStart ≤ byte ∧ byte ≤ request.flEnd)
    (different : other ≠ request.flOwner)
    (held : HeldBy locks other type byte) :
    request.flType ≠ .wrlck ∧ type ≠ .wrlck := by
  obtain ⟨fl, member, rfl, rfl, reaches, within⟩ := held
  rw [findConflict, if_pos locking, List.find?_eq_none] at noConflict
  have allowed := noConflict fl member
  have notSame : posixSameOwner request fl = false := decide_eq_false (Ne.symm different)
  have overlap : locksOverlap request fl = true := by
    rw [locksOverlap, Bool.and_eq_true, decide_eq_true_eq, decide_eq_true_eq]
    omega
  rw [posixLocksConflict, notSame, overlap, locksConflict] at allowed
  constructor
  · intro isWrite
    simp [isWrite] at allowed
  · intro isWrite
    simp [isWrite] at allowed

/-- A granted request without a conflict leaves none. -/
theorem Granted.conflictFree
    (granted : Granted request locks new)
    (noConflict : findConflict request locks = none)
    (free : ConflictFree locks) :
    ConflictFree new := by
  -- The requester against another owner.
  have against (type otherType : LockType) (byte : Int) (other : Owner)
      (different : other ≠ request.flOwner) (own : HeldBy new request.flOwner type byte)
      (held : HeldBy new other otherType byte) : type ≠ .wrlck ∧ otherType ≠ .wrlck := by
    have heldBefore := granted.heldBy_other different held
    rw [granted.own] at own
    split at own
    · rename_i inside
      obtain ⟨locking, rfl⟩ := own
      exact allows_of_no_conflict noConflict locking inside different heldBefore
    · exact free _ _ (Ne.symm different) _ _ _ own heldBefore
  intro one other distinct type otherType byte heldOne heldOther
  by_cases isOne : one = request.flOwner
  · subst isOne
    exact against type otherType byte other (Ne.symm distinct) heldOne heldOther
  by_cases isOther : other = request.flOwner
  · subst isOther
    exact (against otherType type byte one distinct heldOther heldOne).symm
  · exact free one other distinct type otherType byte (granted.heldBy_other isOne heldOne)
      (granted.heldBy_other isOther heldOther)

end

variable [DecidableEq Owner] {flctx : Option (List (FileLock Owner))}

def posixLocks (flctx : Option (List (FileLock Owner))) : List (FileLock Owner) := flctx.getD []

/-- A call on an inode. -/
def LockStep (flctx : Option (List (FileLock Owner))) (call : LockCall Owner)
    (next : Option (List (FileLock Owner))) : Prop :=
  next = (posixLockInode flctx call).2

/-- The locks of an inode that runs keep. -/
structure Consistent (flctx : Option (List (FileLock Owner))) : Prop where
  wellFormed : WellFormed (posixLocks flctx)
  free : ConflictFree (posixLocks flctx)

/-- A call works on the inode's list, or finds none. -/
theorem posixLockInode_cases
    (flctx : Option (List (FileLock Owner)))
    (call : LockCall Owner) :
    (posixLocks flctx = [] ∧ (posixLockInode flctx call).2 = flctx ∧
    ((posixLockInode flctx call).1 = .ok → call.request.flType = .unlck)) ∨
    posixLockInode flctx call = ((posixLockCtx (posixLocks flctx) call).1,
    some (posixLockCtx (posixLocks flctx) call).2) := by
  rw [posixLockInode, locksGetLockContext]
  cases flctx with
  | some locks => exact Or.inr rfl
  | none =>
    by_cases isErase : call.request.flType = .unlck
    · refine Or.inl ⟨rfl, ?_, fun _ => isErase⟩
      simp [isErase]
    cases alloc : call.contextAlloc with
    | true =>
      simp [isErase, posixLocks]
    | false =>
      simp [posixLocks]

theorem granted_nil
    {request : FileLock Owner}
    (isErase : request.flType = .unlck) :
    Granted request [] [] := by
  refine ⟨⟨.nil, .nil, (fun _ member => nomatch member),
    (fun _ member => nomatch member)⟩, fun type byte => ?_, rfl⟩
  simp [HeldBy, isErase]

theorem served_posixLockInode
    (wellFormed : WellFormed (posixLocks flctx))
    (call : LockCall Owner) :
    Served call.request (posixLocks flctx) ((posixLockInode flctx call).1,
    posixLocks (posixLockInode flctx call).2) := by
  rcases posixLockInode_cases flctx call with ⟨none, same, onOk⟩ | isCtx
  · rw [same, none]
    exact ⟨fun isOk _ => granted_nil (onOk isOk), fun _ => rfl⟩
  · rw [isCtx]
    exact served_posixLockCtx wellFormed call

/-- A call leaves a well-formed list. -/
theorem wellFormed_posixLockInode
    (wellFormed : WellFormed (posixLocks flctx))
    (call : LockCall Owner) :
    WellFormed (posixLocks (posixLockInode flctx call).2) := by
  have served := served_posixLockInode wellFormed call
  by_cases changes : (posixLockInode flctx call).1 = .ok ∧ call.request.flFlags.access = false
  · exact (served.granted changes.1 changes.2).wellFormed
  rw [show posixLocks (posixLockInode flctx call).2 = posixLocks flctx from
    served.unchanged (by
      rw [not_and_or, Bool.not_eq_false] at changes
      exact changes)]
  exact wellFormed

/-- A call that changes the list found no conflict. -/
theorem noConflict_of_ok
    {locks : List (FileLock Owner)}
    {call : LockCall Owner}
    (isOk : (posixLockCtx locks call).1 = .ok) :
    findConflict call.request locks = none := by
  rw [posixLockCtx] at isOk
  split at isOk
  · rw [conflictReturn] at isOk
    split at isOk
    · cases isOk
    · split at isOk <;> cases isOk
  · assumption

theorem conflictFree_posixLockInode
    (wellFormed : WellFormed (posixLocks flctx))
    (free : ConflictFree (posixLocks flctx))
    (call : LockCall Owner) :
    ConflictFree (posixLocks (posixLockInode flctx call).2) := by
  rcases posixLockInode_cases flctx call with ⟨_, same, _⟩ | isCtx
  · rw [same]
    exact free
  have served := served_posixLockCtx wellFormed call
  rw [isCtx]
  by_cases changes : (posixLockCtx (posixLocks flctx) call).1 = .ok ∧
    call.request.flFlags.access = false
  · exact (served.granted changes.1 changes.2).conflictFree (noConflict_of_ok changes.1) free
  rw [served.unchanged (by
    rw [not_and_or, Bool.not_eq_false] at changes
    exact changes)]
  exact free

/--
On every well-formed list a call grants its request or changes nothing, and no
run leads from a list without conflicts to a conflict.
-/
theorem posixLockInode_serves
    (wellFormed : WellFormed (posixLocks flctx)) :
    (∀ call, Served call.request (posixLocks flctx)
      ((posixLockInode flctx call).1, posixLocks (posixLockInode flctx call).2)) ∧
    (ConflictFree (posixLocks flctx) →
      ∀ calls final, Run LockStep flctx calls final → ConflictFree (posixLocks final)) := by
  refine ⟨served_posixLockInode wellFormed, ?_⟩
  intro free calls final run
  have consistent : Consistent final := by
    refine run.always (Consistent.mk wellFormed free) ?_
    rintro before call _ ⟨wellFormed, free⟩ rfl
    exact ⟨wellFormed_posixLockInode wellFormed call,
      conflictFree_posixLockInode wellFormed free call⟩
  exact consistent.free

def sampleLock (owner : Nat) (type : LockType) (first last : Int) : FileLock Nat :=
  ⟨owner, 0, ⟨false, false, false, false⟩, type, first, last⟩

/-- A write lock inside a read lock of the same owner. -/
theorem posixLockInode_serves_split :
    let locks := [sampleLock 1 .rdlck 0 99, sampleLock 2 .rdlck 90 95]
    let call : LockCall Nat :=
      ⟨sampleLock 1 .wrlck 10 19, ⟨by decide, by decide, by decide⟩, [], true, true, true⟩
    posixLockInode (some locks) call =
        (.ok, some [sampleLock 1 .rdlck 0 9, sampleLock 1 .wrlck 10 19,
          sampleLock 1 .rdlck 20 99, sampleLock 2 .rdlck 90 95]) ∧ Served call.request locks
        ((posixLockInode (some locks) call).1,
          posixLocks (posixLockInode (some locks) call).2) := by
  refine ⟨by decide +kernel, (@posixLockInode_serves _ _ (some _) ?_).1 _⟩
  refine ⟨@Grouped.group _ 1 [_] [_] (by decide) (by decide)
    (@Grouped.group _ 2 [_] [] (by decide) (by decide) .nil), ?_, ?_, ?_⟩
  · simp [posixLocks, sampleLock]
  · intro fl member
    simp only [posixLocks, Option.getD_some, mem_cons, not_mem_nil, or_false] at member
    rcases member with rfl | rfl
    · exact ⟨by decide, by decide, by decide⟩
    · exact ⟨by decide, by decide, by decide⟩
  · decide

end EchoKernel.PosixLocks
