import EchoKernel.Errno
import Mathlib.Data.List.Basic

namespace EchoKernel.PosixLocks

/-!
# POSIX locks of an inode

`posix_lock_inode` of `locks.c`. The passed locks and those that are left form
a zipper, so a pointer to a lock is its position.
-/

variable {Owner : Type} [DecidableEq Owner]

/-- The type of a lock. -/
inductive LockType where
  | rdlck
  | wrlck
  | unlck
  deriving Repr, DecidableEq

/-- The flags of a lock that are read. -/
structure LockFlags where
  sleep : Bool
  access : Bool
  existsFlag : Bool
  ofdlck : Bool
  deriving Repr, DecidableEq

/-- `struct file_lock`. -/
structure FileLock (Owner : Type) where
  flOwner : Owner
  flPid : Nat
  flFlags : LockFlags
  flType : LockType
  flStart : Int
  flEnd : Int
  deriving Repr, DecidableEq

def offsetMax : Int := 2 ^ 63 - 1

/-- A value of type `loff_t`. -/
def loff (value : Int) : Int := value.bmod (2 ^ 64)

/-- The range of a lock or a request. -/
structure InRange {Owner : Type} (fl : FileLock Owner) : Prop where
  start : 0 ≤ fl.flStart
  order : fl.flStart ≤ fl.flEnd
  stop : fl.flEnd ≤ offsetMax

section
variable (fl1 fl2 : FileLock Owner) (callerFl sysFl : FileLock Owner)
  (blockedHash : List (FileLock Owner × FileLock Owner))

/-- `posix_same_owner`. -/
def posixSameOwner : Bool := decide (fl1.flOwner = fl2.flOwner)

/-- `locks_overlap`. -/
def locksOverlap : Bool :=
  decide (fl2.flStart ≤ fl1.flEnd) && decide (fl1.flStart ≤ fl2.flEnd)

/-- `locks_conflict`. -/
def locksConflict : Bool :=
  if sysFl.flType = .wrlck then true
  else if callerFl.flType = .wrlck then true
  else false

/-- `posix_locks_conflict`. -/
def posixLocksConflict : Bool :=
  if posixSameOwner callerFl sysFl then false
  else if ¬ locksOverlap callerFl sysFl then false
  else locksConflict callerFl sysFl

def maxDeadlkIterations : Nat := 10

/-- `what_owner_is_waiting_for`; a waiter comes with its blocker. -/
def whatOwnerIsWaitingFor (blockFl : FileLock Owner) : Option (FileLock Owner) :=
  (blockedHash.find? fun entry => posixSameOwner entry.1 blockFl).map Prod.snd

/-- The loop of `posix_locks_deadlock`, over the rounds left. -/
def followWaiters (blockedHash : List (FileLock Owner × FileLock Owner))
    (callerFl : FileLock Owner) : Nat → FileLock Owner → Bool
  | 0, _ => false
  | left + 1, blockFl =>
    match whatOwnerIsWaitingFor blockedHash blockFl with
    | none => false
    | some next =>
      if posixSameOwner callerFl next then true
      else followWaiters blockedHash callerFl left next

/-- `posix_locks_deadlock`. -/
def posixLocksDeadlock (callerFl blockFl : FileLock Owner) : Bool :=
  if callerFl.flFlags.ofdlck then false
  else followWaiters blockedHash callerFl (maxDeadlkIterations + 1) blockFl

end

/--
The variables of `posix_lock_inode` in the loop over the owner's locks. `done`
has the locks before `fl`; `requestAt` is the position of `request` when it
points to one of them.
-/
structure Walk (Owner : Type) where
  done : List (FileLock Owner)
  request : FileLock Owner
  requestAt : Option Nat
  added : Bool
  newFl : Bool
  left : Option Nat
  right : Option Nat
  deriving Repr, DecidableEq

/-- How the loop goes on after a lock. -/
inductive Verdict (Owner : Type) where
  | next (walk : Walk Owner)
  | stop (walk : Walk Owner)
  | fail (walk : Walk Owner)
  deriving Repr, DecidableEq

section
variable (walk : Walk Owner) (fl : FileLock Owner)

def Walk.keep : Walk Owner := { walk with done := walk.done ++ [fl] }

/-- The range of `*request` is written. -/
def Walk.setRequest (flStart flEnd : Int) : Walk Owner :=
  let request := { walk.request with flStart := flStart, flEnd := flEnd }
  { walk with
    request := request
    done :=
      match walk.requestAt with
      | some place => walk.done.set place request
      | none => walk.done }

def mergedStart (fl request : FileLock Owner) : Int :=
  if request.flStart < fl.flStart then request.flStart else fl.flStart

def mergedEnd (fl request : FileLock Owner) : Int :=
  if fl.flEnd < request.flEnd then request.flEnd else fl.flEnd

/-- Two locks of one type become one. -/
def Walk.merge : Walk Owner :=
  let flStart := mergedStart fl walk.request
  let flEnd := mergedEnd fl walk.request
  let merged := { fl with flStart := flStart, flEnd := flEnd }
  let walk := walk.setRequest flStart flEnd
  if walk.added then walk
  else
    { walk with
      done := walk.done ++ [merged]
      request := merged
      requestAt := some walk.done.length
      added := true }

/-- The new lock takes the place of an old one. -/
def Walk.replace : Walk Owner :=
  { walk with
    done := walk.done ++ [walk.request]
    requestAt := some walk.done.length
    newFl := false
    added := true }

/-- A lock of the same type. -/
def processSame : Verdict Owner :=
  if fl.flEnd < loff (walk.request.flStart - 1) then .next (walk.keep fl)
  else if walk.request.flEnd < loff (fl.flStart - 1) then .stop walk
  else .next (walk.merge fl)

/-- The loop's part for another type, with an overlap. -/
def processOverlap : Verdict Owner :=
  if walk.request.flEnd < fl.flEnd then .stop { walk with right := some walk.done.length }
  else if walk.request.flStart ≤ fl.flStart then
    if walk.added then .next walk
    else if ¬ walk.newFl then .fail walk
    else .next walk.replace
  else .next (walk.keep fl)

/-- A lock of another type. -/
def processOther : Verdict Owner :=
  if fl.flEnd < walk.request.flStart then .next (walk.keep fl)
  else if walk.request.flEnd < fl.flStart then .stop walk
  else
    processOverlap { walk with
        added := walk.added || decide (walk.request.flType = .unlck)
        left :=
          if fl.flStart < walk.request.flStart then some walk.done.length
          else walk.left } fl

/-- The body of the loop for a lock of the owner. -/
def processLock : Verdict Owner :=
  if walk.request.flType = fl.flType then processSame walk fl
  else processOther walk fl

/-- The loop over the locks of the owner; true when it fails. -/
def processLocks : Walk Owner → List (FileLock Owner) → Walk Owner × List (FileLock Owner) × Bool
  | walk, [] => (walk, [], false)
  | walk, fl :: rest =>
    if ¬ posixSameOwner walk.request fl then (walk, fl :: rest, false)
    else
      match processLock walk fl with
      | .next after => processLocks after rest
      | .stop after => (after, fl :: rest, false)
      | .fail after => (after, fl :: rest, true)

/-- How `posix_lock_inode` returns. -/
inductive LockReturn where
  | ok
  | deferred
  | error (errno : Errno)
  deriving Repr, DecidableEq

/-- The end of the left lock before the request. -/
def cutLeft (request fl : FileLock Owner) : FileLock Owner :=
  { fl with flEnd := loff (request.flStart - 1) }

/-- The start of the right lock after the request. -/
def cutRight (request fl : FileLock Owner) : FileLock Owner :=
  { fl with flStart := loff (request.flEnd + 1) }

/-- The passed locks with a shorter left lock. -/
def Walk.doneCut : List (FileLock Owner) :=
  match walk.left with
  | some place => walk.done.modify place (cutLeft walk.request)
  | none => walk.done

/-- Left and right locks are cut, with the inserted one between. -/
def Walk.split (inserted rest : List (FileLock Owner)) : List (FileLock Owner) :=
  match walk.right, rest with
  | some _, right :: others =>
    if walk.left = walk.right then
      -- The second new lock is a copy of the right one.
      walk.done ++ [cutLeft walk.request right] ++ inserted ++ cutRight walk.request right :: others
    else walk.doneCut ++ inserted ++ cutRight walk.request right :: others
  | _, _ => walk.doneCut ++ inserted ++ rest

/-- What follows the loop. -/
def Walk.finish (newFl2 : Bool)
    (rest : List (FileLock Owner)) : LockReturn × List (FileLock Owner) :=
  if walk.right.isSome ∧ walk.left = walk.right ∧ ¬ newFl2 then (.error .enolck, walk.done ++ rest)
  else if walk.added then (.ok, walk.split [] rest)
  else if walk.request.flType = .unlck then
    (if walk.request.flFlags.existsFlag then .error .enoent else .ok, walk.done ++ rest)
  else if ¬ walk.newFl then (.error .enolck, walk.done ++ rest)
  else (.ok, walk.split [walk.request] rest)

end

/-- The request is applied to its owner's locks and those behind. -/
def applyRequest (newFl newFl2 : Bool) (request : FileLock Owner)
    (locks : List (FileLock Owner)) : LockReturn × List (FileLock Owner) :=
  match processLocks ⟨[], request, none, false, newFl, none, none⟩ locks with
  | (walk, rest, true) => (.error .enolck, walk.done ++ rest)
  | (walk, rest, false) => walk.finish newFl2 rest

/-- A call, with the waiters of all inodes and which of its allocations succeed. -/
structure LockCall (Owner : Type) where
  request : FileLock Owner
  ranged : InRange request
  blockedHash : List (FileLock Owner × FileLock Owner)
  contextAlloc : Bool
  newAlloc : Bool
  newAlloc2 : Bool

/-- `locks_get_lock_context`, for the list of POSIX locks. -/
def locksGetLockContext (flctx : Option (List (FileLock Owner))) (flType : LockType)
    (alloc : Bool) : Option (List (FileLock Owner)) :=
  if flctx.isSome ∨ flType = .unlck then flctx
  else if alloc then some []
  else none

/-- Looking for a conflict and unlocking all need no new lock. -/
def needsNew (request : FileLock Owner) : Bool :=
  !request.flFlags.access && (decide (request.flType ≠ .unlck) || decide (request.flStart ≠ 0) ||
      decide (request.flEnd ≠ offsetMax))

/-- The first lock that is in the way of the request. -/
def findConflict (request : FileLock Owner)
    (locks : List (FileLock Owner)) : Option (FileLock Owner) :=
  if request.flType ≠ .unlck then locks.find? (posixLocksConflict request)
  else none

/-- What a request that is in conflict returns. -/
def conflictReturn (call : LockCall Owner) (fl : FileLock Owner) : LockReturn :=
  if ¬ call.request.flFlags.sleep then .error .eagain
  else if posixLocksDeadlock call.blockedHash call.request fl then .error .edeadlk
  else .deferred

/-- `posix_lock_inode` with the locks of the inode. -/
def posixLockCtx (locks : List (FileLock Owner))
    (call : LockCall Owner) : LockReturn × List (FileLock Owner) :=
  match findConflict call.request locks with
  | some fl => (conflictReturn call fl, locks)
  | none =>
    if call.request.flFlags.access then (.ok, locks)
    else
      let others := fun fl => !posixSameOwner call.request fl
      let result :=
        applyRequest (needsNew call.request && call.newAlloc)
          (needsNew call.request && call.newAlloc2) call.request (locks.dropWhile others)
      (result.1, locks.takeWhile others ++ result.2)

/-- `posix_lock_inode`. -/
def posixLockInode (flctx : Option (List (FileLock Owner))) (call : LockCall Owner) :
    LockReturn × Option (List (FileLock Owner)) :=
  match locksGetLockContext flctx call.request.flType call.contextAlloc with
  | none => (if call.request.flType = .unlck then .ok else .error .enomem, flctx)
  | some locks =>
    let result := posixLockCtx locks call
    (result.1, some result.2)

end EchoKernel.PosixLocks
