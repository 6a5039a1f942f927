import EchoKernel.PosixLocksCorrect

namespace EchoKernel.PosixLocks

open LabelledRun List

/-!
# The locks that a run leaves

The requests granted on an inode determine its locks.
-/

variable {Owner : Type} [DecidableEq Owner]

/-- An inode, and the requests that were granted on it. -/
structure History (Owner : Type) where
  flctx : Option (List (FileLock Owner))
  granted : List (FileLock Owner)

/-- The type that the last request of an owner for a byte asked for. -/
def History.last (history : History Owner) (owner : Owner) (byte : Int) : Option LockType :=
  history.granted.foldl (fun last fl =>
    if fl.flOwner = owner ∧ fl.flStart ≤ byte ∧ byte ≤ fl.flEnd then some fl.flType else last) none

/-- A call, which adds its request if that is granted. -/
def HistoryStep (history : History Owner) (call : LockCall Owner) (next : History Owner) : Prop :=
  let result := posixLockInode history.flctx call
  next = ⟨result.2, if result.1 = .ok ∧ call.request.flFlags.access = false then
    history.granted ++ [call.request] else history.granted⟩

/-- The locks are what the requests have left, in their order. -/
structure Recorded (history : History Owner) : Prop where
  wellFormed : WellFormed (posixLocks history.flctx)
  held : ∀ owner type byte, HeldBy (posixLocks history.flctx) owner type byte ↔
    type ≠ .unlck ∧ history.last owner byte = some type

theorem Granted.heldBy_iff
    {request : FileLock Owner}
    {locks new : List (FileLock Owner)}
    (granted : Granted request locks new)
    {owner : Owner}
    {type : LockType}
    {byte : Int} :
    HeldBy new owner type byte ↔
    if request.flOwner = owner ∧ request.flStart ≤ byte ∧ byte ≤ request.flEnd then
      request.flType ≠ .unlck ∧ request.flType = type
    else HeldBy locks owner type byte := by
  by_cases own : request.flOwner = owner
  · subst own
    simp [granted.own]
  rw [if_neg (by tauto), HeldBy, HeldBy]
  refine exists_congr fun fl => ?_
  by_cases isOwner : fl.flOwner = owner
  · have same : fl ∈ new ↔ fl ∈ locks := by
      simpa [isOwner, Ne.symm own] using congrArg (fl ∈ ·) granted.others
    rw [same]
  · simp [isOwner]

/-- An owner has on a byte what its last granted request for it asked for. -/
theorem recorded_of_run
    {calls : List (LockCall Owner)}
    {history : History Owner}
    (run : Run HistoryStep ⟨none, []⟩ calls history) :
    Recorded history := by
  have atStart : Recorded (⟨none, []⟩ : History Owner) :=
    ⟨⟨.nil, .nil, by simp [posixLocks], by simp [posixLocks]⟩,
      by simp [HeldBy, posixLocks, History.last]⟩
  refine run.always atStart ?_
  rintro history call _ ⟨wellFormed, held⟩ rfl
  refine ⟨wellFormed_posixLockInode wellFormed call, fun owner type byte => ?_⟩
  have served := served_posixLockInode wellFormed call
  split
  · rename_i changes
    rw [(served.granted changes.1 changes.2).heldBy_iff, held, History.last, History.last,
      foldl_concat]
    split
    · constructor <;> rintro ⟨locking, ⟨⟩⟩ <;> exact ⟨locking, rfl⟩
    · rfl
  · rename_i refused
    rw [show posixLocks _ = posixLocks history.flctx from served.unchanged (by
      rw [not_and_or, Bool.not_eq_false] at refused
      exact refused)]
    exact held owner type byte

/-- A read lock replaces half of a write lock. -/
theorem recorded_of_run_replaced :
    let write : LockCall Nat :=
      ⟨sampleLock 1 .wrlck 0 99, ⟨by decide, by decide, by decide⟩, [], true, true, true⟩
    let read : LockCall Nat :=
      ⟨sampleLock 1 .rdlck 0 49, ⟨by decide, by decide, by decide⟩, [], true, true, true⟩
    ∃ history, Run HistoryStep ⟨none, []⟩ [write, read] history ∧
      HeldBy (posixLocks history.flctx) 1 .rdlck 7 := by
  intro write read
  have run : Run HistoryStep ⟨none, []⟩ ([] ++ [write] ++ [read]) _ :=
    .after (.after .start rfl) rfl
  exact ⟨_, run, ((recorded_of_run run).held 1 .rdlck 7).mpr (by decide +kernel)⟩

end EchoKernel.PosixLocks
