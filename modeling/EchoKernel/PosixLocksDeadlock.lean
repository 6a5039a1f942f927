import EchoKernel.LabelledRun
import EchoKernel.PosixLocks
import Mathlib.Logic.Relation
import Mathlib.Data.List.Nodup

namespace EchoKernel.PosixLocks

open LabelledRun List Relation TransGen

/-!
# Waiting owners

The waiting requests, with the locks they wait for, are in `blocked_hash`. A
request that would close a cycle is refused while `posix_locks_deadlock`
follows the chain of waiters to its end.
-/

variable {Inode Owner : Type} [DecidableEq Owner]

/-- An entry of `blocked_hash`: a waiter and its blocker. -/
abbrev Waiters (Owner : Type) := List (FileLock Owner × FileLock Owner)

/-- The locks of all inodes and the waiting requests. -/
structure LockSystem (Inode Owner : Type) where
  flctx : Inode → Option (List (FileLock Owner))
  blockedHash : Waiters Owner

/-- A call for an inode, or the end of some requests' waiting. -/
inductive LockEvent (Inode Owner : Type) where
  | call (inode : Inode) (call : LockCall Owner)
  | wake (waits : FileLock Owner × FileLock Owner → Bool)

/-- An owner waits for another one. -/
def WaitsFor (blockedHash : Waiters Owner) (waiter owner : Owner) : Prop :=
  ∃ entry ∈ blockedHash, entry.1.flOwner = waiter ∧ entry.2.flOwner = owner

/-- No owner waits for itself. -/
def Acyclic (blockedHash : Waiters Owner) : Prop :=
  ∀ owner, ¬ TransGen (WaitsFor blockedHash) owner owner

/-- The lock at the end of a chain of waiters. -/
def followed (blockedHash : Waiters Owner) : Nat → FileLock Owner → Option (FileLock Owner)
  | 0, fl => some fl
  | count + 1, fl => (whatOwnerIsWaitingFor blockedHash fl).bind (followed blockedHash count)

namespace LockSystem

variable (system : LockSystem Inode Owner)

/-- The lock that is in the way of a call. -/
def blocker (inode : Inode) (call : LockCall Owner) : Option (FileLock Owner) :=
  findConflict call.request ((system.flctx inode).getD [])

/-- `posix_lock_inode` with the waiters of the system. -/
def result (inode : Inode) (call : LockCall Owner) : LockReturn × Option (List (FileLock Owner)) :=
  posixLockInode (system.flctx inode) { call with blockedHash := system.blockedHash }

/-- The waiters after a call, with `__locks_insert_block`. -/
def insertBlock (inode : Inode) (call : LockCall Owner) : Waiters Owner :=
  match (system.result inode call).1, system.blocker inode call with
  | .deferred, some fl =>
    if fl.flFlags.ofdlck then system.blockedHash else (call.request, fl) :: system.blockedHash
  | _, _ => system.blockedHash

/-- A step. A waiting owner makes no call, and no request is for `FL_OFDLCK`. -/
def step [DecidableEq Inode] : LockEvent Inode Owner → Option (LockSystem Inode Owner)
  | .call inode call =>
    if call.request.flFlags.ofdlck = false ∧
        ∀ entry ∈ system.blockedHash, entry.1.flOwner ≠ call.request.flOwner then
      some ⟨Function.update system.flctx inode (system.result inode call).2,
        system.insertBlock inode call⟩
    else none
  | .wake waits => some { system with blockedHash := system.blockedHash.filter waits }

/-- The chain of waiters is followed to its end. -/
def Short : LockEvent Inode Owner → Prop
  | .call inode call => ∀ fl, system.blocker inode call = some fl →
      followed system.blockedHash (maxDeadlkIterations + 2) fl = none
  | .wake _ => True

end LockSystem

/-- A step with a chain of waiters short enough. -/
def ShortStep [DecidableEq Inode] (system : LockSystem Inode Owner) (event : LockEvent Inode Owner)
    (next : LockSystem Inode Owner) : Prop :=
  system.step event = some next ∧ system.Short event

/-- Owners wait at most once, and none for itself. -/
structure Sound (blockedHash : Waiters Owner) : Prop where
  single : (blockedHash.map fun entry => entry.1.flOwner).Nodup
  acyclic : Acyclic blockedHash

section
variable {blockedHash : Waiters Owner}

theorem whatOwnerIsWaitingFor_eq
    {entry : FileLock Owner × FileLock Owner}
    {fl : FileLock Owner}
    (single : (blockedHash.map fun entry => entry.1.flOwner).Nodup)
    (member : entry ∈ blockedHash)
    (same : entry.1.flOwner = fl.flOwner) :
    whatOwnerIsWaitingFor blockedHash fl = some entry.2 := by
  rw [whatOwnerIsWaitingFor]
  cases found : blockedHash.find? fun entry => posixSameOwner entry.1 fl with
  | none =>
    rw [find?_eq_none] at found
    exact absurd (decide_eq_true same) (found entry member)
  | some other =>
    have isOwner : other.1.flOwner = fl.flOwner := by simpa [posixSameOwner] using find?_some found
    rw [inj_on_of_nodup_map single (mem_of_find?_eq_some found) member (isOwner.trans same.symm)]
    rfl

/-- A chain followed to its end without the caller never meets it. -/
theorem not_path_of_followWaiters
    {callerFl fl : FileLock Owner}
    {count : Nat}
    (single : (blockedHash.map fun entry => entry.1.flOwner).Nodup)
    (unmet : followWaiters blockedHash callerFl count fl = false)
    (ended : followed blockedHash (count + 1) fl = none) :
    ¬ TransGen (WaitsFor blockedHash) fl.flOwner callerFl.flOwner := by
  intro path
  induction count generalizing fl with
  | zero =>
    obtain ⟨_, ⟨entry, member, same, rfl⟩, _⟩ := head'_iff.mp path
    rw [followed, whatOwnerIsWaitingFor_eq single member same] at ended
    cases ended
  | succ count inductionHypothesis =>
    obtain ⟨_, ⟨entry, member, same, rfl⟩, rest⟩ := head'_iff.mp path
    have next := whatOwnerIsWaitingFor_eq single member same
    rw [followed, next] at ended
    simp only [followWaiters, next] at unmet
    split at unmet
    case isTrue => cases unmet
    case isFalse differs =>
      rcases reflTransGen_iff_eq_or_transGen.mp rest with isCaller | path
      · exact differs (decide_eq_true isCaller)
      · exact inductionHypothesis unmet ended path

/-- A path with a new waiter is an old one, or goes on from its blocker. -/
theorem path_cons
    {request fl : FileLock Owner}
    {first last : Owner}
    (path : TransGen (WaitsFor ((request, fl) :: blockedHash)) first last) :
    TransGen (WaitsFor blockedHash) first last ∨
    ReflTransGen (WaitsFor blockedHash) first request.flOwner ∧
    ReflTransGen (WaitsFor blockedHash) fl.flOwner last := by
  have isEdge {waiter owner : Owner} (edge : WaitsFor ((request, fl) :: blockedHash) waiter owner) :
      WaitsFor blockedHash waiter owner ∨ waiter = request.flOwner ∧ owner = fl.flOwner := by
    obtain ⟨entry, member, rfl, rfl⟩ := edge
    rcases mem_cons.mp member with rfl | isOld
    · exact .inr ⟨rfl, rfl⟩
    · exact .inl ⟨entry, isOld, rfl, rfl⟩
  induction path with
  | single edge =>
    rcases isEdge edge with edge | ⟨rfl, rfl⟩
    · exact .inl (.single edge)
    · exact .inr ⟨.refl, .refl⟩
  | tail _ edge inductionHypothesis =>
    rcases isEdge edge with edge | ⟨rfl, rfl⟩
    · exact inductionHypothesis.imp (·.tail edge) fun through => ⟨through.1, through.2.tail edge⟩
    · exact .inr ⟨inductionHypothesis.elim (·.to_reflTransGen) (·.1), .refl⟩

theorem Sound.cons
    (sound : Sound blockedHash)
    {request fl : FileLock Owner}
    (notWaiting : ∀ entry ∈ blockedHash, entry.1.flOwner ≠ request.flOwner)
    (noPath : ¬ ReflTransGen (WaitsFor blockedHash) fl.flOwner request.flOwner) :
    Sound ((request, fl) :: blockedHash) := by
  constructor
  · rw [map_cons, nodup_cons, mem_map]
    exact ⟨fun ⟨entry, member, same⟩ => notWaiting entry member same, sound.single⟩
  intro owner cycle
  rcases path_cons cycle with old | ⟨before, after⟩
  · exact sound.acyclic owner old
  · exact noPath (after.trans before)

theorem Sound.filter
    (sound : Sound blockedHash)
    (waits : FileLock Owner × FileLock Owner → Bool) :
    Sound (blockedHash.filter waits) := by
  refine ⟨sound.single.sublist (filter_sublist.map _), fun owner cycle => ?_⟩
  refine sound.acyclic owner (mono ?_ _ _ cycle)
  rintro waiter other ⟨entry, member, same⟩
  exact ⟨entry, (mem_filter.mp member).1, same⟩

end

section
variable {system next : LockSystem Inode Owner} {inode : Inode} {call : LockCall Owner}
variable {fl : FileLock Owner}

theorem result_of_blocker
    (isBlocker : system.blocker inode call = some fl) :
    (system.result inode call).1 =
      conflictReturn { call with blockedHash := system.blockedHash } fl := by
  rw [LockSystem.blocker] at isBlocker
  rw [LockSystem.result]
  cases isLocks : system.flctx inode with
  | none =>
    rw [isLocks] at isBlocker
    simp [findConflict] at isBlocker
  | some locks =>
    rw [isLocks] at isBlocker
    change findConflict call.request locks = some fl at isBlocker
    simp [posixLockInode, locksGetLockContext, posixLockCtx, isBlocker]

section
variable (sound : Sound system.blockedHash) (notOfd : call.request.flFlags.ofdlck = false)
include sound notOfd

/-- A call that is not refused closes no cycle. -/
theorem not_path_of_not_deadlock
    (isBlocker : system.blocker inode call = some fl)
    (short : system.Short (.call inode call))
    (unmet : posixLocksDeadlock system.blockedHash call.request fl = false) :
    ¬ ReflTransGen (WaitsFor system.blockedHash) fl.flOwner call.request.flOwner := by
  simp only [posixLocksDeadlock, notOfd] at unmet
  rw [reflTransGen_iff_eq_or_transGen, not_or]
  refine ⟨?_, not_path_of_followWaiters sound.single unmet (short fl isBlocker)⟩
  rw [LockSystem.blocker, findConflict] at isBlocker
  split at isBlocker
  case isTrue =>
    have conflict := find?_some isBlocker
    intro same
    simp [posixLocksConflict, posixSameOwner, same] at conflict
  case isFalse => cases isBlocker

theorem Sound.insertBlock
    (notWaiting : ∀ entry ∈ system.blockedHash, entry.1.flOwner ≠ call.request.flOwner)
    (short : system.Short (.call inode call)) :
    Sound (system.insertBlock inode call) := by
  rw [LockSystem.insertBlock]
  split
  case h_1 fl isDeferred isBlocker =>
    split
    case isTrue => exact sound
    case isFalse =>
      refine sound.cons notWaiting (not_path_of_not_deadlock sound notOfd isBlocker short ?_)
      rw [result_of_blocker isBlocker, conflictReturn] at isDeferred
      split at isDeferred
      case isTrue => cases isDeferred
      case isFalse =>
        split at isDeferred
        case isTrue => cases isDeferred
        case isFalse notDeadlock => exact Bool.eq_false_iff.mpr notDeadlock
  case h_2 => exact sound

end

theorem Sound.step
    [DecidableEq Inode]
    {event : LockEvent Inode Owner}
    (sound : Sound system.blockedHash)
    (taken : ShortStep system event next) :
    Sound next.blockedHash := by
  obtain ⟨steps, short⟩ := taken
  cases event with
  | call inode call =>
    rw [LockSystem.step] at steps
    split at steps
    case isTrue admitted =>
      cases steps
      exact sound.insertBlock admitted.1 admitted.2 short
    case isFalse => cases steps
  | wake waits =>
    cases steps
    exact sound.filter waits

end

/-- A call of an owner for all of an inode. -/
def wholeCall (owner : Nat) : LockCall Nat :=
  ⟨⟨owner, 0, ⟨true, false, false, false⟩, .wrlck, 0, offsetMax⟩,
    ⟨Int.le_refl _, (by decide : 0 ≤ offsetMax), Int.le_refl _⟩, [], true, true, true⟩

/-- Nobody waits for itself, and closing a cycle is refused. -/
theorem acyclic_of_run
    [DecidableEq Inode]
    {initial final : LockSystem Inode Owner}
    {events : List (LockEvent Inode Owner)}
    (noWaiter : initial.blockedHash = [])
    (run : Run ShortStep initial events final) :
    Acyclic final.blockedHash ∧
    ∀ inode call fl,
      call.request.flFlags.ofdlck = false → call.request.flFlags.sleep = true →
      final.Short (.call inode call) → final.blocker inode call = some fl →
      TransGen (WaitsFor final.blockedHash) fl.flOwner call.request.flOwner →
      (final.result inode call).1 = .error .edeadlk := by
  have atStart : Sound initial.blockedHash := by
    rw [noWaiter]
    refine ⟨nodup_nil, fun owner cycle => ?_⟩
    obtain ⟨_, ⟨entry, member, _⟩, _⟩ := head'_iff.mp cycle
    cases member
  have sound : Sound final.blockedHash :=
    @Run.always _ _ _ _ _ _ (fun system => Sound system.blockedHash) atStart
      (fun _ _ _ before taken => before.step taken) run
  refine ⟨sound.acyclic, ?_⟩
  intro inode call fl notOfd sleeps short isBlocker path
  have deadlock : posixLocksDeadlock final.blockedHash call.request fl = true := by
    by_contra unmet
    exact not_path_of_not_deadlock sound notOfd isBlocker short (Bool.eq_false_iff.mpr unmet)
      path.to_reflTransGen
  simp [result_of_blocker isBlocker, conflictReturn, sleeps, deadlock]

/-- Three owners lock an inode each; two of them wait for the next one. -/
def chainEvents : List (LockEvent Nat Nat) :=
  [.call 0 (wholeCall 0), .call 1 (wholeCall 1), .call 2 (wholeCall 2), .call 2 (wholeCall 1),
    .call 1 (wholeCall 0)]

/-- The test of whether the chain of waiters is followed to its end. -/
def short (system : LockSystem Nat Nat) : LockEvent Nat Nat → Bool
  | .call inode call => (system.blocker inode call).all fun fl =>
      (followed system.blockedHash (maxDeadlkIterations + 2) fl).isNone
  | .wake _ => true

/-- What passes the test is short. -/
theorem short_of_test
    {system : LockSystem Nat Nat}
    {event : LockEvent Nat Nat}
    (passes : short system event = true) :
    system.Short event := by
  cases event with
  | call inode call =>
    intro fl isBlocker
    simpa [short, isBlocker] using passes
  | wake waits => trivial

/-- The waiters after the three owners' calls. -/
theorem waiters_chainEvents :
    ((execute (guarded short fun system event => system.step event)
      ⟨fun _ => none, []⟩ chainEvents).map
      fun final => final.blockedHash) =
      some [((wholeCall 0).request, (wholeCall 1).request),
        ((wholeCall 1).request, (wholeCall 2).request)] := by
  decide +kernel

/-- Two owners wait, and the third one may not wait for the first. -/
theorem acyclic_of_run_chain :
    ∃ final : LockSystem Nat Nat,
      final.blockedHash = [((wholeCall 0).request, (wholeCall 1).request),
        ((wholeCall 1).request, (wholeCall 2).request)] ∧
      Acyclic final.blockedHash ∧ (final.result 0 (wholeCall 2)).1 = .error .edeadlk := by
  obtain ⟨final, executes, isHash⟩ := Option.map_eq_some_iff.mp waiters_chainEvents
  have run : Run ShortStep ⟨fun _ => none, []⟩ chainEvents final :=
    run_of_guarded (fun _ _ _ passes steps => ⟨steps, short_of_test passes⟩) executes
  obtain ⟨acyclic, refuses⟩ := acyclic_of_run rfl run
  have isBlocker : final.blocker 0 (wholeCall 2) = some (wholeCall 0).request := by
    have blocks : ((execute (guarded short fun system event => system.step event)
        ⟨fun _ => none, []⟩ chainEvents).bind
        fun final => final.blocker 0 (wholeCall 2)) = some (wholeCall 0).request := by
      decide +kernel
    rwa [executes] at blocks
  refine ⟨final, isHash, acyclic, refuses 0 (wholeCall 2) _ rfl rfl ?_ isBlocker ?_⟩
  · intro fl isFl
    rw [isBlocker, Option.some.injEq] at isFl
    subst isFl
    rw [isHash]
    decide
  · rw [isHash]
    exact .head ⟨_, .head _, rfl, rfl⟩ (.single ⟨_, .tail _ (.head _), rfl, rfl⟩)

/-- Thirteen owners lock an inode each and wait for the next one's. -/
def ringEvents : List (LockEvent Nat Nat) :=
  (range 13).map (fun owner => .call owner (wholeCall owner)) ++
    (range 13).map fun turn => .call ((13 - turn) % 13) (wholeCall (12 - turn))

/-- A chain of twelve waiters is not followed, and a cycle is closed. -/
theorem not_acyclic_ring :
    ∃ final : LockSystem Nat Nat,
    Run (fun before event after => before.step event = some after) ⟨fun _ => none, []⟩ ringEvents
    final ∧ ¬ Acyclic final.blockedHash := by
  have waiters : ((execute (fun before event => LockSystem.step before event)
      ⟨fun _ => none, []⟩ ringEvents).map fun final =>
      final.blockedHash.map fun entry => (entry.1.flOwner, entry.2.flOwner)) =
      some ((range 13).map fun owner => (owner, (owner + 1) % 13)) := by
    decide +kernel
  obtain ⟨final, executes, isHash⟩ := Option.map_eq_some_iff.mp waiters
  refine ⟨final, run_of_execute (fun _ _ _ _ taken => taken) executes, ?_⟩
  have edge {owner : Nat} (few : owner < 13) :
      WaitsFor final.blockedHash owner ((owner + 1) % 13) := by
    have member : (owner, (owner + 1) % 13) ∈
        final.blockedHash.map fun entry => (entry.1.flOwner, entry.2.flOwner) := by
      rw [isHash]
      exact mem_map_of_mem (mem_range.mpr few)
    obtain ⟨entry, isEntry, same⟩ := mem_map.mp member
    exact ⟨entry, isEntry, congrArg Prod.fst same, congrArg Prod.snd same⟩
  have path {owner : Nat} (few : owner < 13) :
      TransGen (WaitsFor final.blockedHash) 0 ((owner + 1) % 13) := by
    induction owner with
    | zero => exact .single (edge few)
    | succ owner inductionHypothesis =>
      have before := inductionHypothesis (by omega)
      rw [Nat.mod_eq_of_lt (by omega)] at before
      exact before.tail (edge few)
  exact fun acyclic => acyclic 0 (path (by decide : 12 < 13))

end EchoKernel.PosixLocks
