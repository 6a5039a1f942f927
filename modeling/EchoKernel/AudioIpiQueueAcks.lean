import EchoKernel.AudioIpiQueuePlaced
import EchoKernel.LabelledRun

namespace EchoKernel.AudioIpi

open RingQueue LabelledRun List MsgQueue Pc

/-!
# Acknowledgements and the sends they are for

The one slot for an acknowledgement is matched by scene and message id only.
One that is stored after its call gave up can be taken for that of a later
message. If it is stored while its call waits or while the queue is empty,
every call gets its own.
-/

section
variable (queue : MsgQueue)

/-- Every copied acknowledgement was produced for its call. -/
def Matched : Prop := ∀ pair ∈ queue.copied, pair.2.origin = some pair.1

/-- An acknowledgement is stored while the queue is empty or while its call waits for it. -/
def Event.Timely : Event → Prop
  | .ackStored ack =>
    queue.ring.isEmpty = true ∨ ∃ id, ack.origin = some id ∧ (queue.callers id).pc.ackPhase = true
  | _ => True

/-- A step with an acknowledgement in time. -/
def TimelyStep (event : Event) (next : MsgQueue) : Prop :=
  event.Timely queue ∧ queue.perform event = some next

/--
What the slot holds no call would take, or it is for the call that waits, or
no call waits and the next one clears it.
-/
def SlotOwned : Prop :=
  queue.ipiMsgAck.magic ≠ ipiMsgMagicNumber ∨ (∃ id, queue.ipiMsgAck.origin = some id ∧
      (queue.callers id).pc.ackPhase = true) ∨ queue.ring.isEmpty = true ∨
    ∃ id, (queue.callers id).pc.entering = true

end

/-- What steps with acknowledgements in time preserve. -/
structure Paired (queue : MsgQueue) : Prop where
  placed : Placed queue
  slotOwned : SlotOwned queue
  seen : ∀ id, (queue.callers id).pc.ackSeen = true → queue.ipiMsgAck.origin = some id
  matched : Matched queue

section
variable {queue next : MsgQueue} {id : Nat} {choice : Choice}

theorem paired_createMsgQueue : Paired createMsgQueue :=
  ⟨placed_createMsgQueue, .inl (by decide), nofun, nofun⟩

theorem slotOwned_of_zero (cleared : next.ipiMsgAck = .zero) : SlotOwned next :=
  .inl (by rw [cleared]; decide)

theorem Placed.nonempty
    {slot : Nat}
    (placed : Placed queue)
    (isSlot : (queue.callers id).pc.slot = some slot) :
    queue.ring.isEmpty = false :=
  Ring.nonempty_of_mem (placed.pushed id slot isSlot)

variable (paired : Paired queue)
include paired

/-- A step of a call keeps the owner of the slot. -/
theorem Paired.slotOwned_advanced (advanced : Advanced queue id choice next) : SlotOwned next := by
  have rule := advanced.ack
  rcases rule.stored with same | ⟨cleared, _⟩
  case inr => exact slotOwned_of_zero cleared
  rw [SlotOwned, same]
  rcases paired.slotOwned with noMagic | ⟨owner, isOwner, phase⟩ | empty | ⟨first, enters⟩
  · exact .inl noMagic
  · by_cases isId : owner = id
    · subst isId
      rcases rule.phase phase with still | cleared
      · exact .inr (.inl ⟨owner, isOwner, still⟩)
      · rw [← same]
        exact slotOwned_of_zero cleared
    · exact .inr (.inl ⟨owner, isOwner, by rw [advanced.others owner isId]; exact phase⟩)
  · cases advanced.place with
    | kept slot wasIn _ _ _ => exact absurd (paired.placed.nonempty wasIn) (by simp [empty])
    | pushed _ _ _ _ _ enters => exact .inr (.inr (.inr ⟨id, enters.trans empty⟩))
    | refused _ ring _ =>
      rw [ring]
      exact .inr (.inr (.inl empty))
    | popped slot retval was _ _ | left slot retval result was _ _ _ =>
      have isSlot : (queue.callers id).pc.slot = some slot := by
        rw [was]
        rfl
      exact absurd (paired.placed.nonempty isSlot) (by simp [empty])
  · by_cases isId : first = id
    · subst isId
      rcases rule.entering enters with still | isZero
      · exact .inr (.inr (.inr ⟨first, still⟩))
      · rw [same] at isZero
        exact .inl (by rw [isZero]; decide)
    · exact .inr (.inr (.inr ⟨first, by rw [advanced.others first isId]; exact enters⟩))

/-- A call that sees an acknowledgement sees its own. -/
theorem Paired.origin_of_magic
    (phase : (queue.callers id).pc.ackPhase = true)
    (isMagic : queue.ipiMsgAck.magic = ipiMsgMagicNumber) :
    queue.ipiMsgAck.origin = some id := by
  obtain ⟨atHead, slot, isSlot⟩ := exists_slot_of_ackPhase phase
  rcases paired.slotOwned with noMagic | ⟨owner, isOwner, alsoPhase⟩ | empty | ⟨first, enters⟩
  · exact absurd isMagic noMagic
  · have isId := paired.placed.eq_of_atHead atHead (exists_slot_of_ackPhase alsoPhase).1
    rw [isOwner, isId]
  · exact absurd (paired.placed.nonempty isSlot) (by simp [empty])
  have isId := paired.placed.eq_of_atHead atHead (exists_slot_of_entering enters).1
  rw [isId, not_entering_of_ackPhase phase] at enters
  cases enters

/-- A step of a call keeps what calls have seen. -/
theorem Paired.seen_advanced
    (advanced : Advanced queue id choice next)
    (other : Nat)
    (isSeen : (next.callers other).pc.ackSeen = true) :
    next.ipiMsgAck.origin = some other := by
  have rule := advanced.ack
  by_cases isId : other = id
  · subst isId
    obtain ⟨same, phase, wasSeen | isMagic⟩ := rule.seen isSeen
    · rw [same]
      exact paired.seen other wasSeen
    · rw [same]
      exact paired.origin_of_magic phase isMagic
  · rw [advanced.others other isId] at isSeen
    rcases rule.stored with same | ⟨_, atHead⟩
    · rw [same]
      exact paired.seen other isSeen
    · have alsoHead := (exists_slot_of_ackPhase (ackPhase_of_ackSeen isSeen)).1
      exact absurd (paired.placed.eq_of_atHead atHead alsoHead) isId

/-- A step of a call copies its own acknowledgement only. -/
theorem Paired.matched_advanced (advanced : Advanced queue id choice next) : Matched next := by
  rcases advanced.ack.copied with same | ⟨wasSeen, added⟩
  · rw [Matched, same]
    exact paired.matched
  · rw [Matched, added]
    exact List.forall_mem_cons.mpr ⟨paired.seen id wasSeen, paired.matched⟩

theorem Paired.called (called : Called queue id next) : Paired next := by
  have notNow : ∀ test : Pc → Bool, test .checked = false →
      (∀ retval, test (.returned retval) = false) → test (next.callers id).pc = false := by
    intro test notChecked notReturned
    rcases called.isNow with ⟨isChecked, _⟩ | ⟨retval, isReturned⟩
    · rw [isChecked]
      exact notChecked
    · rw [isReturned]
      exact notReturned retval
  refine ⟨paired.placed.called called, ?_, ?_, ?_⟩
  · rw [SlotOwned, called.ack, called.ring]
    rcases paired.slotOwned with noMagic | ⟨owner, isOwner, phase⟩ | empty | ⟨first, enters⟩
    · exact .inl noMagic
    · have isOther : owner ≠ id := by
        rintro rfl
        rw [called.was] at phase
        cases phase
      exact .inr (.inl ⟨owner, isOwner, by rw [called.others owner isOther]; exact phase⟩)
    · exact .inr (.inr (.inl empty))
    have isOther : first ≠ id := by
      rintro rfl
      rw [called.was] at enters
      cases enters
    exact .inr (.inr (.inr ⟨first, by rw [called.others first isOther]; exact enters⟩))
  · intro other isSeen
    by_cases isId : other = id
    · rw [isId, notNow ackSeen rfl fun _ => rfl] at isSeen
      cases isSeen
    rw [called.others other isId] at isSeen
    rw [called.ack]
    exact paired.seen other isSeen
  · rw [Matched, called.copied]
    exact paired.matched

theorem Paired.stored
    {ack : IpiMsg}
    (timely : (Event.ackStored ack).Timely queue)
    (stores : queue.ackStored ack = some next) :
    Paired next := by
  obtain ⟨_, rfl⟩ := exists_of_ackStored stores
  refine ⟨paired.placed.of_same rfl rfl, ?_, ?_, paired.matched⟩
  · rcases timely with empty | owned
    · exact .inr (.inr (.inl empty))
    · exact .inr (.inl owned)
  intro id isSeen
  obtain ⟨atHead, slot, isSlot⟩ := exists_slot_of_ackPhase (ackPhase_of_ackSeen isSeen)
  rcases timely with empty | ⟨owner, isOwner, phase⟩
  · exact absurd (paired.placed.nonempty isSlot) (by simp [empty])
  · have isId := paired.placed.eq_of_atHead atHead (exists_slot_of_ackPhase phase).1
    exact isOwner.trans (congrArg some isId)

/-- Steps with acknowledgements in time keep the pairs. -/
theorem Paired.step {event : Event} (step : TimelyStep queue event next) : Paired next := by
  obtain ⟨timely, performs⟩ := step
  cases event with
  | call id msg ready direct => exact paired.called (called_call performs)
  | advance id choice =>
    have advanced := advanced_advance performs
    exact ⟨paired.placed.advanced advanced,
      paired.slotOwned_advanced advanced, paired.seen_advanced advanced,
      paired.matched_advanced advanced⟩
  | ackArrives ack =>
    obtain ⟨_, rfl⟩ := exists_of_ackArrives performs
    exact ⟨paired.placed.of_same rfl rfl, paired.slotOwned, paired.seen, paired.matched⟩
  | ackStored ack => exact paired.stored timely performs
  | disable =>
    cases performs
    exact ⟨paired.placed.of_same rfl rfl, paired.slotOwned, paired.seen, paired.matched⟩

end

variable {queue : MsgQueue} {events : List Event}

/--
In a run whose acknowledgements are in time each one that is copied into a
message was produced for the same send.
-/
theorem matched_of_run (run : Run TimelyStep createMsgQueue events queue) : Matched queue :=
  (run.always paired_createMsgQueue (fun _ _ _ paired step => paired.step step)).matched

/-- A message that needs an acknowledgement. -/
def ackedMsg : IpiMsg := ⟨ipiMsgMagicNumber, 0, .needAck, 1, none⟩

/-- The acknowledgement for the first call. -/
def firstAck : IpiMsg := ⟨ipiMsgMagicNumber, 0, .ackBack, 1, some 0⟩

/-- A call that sends its message and begins to wait. -/
def sendEvents (id : Nat) : List Event :=
  [.call id ackedMsg true 0, .advance id .go, .advance id .go,
    .advance id .go, .advance id (.scp 0)]

/-- Ten milliseconds without an acknowledgement. -/
def waitEvents (id : Nat) : List Event := [.advance id .timeout, .advance id .go, .advance id .go]

/-- The first call gives up, and its acknowledgement comes later. -/
def lateAck : List Event :=
  sendEvents 0 ++ (replicate maxAckTries (waitEvents 0)).flatten ++
    [.advance 0 .go, .advance 0 .go, .advance 0 .go] ++ sendEvents 1 ++
    [.ackArrives firstAck, .ackStored firstAck] ++ replicate 6 (.advance 1 .go)

theorem isSome_lateAck : (execute perform createMsgQueue lateAck).isSome := by
  decide +kernel

/-- The state after the second call's copy. -/
def lateQueue : MsgQueue := (execute perform createMsgQueue lateAck).get isSome_lateAck

/-- The second call gets the first one's acknowledgement. -/
theorem not_matched_lateQueue :
    Run (fun queue event next => queue.perform event = some next) createMsgQueue lateAck lateQueue ∧
    lateQueue.copied = [(1, firstAck)] ∧ ¬ Matched lateQueue := by
  have copied : lateQueue.copied = [(1, firstAck)] := by decide +kernel
  refine ⟨?_, copied, ?_⟩
  · exact run_of_execute (fun _ _ _ _ performs => performs) (Option.some_get isSome_lateAck).symm
  intro matched
  have same := matched (1, firstAck) (by rw [copied]; simp)
  revert same
  decide

/-- The acknowledgement for the second call. -/
def secondAck : IpiMsg := ⟨ipiMsgMagicNumber, 0, .ackBack, 1, some 1⟩

/-- The test of whether an acknowledgement is stored in time. -/
def timely (queue : MsgQueue) : Event → Bool
  | .ackStored ack =>
    queue.ring.isEmpty || ack.origin.any fun id => (queue.callers id).pc.ackPhase
  | _ => true

/-- An acknowledgement that passes the test is in time. -/
theorem timely_of_test
    {event : Event}
    (passes : timely queue event = true) :
    event.Timely queue := by
  cases event with
  | ackStored ack => simpa [timely, Event.Timely, Option.any_eq_true] using passes
  | _ => trivial

/-- Two calls at once, whose acknowledgements are copied one after the other. -/
def bothAcked : List Event :=
  sendEvents 0 ++ [.call 1 ackedMsg true 0, .advance 1 .go, .ackArrives firstAck,
      .ackStored firstAck] ++ replicate 8 (.advance 0 .go) ++
    replicate 5 (.advance 1 .go) ++ [.advance 1 (.scp 0), .ackArrives secondAck,
      .ackStored secondAck] ++ replicate 8 (.advance 1 .go)

/-- All acknowledgements of the two calls are in time. -/
theorem isSome_bothAcked :
    (execute (guarded timely perform) createMsgQueue bothAcked).isSome := by
  decide +kernel

/-- The state after both calls have returned. -/
def bothQueue : MsgQueue :=
  (execute (guarded timely perform) createMsgQueue bothAcked).get isSome_bothAcked

/-- Both calls have got their own acknowledgement. -/
theorem matched_of_run_bothQueue :
    bothQueue.copied = [(1, secondAck), (0, firstAck)] ∧ Matched bothQueue := by
  refine ⟨by decide +kernel, matched_of_run (run_of_guarded ?_ (Option.some_get _).symm)⟩
  exact fun before event _ passes performs => ⟨timely_of_test passes, performs⟩

end EchoKernel.AudioIpi
