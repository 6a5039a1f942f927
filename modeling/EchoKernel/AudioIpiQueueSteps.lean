import EchoKernel.AudioIpiQueue

namespace EchoKernel.AudioIpi

open RingQueue Function Option MsgQueue

/-!
# Steps of the calls on the queue

What a step can do to the call's place in the queue, its turn and the
acknowledgement.
-/

section
variable {pc : Pc}

/-- The slot of a call whose message was pushed. -/
def Pc.slot : Pc → Option Nat
  | .outside => none
  | .checked => none
  | .entered slot => some slot
  | .cleaning slot => some slot
  | .waiting slot _ => some slot
  | .waited slot _ _ => some slot
  | .enabled slot _ _ => some slot
  | .decided slot _ => some slot
  | .processing slot => some slot
  | .sending slot => some slot
  | .awaiting slot _ => some slot
  | .ackWaited slot _ _ => some slot
  | .ackEnabled slot _ _ => some slot
  | .ackChecking slot => some slot
  | .ackPairing slot => some slot
  | .ackCopying slot => some slot
  | .ackCopied slot => some slot
  | .ackMissing slot => some slot
  | .popping slot _ => some slot
  | .returned _ => none

/-- The call handles its message as the queue's first one. -/
def Pc.atHead : Pc → Bool
  | .outside => false
  | .checked => false
  | .waiting _ _ => false
  | .waited _ _ _ => false
  | .enabled _ _ _ => false
  | .decided _ _ => false
  | .returned _ => false
  | _ => true

/-- The call is inside of `send_message`. -/
def Pc.inside : Pc → Bool
  | .outside => false
  | .returned _ => false
  | _ => true

/-- The call has yet to look for a left acknowledgement. -/
def Pc.entering : Pc → Bool
  | .entered _ => true
  | .cleaning _ => true
  | _ => false

/-- The message was sent, the acknowledgement not cleared since. -/
def Pc.ackPhase : Pc → Bool
  | .awaiting _ _ => true
  | .ackWaited _ _ _ => true
  | .ackEnabled _ _ _ => true
  | .ackChecking _ => true
  | .ackPairing _ => true
  | .ackCopying _ => true
  | .ackCopied _ => true
  | .ackMissing _ => true
  | _ => false

/-- The acknowledgement was seen but not copied. -/
def Pc.ackSeen : Pc → Bool
  | .ackPairing _ => true
  | .ackCopying _ => true
  | _ => false

theorem Pc.inside_of_slot {slot : Nat} (isSlot : pc.slot = some slot) : pc.inside = true := by
  cases pc <;> first | rfl | cases isSlot

theorem Pc.exists_slot_of_ackPhase
    (phase : pc.ackPhase = true) :
    pc.atHead = true ∧ ∃ slot, pc.slot = some slot := by
  cases pc <;> first | exact ⟨rfl, _, rfl⟩ | cases phase

theorem Pc.exists_slot_of_entering
    (entering : pc.entering = true) :
    pc.atHead = true ∧ ∃ slot, pc.slot = some slot := by
  cases pc <;> first | exact ⟨rfl, _, rfl⟩ | cases entering

theorem Pc.ackPhase_of_ackSeen (seen : pc.ackSeen = true) : pc.ackPhase = true := by
  cases pc <;> first | rfl | cases seen

theorem Pc.not_entering_of_ackPhase (phase : pc.ackPhase = true) : pc.entering = false := by
  cases pc <;> first | rfl | cases phase

end

variable {retval : Int} {before after : Pc}

/-- What a step of a call does to its place. -/
inductive Placement (queue next : MsgQueue) (id : Nat) (before after : Pc) : Prop where
  | kept (slot : Nat) (wasIn : before.slot = some slot) (isIn : after.slot = some slot)
      (ring : next.ring = queue.ring) (head : after.atHead = true →
          before.atHead = true ∨ queue.ring.idxR = slot)
  | pushed (was : before = .checked) (room : queue.ring.toBeFull = false)
      (ring : next.ring = queue.ring.push (some id)) (isIn : after.slot = some queue.ring.idxW)
      (head : after.atHead = queue.ring.isEmpty) (enters : after.entering = queue.ring.isEmpty)
  | refused (was : before = .checked) (ring : next.ring = queue.ring)
      (isOut : after = .returned (-1))
  | popped (slot : Nat) (retval : Int) (was : before = .popping slot retval)
      (ring : next.ring = queue.popMsg.ring) (isOut : after = .returned retval)
  | left (slot : Nat) (retval result : Int) (was : before = .decided slot retval)
      (ring : next.ring = queue.ring) (isOut : after = .returned result)
      (early : retval ≠ 0 ∨ queue.ring.idxR ≠ slot)

/-- What a step of a call says about its turn. -/
def TurnRule (queue : MsgQueue) (choice : Choice) (before : Pc) : Pc → Prop
  | .waited slot tryCnt retval =>
    before = .waiting slot tryCnt ∧ (retval = 0 ∧ queue.turnComes slot = true ∨
        retval ≠ 0 ∧ choice = .signalled)
  | .enabled slot tryCnt retval => before = .waited slot tryCnt retval ∧ queue.enable = true
  | .decided slot result =>
    (∃ tryCnt retval, before = .waited slot tryCnt retval ∧ queue.enable = false ∧ result = 0) ∨
      ∃ tryCnt retval, before = .enabled slot tryCnt retval ∧
          (result = 0 ∧ (queue.ring.idxR = slot ∨ retval = 0) ∨
            retval ≠ 0 ∧ ¬ tryCnt + 1 < maxTurnTries)
  | _ => True

/-- What a step of a call does to the acknowledgement. -/
structure AckRule (queue next : MsgQueue) (id : Nat) (before after : Pc) : Prop where
  stored : next.ipiMsgAck = queue.ipiMsgAck ∨ next.ipiMsgAck = .zero ∧ before.atHead = true
  phase : before.ackPhase = true → after.ackPhase = true ∨ next.ipiMsgAck = .zero
  entering : before.entering = true → after.entering = true ∨ next.ipiMsgAck.magic = 0
  seen : after.ackSeen = true →
      next.ipiMsgAck = queue.ipiMsgAck ∧ before.ackPhase = true ∧ (before.ackSeen = true ∨
          queue.ipiMsgAck.magic = ipiMsgMagicNumber)
  copied :
    next.copied = queue.copied ∨ before.ackSeen = true ∧
        next.copied = (id, queue.ipiMsgAck) :: queue.copied

/-- What a step of a call can do. -/
structure Advanced (queue : MsgQueue) (id : Nat) (choice : Choice) (next : MsgQueue) : Prop where
  others : ∀ other, other ≠ id → next.callers other = queue.callers other
  enable : next.enable = queue.enable
  place : Placement queue next id (queue.callers id).pc (next.callers id).pc
  turn : TurnRule queue choice (queue.callers id).pc (next.callers id).pc
  ack : AckRule queue next id (queue.callers id).pc (next.callers id).pc

variable {queue next : MsgQueue} {id : Nat} {choice : Choice}

theorem advanced_of_update
    {msg : IpiMsg}
    (isBefore : (queue.callers id).pc = before)
    (isNext : next.callers = update queue.callers id ⟨after, msg⟩)
    (enable : next.enable = queue.enable)
    (place : Placement queue next id before after)
    (turn : TurnRule queue choice before after)
    (ack : AckRule queue next id before after) :
    Advanced queue id choice next := by
  have isAfter : (next.callers id).pc = after := by rw [isNext, update_self]
  refine ⟨?_, enable, ?_, ?_, ?_⟩
  · intro other apart
    rw [isNext, update_of_ne apart]
  · rw [isBefore, isAfter]
    exact place
  · rw [isBefore, isAfter]
    exact turn
  · rw [isBefore, isAfter]
    exact ack

/-- A step that leaves the acknowledgement alone. -/
theorem ackRule_of_same (stored : next.ipiMsgAck = queue.ipiMsgAck)
    (copied : next.copied = queue.copied) (phase : before.ackPhase = true → after.ackPhase = true)
    (entering : before.entering = true → after.entering = true ∨ queue.ipiMsgAck.magic = 0) (seen :
    after.ackSeen = true → before.ackPhase = true ∧ (before.ackSeen = true ∨
    queue.ipiMsgAck.magic = ipiMsgMagicNumber)) : AckRule queue next id before after where
  stored := .inl stored
  phase := fun was => .inl (phase was)
  entering := fun was => stored ▸ entering was
  seen := fun isSeen => ⟨stored, seen isSeen⟩
  copied := .inl copied

theorem ackRule_of_cleared (cleared : next.ipiMsgAck = .zero)
    (copied : next.copied = queue.copied) (head : before.atHead = true)
    (notSeen : after.ackSeen = false) : AckRule queue next id before after where
  stored := .inr ⟨cleared, head⟩
  phase := fun _ => .inr cleared
  entering := fun _ => .inr (by rw [cleared]; rfl)
  seen := fun isSeen => absurd (isSeen.symm.trans notSeen) (by decide)
  copied := .inl copied

/-- A call that keeps its slot and ignores the acknowledgement. -/
theorem advanced_goto {slot : Nat} (isBefore : (queue.callers id).pc = before)
    (wasIn : before.slot = some slot) (isIn : after.slot = some slot) (head :
    after.atHead = true → before.atHead = true ∨ queue.ring.idxR = slot)
    (turn : TurnRule queue choice before after)
    (phase : before.ackPhase = true → after.ackPhase = true) (entering : before.entering = true →
    after.entering = true ∨ queue.ipiMsgAck.magic = 0) (seen : after.ackSeen = true →
    before.ackPhase = true ∧ (before.ackSeen = true ∨ queue.ipiMsgAck.magic = ipiMsgMagicNumber)) :
    Advanced queue id choice (queue.goto id after) :=
  advanced_of_update isBefore rfl rfl (.kept slot wasIn isIn rfl head) turn
    (ackRule_of_same rfl rfl phase entering seen)

theorem advanced_pushMsg
    (isBefore : (queue.callers id).pc = .checked) :
    Advanced queue id choice (queue.pushMsg id) := by
  unfold pushMsg
  split
  case isTrue full =>
    exact advanced_of_update isBefore rfl rfl (.refused rfl rfl rfl) trivial
      (ackRule_of_same rfl rfl nofun nofun nofun)
  case isFalse room =>
    have room : queue.ring.toBeFull = false := by simpa using room
    split
    case isTrue empty =>
      exact advanced_of_update isBefore rfl rfl
        (.pushed rfl room rfl rfl empty.symm empty.symm) trivial
        (ackRule_of_same rfl rfl nofun nofun nofun)
    case isFalse waits =>
      have waits : queue.ring.isEmpty = false := by simpa using waits
      exact advanced_of_update isBefore rfl rfl
        (.pushed rfl room rfl rfl waits.symm waits.symm) trivial
        (ackRule_of_same rfl rfl nofun nofun nofun)

/-- The first look at the acknowledgement. -/
theorem advanced_entered
    {slot : Nat}
    (isBefore : (queue.callers id).pc = .entered slot) :
    Advanced queue id choice (queue.goto id (if queue.ipiMsgAck.magic ≠ 0 then .cleaning slot
        else .processing slot)) := by
  split
  case isTrue =>
    exact advanced_goto isBefore rfl rfl (fun _ => .inl rfl) trivial nofun (fun _ => .inl rfl) nofun
  case isFalse clean =>
    exact advanced_goto isBefore rfl rfl (fun _ => .inl rfl) trivial nofun
      (fun _ => .inr (not_not.mp clean)) nofun

theorem advanced_waited
    {slot tryCnt : Nat}
    (isBefore : (queue.callers id).pc = .waited slot tryCnt retval) :
    Advanced queue id choice
      (queue.goto id (if queue.enable = false then .decided slot 0
        else .enabled slot tryCnt retval)) := by
  split
  case isTrue disabled =>
    exact advanced_goto isBefore rfl rfl nofun (.inl ⟨_, _, rfl, disabled, rfl⟩) nofun nofun nofun
  case isFalse enabled =>
    exact advanced_goto isBefore rfl rfl nofun ⟨rfl, by simpa using enabled⟩ nofun nofun nofun

/-- The rest of a turn of the first loop. -/
theorem advanced_enabled
    {slot tryCnt : Nat}
    (isBefore : (queue.callers id).pc = .enabled slot tryCnt retval) :
    Advanced queue id choice (queue.goto id (queue.turnAfterWait slot tryCnt retval)) := by
  unfold turnAfterWait
  split
  case isTrue isFirst =>
    exact advanced_goto isBefore rfl rfl nofun
      (.inr ⟨_, _, rfl, .inl ⟨rfl, .inl isFirst⟩⟩) nofun nofun nofun
  case isFalse =>
    split
    case isTrue isZero =>
      exact advanced_goto isBefore rfl rfl nofun
        (.inr ⟨_, _, rfl, .inl ⟨rfl, .inr isZero⟩⟩) nofun nofun nofun
    case isFalse failed =>
      split
      case isTrue => exact advanced_goto isBefore rfl rfl nofun trivial nofun nofun nofun
      case isFalse last =>
        exact advanced_goto isBefore rfl rfl nofun
          (.inr ⟨_, _, rfl, .inr ⟨failed, last⟩⟩) nofun nofun nofun

theorem advanced_decided
    {slot : Nat}
    (isBefore : (queue.callers id).pc = .decided slot retval) :
    Advanced queue id choice (queue.goto id (queue.afterTurns slot retval)) := by
  unfold afterTurns
  split
  case isTrue failed =>
    exact advanced_of_update isBefore rfl rfl
      (.left slot retval retval rfl rfl rfl (.inl failed)) trivial
      (ackRule_of_same rfl rfl nofun nofun nofun)
  case isFalse =>
    split
    case isTrue isFirst =>
      exact advanced_goto isBefore rfl rfl (fun _ => .inr isFirst) trivial nofun nofun nofun
    case isFalse notFirst =>
      exact advanced_of_update isBefore rfl rfl
        (.left slot retval (-1) rfl rfl rfl (.inr notFirst)) trivial
        (ackRule_of_same rfl rfl nofun nofun nofun)

/-- The branches of `process_message_in_queue`. -/
theorem advanced_processing
    {slot : Nat}
    {msg : IpiMsg}
    (isBefore : (queue.callers id).pc = .processing slot) :
    Advanced queue id choice (queue.goto id (queue.startProcess slot msg)) := by
  unfold startProcess
  split
  case isTrue =>
    split <;>
      exact advanced_goto isBefore rfl rfl (fun _ => .inl rfl) trivial nofun nofun nofun
  case isFalse =>
    exact advanced_goto isBefore rfl rfl (fun _ => .inl rfl) trivial nofun nofun nofun

theorem advanced_sending
    {slot : Nat}
    (isBefore : (queue.callers id).pc = .sending slot) :
    Advanced queue id choice (queue.afterSend id slot retval) := by
  unfold afterSend
  dsimp only
  split
  case isTrue =>
    split <;>
      exact advanced_of_update isBefore rfl rfl (.kept slot rfl rfl rfl fun _ => .inl rfl) trivial
        (ackRule_of_same rfl rfl nofun nofun nofun)
  case isFalse =>
    exact advanced_goto isBefore rfl rfl (fun _ => .inl rfl) trivial nofun nofun nofun

theorem advanced_ackEnabled
    {slot tryCnt : Nat}
    (isBefore : (queue.callers id).pc = .ackEnabled slot tryCnt retval) :
    Advanced queue id choice (queue.goto id (queue.ackAfterWait slot tryCnt retval)) := by
  unfold ackAfterWait
  repeat' split
  all_goals
    exact advanced_goto isBefore rfl rfl (fun _ => .inl rfl) trivial (fun _ => rfl) nofun nofun

/-- The second look at the acknowledgement. -/
theorem advanced_ackChecking
    {slot : Nat}
    (isBefore : (queue.callers id).pc = .ackChecking slot) :
    Advanced queue id choice (queue.goto id
        (if queue.ipiMsgAck.magic ≠ ipiMsgMagicNumber then .ackMissing slot
        else .ackPairing slot)) := by
  split
  case isTrue =>
    exact advanced_goto isBefore rfl rfl (fun _ => .inl rfl) trivial (fun _ => rfl) nofun nofun
  case isFalse isMagic =>
    exact advanced_goto isBefore rfl rfl (fun _ => .inl rfl) trivial
      (fun _ => rfl) nofun (fun _ => ⟨rfl, .inr (not_not.mp isMagic)⟩)

/-- What a step of a call can do. -/
theorem advanced_advance
    (advances : queue.advance id choice = some next) :
    Advanced queue id choice next := by
  unfold advance at advances
  split at advances
  case h_1 isBefore =>
    cases advances
    exact advanced_pushMsg isBefore
  case h_2 isBefore =>
    cases advances
    exact advanced_entered isBefore
  case h_3 slot isBefore | h_19 slot isBefore | h_20 slot isBefore =>
    cases advances
    exact advanced_of_update isBefore rfl rfl (.kept slot rfl rfl rfl fun _ => .inl rfl) trivial
      (ackRule_of_cleared rfl rfl rfl rfl)
  case h_4 isBefore =>
    rw [ite_none_right_eq_some] at advances
    obtain ⟨comes, ⟨⟩⟩ := advances
    exact advanced_goto isBefore rfl rfl nofun ⟨rfl, .inl ⟨rfl, comes⟩⟩ nofun nofun nofun
  case h_5 isBefore =>
    rw [ite_none_left_eq_some] at advances
    obtain ⟨-, ⟨⟩⟩ := advances
    exact advanced_goto isBefore rfl rfl nofun ⟨rfl, .inr ⟨by decide, rfl⟩⟩ nofun nofun nofun
  case h_6 isBefore =>
    cases advances
    exact advanced_waited isBefore
  case h_7 isBefore =>
    cases advances
    exact advanced_enabled isBefore
  case h_8 isBefore =>
    cases advances
    exact advanced_decided isBefore
  case h_9 isBefore =>
    cases advances
    exact advanced_processing isBefore
  case h_10 isBefore =>
    cases advances
    exact advanced_sending isBefore
  case h_11 isBefore =>
    rw [ite_none_right_eq_some] at advances
    obtain ⟨-, ⟨⟩⟩ := advances
    exact advanced_goto isBefore rfl rfl (fun _ => .inl rfl) trivial (fun _ => rfl) nofun nofun
  case h_12 isBefore | h_13 isBefore =>
    rw [ite_none_left_eq_some] at advances
    obtain ⟨-, ⟨⟩⟩ := advances
    exact advanced_goto isBefore rfl rfl (fun _ => .inl rfl) trivial (fun _ => rfl) nofun nofun
  case h_14 isBefore =>
    cases advances
    split <;>
      exact advanced_goto isBefore rfl rfl (fun _ => .inl rfl) trivial (fun _ => rfl) nofun nofun
  case h_15 isBefore =>
    cases advances
    exact advanced_ackEnabled isBefore
  case h_16 isBefore =>
    cases advances
    exact advanced_ackChecking isBefore
  case h_17 isBefore =>
    cases advances
    split
    case isTrue =>
      exact advanced_goto isBefore rfl rfl (fun _ => .inl rfl) trivial
        (fun _ => rfl) nofun (fun _ => ⟨rfl, .inl rfl⟩)
    case isFalse =>
      exact advanced_goto isBefore rfl rfl (fun _ => .inl rfl) trivial (fun _ => rfl) nofun nofun
  case h_18 slot isBefore =>
    cases advances
    exact advanced_of_update isBefore rfl rfl (.kept slot rfl rfl rfl fun _ => .inl rfl) trivial
      ⟨.inl rfl, fun _ => .inl rfl, nofun, nofun, .inr ⟨rfl, rfl⟩⟩
  case h_21 slot retval isBefore =>
    cases advances
    have kept : queue.popMsg.callers = queue.callers ∧ queue.popMsg.enable = queue.enable ∧
        queue.popMsg.ipiMsgAck = queue.ipiMsgAck ∧ queue.popMsg.copied = queue.copied := by
      unfold popMsg
      split <;> exact ⟨rfl, rfl, rfl, rfl⟩
    obtain ⟨callers, enable, ack, copied⟩ := kept
    exact advanced_of_update isBefore (by rw [goto, callers]) enable
      (.popped slot retval rfl rfl rfl) trivial (ackRule_of_same ack copied nofun nofun nofun)
  case h_22 => cases advances

end EchoKernel.AudioIpi
