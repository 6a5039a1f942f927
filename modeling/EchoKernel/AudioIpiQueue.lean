import EchoKernel.RingQueue

namespace EchoKernel.AudioIpi

open RingQueue

/-!
# The message queue of the audio DSP

`audio_ipi_queue.c`. Any number of calls of `send_message` run on one queue,
with the delivery of acknowledgements and `disable_ipi_queue_handler`. A step
is a locked section, an unlocked read of a shared variable, or the return of a
wait.
-/

/-- `audio_ipi_msg_ack_t`. -/
inductive AckType where
  | bypassAck
  | needAck
  | ackBack
  | directSend
  | canceled
  | other (value : Nat)
  deriving Repr, DecidableEq

/--
`struct ipi_msg_t` without what the queue only carries. `origin` is the call
that an acknowledgement of the DSP is for.
-/
structure IpiMsg where
  magic : Nat
  taskScene : Nat
  ackType : AckType
  msgId : Nat
  origin : Option Nat
  deriving Repr, DecidableEq

/-- A message after `memset`. -/
def IpiMsg.zero : IpiMsg := ⟨0, 0, .bypassAck, 0, none⟩

def ipiMsgMagicNumber : Nat := 0x8888

def maxIpiMsgQueueSize : Nat := 16

/-- `k_max_try_cnt` of `send_message`. -/
def maxTurnTries : Nat := 200

/-- `k_max_try_cnt` of `process_message_in_queue`. -/
def maxAckTries : Nat := 300

def erestartsys : Int := -512

def eintr : Int := -4

/-- `check_ack_msg_valid`. -/
def checkAckMsgValid (msg ack : IpiMsg) : Bool :=
  msg.taskScene == ack.taskScene && msg.msgId == ack.msgId

/-- Where a call of `send_message` is. -/
inductive Pc where
  /-- Not called. -/
  | outside
  /-- The queue was enabled and the DSP ready. -/
  | checked
  /-- Pushed into an empty queue. -/
  | entered (slot : Nat)
  /-- Found an acknowledgement in the slot for it. -/
  | cleaning (slot : Nat)
  /-- In `wait_event_interruptible` for its turn. -/
  | waiting (slot tryCnt : Nat)
  /-- The wait has returned. -/
  | waited (slot tryCnt : Nat) (retval : Int)
  /-- The queue was still enabled then. -/
  | enabled (slot tryCnt : Nat) (retval : Int)
  /-- Behind the loop. -/
  | decided (slot : Nat) (retval : Int)
  /-- At the start of `process_message_in_queue`. -/
  | processing (slot : Nat)
  /-- The queue was enabled before `send_message_to_scp`. -/
  | sending (slot : Nat)
  /-- In `wait_event_interruptible_timeout` for the acknowledgement. -/
  | awaiting (slot tryCnt : Nat)
  /-- That wait has returned. -/
  | ackWaited (slot tryCnt : Nat) (retval : Int)
  /-- The queue was still enabled then. -/
  | ackEnabled (slot tryCnt : Nat) (retval : Int)
  /-- Behind the loop. -/
  | ackChecking (slot : Nat)
  /-- An acknowledgement was there. -/
  | ackPairing (slot : Nat)
  /-- It was in pair with the message. -/
  | ackCopying (slot : Nat)
  /-- It has been copied into the message. -/
  | ackCopied (slot : Nat)
  /-- There was none, or it was not in pair. -/
  | ackMissing (slot : Nat)
  /-- Before the message is popped. -/
  | popping (slot : Nat) (retval : Int)
  /-- Returned. -/
  | returned (retval : Int)
  deriving Repr, DecidableEq

/-- A call of `send_message`. -/
structure Caller where
  pc : Pc
  msg : IpiMsg
  deriving Repr, DecidableEq

/--
`struct msg_queue_t` with its calls, by which messages are known; `arriving`
are acknowledgements accepted by `send_message_ack` but not stored, `sent` the
calls whose message the DSP has got and `copied` what was copied into
messages.
-/
structure MsgQueue where
  ring : RingQueue.Ring (Option Nat)
  ipiMsgAck : IpiMsg
  enable : Bool
  callers : Nat → Caller
  arriving : List IpiMsg
  sent : List Nat
  copied : List (Nat × IpiMsg)

/-- `create_msg_queue`. -/
def createMsgQueue : MsgQueue where
  ring := ⟨maxIpiMsgQueueSize, fun _ => none, 0, 0, by decide, by decide⟩
  ipiMsgAck := .zero
  enable := true
  callers := fun _ => ⟨.outside, .zero⟩
  arriving := []
  sent := []
  copied := []

/-- What the surroundings do to a call in a step. -/
inductive Choice where
  /-- The call goes on. -/
  | go
  /-- A signal ends a wait. -/
  | signalled
  /-- The time of a wait is over. -/
  | timeout
  /-- `send_message_to_scp` returns. -/
  | scp (retval : Int)
  deriving Repr, DecidableEq

/-- What may happen next. -/
inductive Event where
  /-- A call of `send_message`. -/
  | call (id : Nat) (msg : IpiMsg) (ready : Bool) (direct : Int)
  /-- A step of a call. -/
  | advance (id : Nat) (choice : Choice)
  /-- A call of `send_message_ack` up to its last check. -/
  | ackArrives (ack : IpiMsg)
  /-- The copy in `send_message_ack`. -/
  | ackStored (ack : IpiMsg)
  /-- `disable_ipi_queue_handler`. -/
  | disable
  deriving Repr, DecidableEq

namespace MsgQueue

variable (queue : MsgQueue)

section
variable (slot id : Nat)

/-- A call moves on. -/
def goto (pc : Pc) : MsgQueue :=
  { queue with callers := Function.update queue.callers id ⟨pc, (queue.callers id).msg⟩ }

/-- A call's message is overwritten and the call moves on. -/
def update (id : Nat) (pc : Pc) (msg : IpiMsg) : MsgQueue :=
  { queue with callers := Function.update queue.callers id ⟨pc, msg⟩ }

/-- `send_message` up to the lock. -/
def call (msg : IpiMsg) (ready : Bool) (direct : Int) : Option MsgQueue :=
  if (queue.callers id).pc ≠ .outside then none
  else if msg.ackType = .directSend then some (queue.update id (.returned direct) msg)
  else if queue.enable = false then some (queue.update id (.returned (-1)) msg)
  else if ready = false then some (queue.update id (.returned (-1)) msg)
  else some (queue.update id .checked msg)

/-- `push_msg` under the lock; in an empty queue the message is first. -/
def pushMsg : MsgQueue :=
  if queue.ring.toBeFull then queue.goto id (.returned (-1))
  else if queue.ring.isEmpty then
    { queue with ring := queue.ring.push (some id) }.goto id (.entered queue.ring.idxW)
  else { queue with ring := queue.ring.push (some id) }.goto id (.waiting queue.ring.idxW 0)

/-- `pop_msg` under the lock. -/
def popMsg : MsgQueue :=
  if queue.ring.isEmpty then queue
  else { queue with ring := queue.ring.pop }

/-- The condition of the wait for the turn. -/
def turnComes : Bool := queue.ring.idxR == slot || !queue.enable

/-- The condition of the wait for the acknowledgement. -/
def ackComes : Bool := queue.ipiMsgAck.magic == ipiMsgMagicNumber || !queue.enable

/-- The rest of a turn of the first loop, the queue being enabled. -/
def turnAfterWait (slot tryCnt : Nat) (retval : Int) : Pc :=
  if queue.ring.idxR = slot then .decided slot 0
  else if retval = 0 then .decided slot 0
  else if tryCnt + 1 < maxTurnTries then .waiting slot (tryCnt + 1)
  else .decided slot eintr

/-- What follows the first loop. -/
def afterTurns (retval : Int) : Pc :=
  if retval ≠ 0 then .returned retval
  else if queue.ring.idxR = slot then .processing slot
  else .returned (-1)

/-- The branches of `process_message_in_queue`. -/
def startProcess (msg : IpiMsg) : Pc :=
  if msg.ackType = .bypassAck ∨ msg.ackType = .needAck then
    if queue.enable = false then .popping slot 0 else .sending slot
  else .popping slot (-1)

/-- `send_message_to_scp` returns. -/
def afterSend (id slot : Nat) (retval : Int) : MsgQueue :=
  let msg := (queue.callers id).msg
  if msg.ackType = .needAck then
    if retval ≠ 0 then queue.update id (.popping slot retval) { msg with ackType := .canceled }
    else { queue with sent := id :: queue.sent }.goto id (.awaiting slot 0)
  else queue.goto id (.popping slot retval)

/-- The rest of a turn of the second loop, the queue being enabled. -/
def ackAfterWait (slot tryCnt : Nat) (retval : Int) : Pc :=
  if queue.ipiMsgAck.magic = ipiMsgMagicNumber then .ackChecking slot
  else if 0 < retval then .ackChecking slot
  else if tryCnt + 1 < maxAckTries then .awaiting slot (tryCnt + 1)
  else .ackChecking slot

/-- The acknowledgement's slot is cleared and the call moves on. -/
def clearAck (pc : Pc) : MsgQueue := { queue with ipiMsgAck := .zero }.goto id pc

/-- The acknowledgement is copied into the message. -/
def copyAck (id slot : Nat) : MsgQueue :=
  { queue with copied := (id, queue.ipiMsgAck) :: queue.copied }.update id
    (.ackCopied slot) queue.ipiMsgAck

/-- A step of a call; none when it has no such step. -/
def advance (choice : Choice) : Option MsgQueue :=
  match (queue.callers id).pc, choice with
  | .checked, .go => some (queue.pushMsg id)
  | .entered slot, .go =>
    some (queue.goto id (if queue.ipiMsgAck.magic ≠ 0 then .cleaning slot else .processing slot))
  | .cleaning slot, .go => some (queue.clearAck id (.processing slot))
  | .waiting slot tryCnt, .go =>
    if queue.turnComes slot then some (queue.goto id (.waited slot tryCnt 0))
    else none
  | .waiting slot tryCnt, .signalled =>
    if queue.turnComes slot then none
    else some (queue.goto id (.waited slot tryCnt erestartsys))
  | .waited slot tryCnt retval, .go =>
    some (queue.goto id (if queue.enable = false then .decided slot 0
        else .enabled slot tryCnt retval))
  | .enabled slot tryCnt retval, .go =>
    some (queue.goto id (queue.turnAfterWait slot tryCnt retval))
  | .decided slot retval, .go => some (queue.goto id (queue.afterTurns slot retval))
  | .processing slot, .go => some (queue.goto id (queue.startProcess slot (queue.callers id).msg))
  | .sending slot, .scp retval => some (queue.afterSend id slot retval)
  | .awaiting slot tryCnt, .go =>
    if queue.ackComes then some (queue.goto id (.ackWaited slot tryCnt 1))
    else none
  | .awaiting slot tryCnt, .timeout =>
    if queue.ackComes then none
    else some (queue.goto id (.ackWaited slot tryCnt 0))
  | .awaiting slot tryCnt, .signalled =>
    if queue.ackComes then none
    else some (queue.goto id (.ackWaited slot tryCnt erestartsys))
  | .ackWaited slot tryCnt retval, .go =>
    some (queue.goto id (if queue.enable = false then .ackChecking slot
        else .ackEnabled slot tryCnt retval))
  | .ackEnabled slot tryCnt retval, .go =>
    some (queue.goto id (queue.ackAfterWait slot tryCnt retval))
  | .ackChecking slot, .go =>
    some (queue.goto id (if queue.ipiMsgAck.magic ≠ ipiMsgMagicNumber then .ackMissing slot
        else .ackPairing slot))
  | .ackPairing slot, .go =>
    some (queue.goto id (if checkAckMsgValid (queue.callers id).msg queue.ipiMsgAck then
          .ackCopying slot
        else .ackMissing slot))
  | .ackCopying slot, .go => some (queue.copyAck id slot)
  | .ackCopied slot, .go => some (queue.clearAck id (.popping slot 0))
  | .ackMissing slot, .go => some (queue.clearAck id (.popping slot (-1)))
  | .popping _ retval, .go => some (queue.popMsg.goto id (.returned retval))
  | _, _ => none

end

/-- `send_message_ack` up to its last check, for a message the DSP has got. -/
def ackArrives (ack : IpiMsg) : Option MsgQueue :=
  match ack.origin with
  | none => none
  | some id =>
    if id ∉ queue.sent then none
    else if ack.ackType ≠ .ackBack ∨ queue.enable = false then some queue
    else some { queue with arriving := ack :: queue.arriving }

/-- The copy in `send_message_ack`. -/
def ackStored (ack : IpiMsg) : Option MsgQueue :=
  if ack ∈ queue.arriving then
    some { queue with
        ipiMsgAck := ack
        arriving := queue.arriving.erase ack }
  else none

/-- An event; none when it cannot happen. -/
def perform : Event → Option MsgQueue
  | .call id msg ready direct => queue.call id msg ready direct
  | .advance id choice => queue.advance id choice
  | .ackArrives ack => queue.ackArrives ack
  | .ackStored ack => queue.ackStored ack
  | .disable => some { queue with enable := false }

end MsgQueue

end EchoKernel.AudioIpi
