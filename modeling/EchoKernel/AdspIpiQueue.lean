import EchoKernel.RingQueue

namespace EchoKernel.AdspIpi

open RingQueue

/-!
# The message queue to the ADSP

`adsp_ipi_queue.c`. Calls of `scp_send_msg_to_queue` push messages, one thread
handles them, and `scp_flush_msg_queue` empties the queue. A step is a locked
section, an unlocked read, the return of a wait, or a call of
`scp_process_msg_func`.
-/

/-- `struct scp_msg_t`; the length counts bytes. -/
structure ScpMsg where
  ipiId : Nat
  buf : List (BitVec 8)
  deriving Repr, DecidableEq

/-- `struct scp_queue_element_t`; the pushes are counted by `number`. -/
structure ScpQueueElement where
  msg : ScpMsg
  waitInThread : Bool
  signalArrival : Bool
  sendRetval : Int
  queueCounter : Nat
  number : Nat
  deriving Repr, DecidableEq

/-- A message with the number of its push. -/
def ScpQueueElement.tagged (element : ScpQueueElement) : Nat × ScpMsg :=
  (element.number, element.msg)

def maxScpMsgNumInQueue : Nat := 16

def scpMsgBufferSize : Nat := 272

/-- `k_max_try_cnt` of both wait loops. -/
def maxTries : Nat := 20

def efault : Int := -14

def eoverflow : Int := -75

def eintr : Int := -4

def erestartsys : Int := -512

/-- Where a call of `scp_send_msg_to_queue` is. -/
inductive SenderPc where
  /-- Not called. -/
  | outside
  /-- The queue was enabled. -/
  | checked (waits : Bool)
  /-- In `wait_event_interruptible_timeout`. -/
  | waiting (idxMsg counter tryCnt : Nat)
  /-- The wait has returned. -/
  | waited (idxMsg counter tryCnt : Nat) (retval : Int)
  /-- Behind the loop. -/
  | finishing (idxMsg counter : Nat) (retval : Int)
  /-- Returned. -/
  | returned (retval : Int)
  deriving Repr, DecidableEq

/-- A call of `scp_send_msg_to_queue`. -/
structure Sender where
  pc : SenderPc
  msg : ScpMsg
  deriving Repr, DecidableEq

/-- Where `scp_process_msg_thread` is. -/
inductive ThreadPc where
  /-- At the start of the loop. -/
  | idle
  /-- In `wait_event_interruptible` on an empty queue. -/
  | waiting (tryCnt : Nat)
  /-- Before `scp_front_msg`. -/
  | fronting
  /-- Before `scp_process_msg_func`. -/
  | holding (idxMsg : Nat)
  /-- In `scp_process_msg_func`. -/
  | processing (idxMsg : Nat)
  /-- Before it notifies the sender. -/
  | handled (idxMsg : Nat) (retval : Int)
  /-- Before `scp_pop_msg`. -/
  | popping
  deriving Repr, DecidableEq

/--
`struct scp_msg_queue_t` with what runs on it. The pushed messages, those
passed to `scp_process_msg_func` and those that were removed are kept with the
numbers of their pushes.
-/
structure ScpMsgQueue where
  ring : RingQueue.Ring ScpQueueElement
  queueCounter : Nat
  enable : Bool
  thread : ThreadPc
  senders : Nat → Sender
  flushing : Nat
  pushed : List (Nat × ScpMsg)
  processed : List (Nat × ScpMsg)
  popped : List (Nat × ScpMsg)
  flushed : List (Nat × ScpMsg)

/-- The elements after `scp_init_single_msg_queue`. -/
def blankElement : ScpQueueElement := ⟨⟨0, []⟩, false, false, 0, 0, 0⟩

/-- `scp_init_single_msg_queue`. -/
def initSingleMsgQueue : ScpMsgQueue where
  ring := ⟨maxScpMsgNumInQueue, fun _ => blankElement, 0, 0, by decide, by decide⟩
  queueCounter := 0
  enable := true
  thread := .idle
  senders := fun _ => ⟨.outside, ⟨0, []⟩⟩
  flushing := 0
  pushed := []
  processed := []
  popped := []
  flushed := []

/-- What the surroundings do in a step. -/
inductive Choice where
  | go
  | signalled
  | timeout
  | returns (retval : Int)
  deriving Repr, DecidableEq

/-- What may happen next. -/
inductive Event where
  /-- A call of `scp_send_msg_to_queue`, which may wait. -/
  | call (id : Nat) (msg : ScpMsg) (waits : Bool)
  /-- A step of such a call. -/
  | send (id : Nat) (choice : Choice)
  /-- A step of the thread. -/
  | thread (choice : Choice)
  /-- `scp_flush_msg_queue` disables the queue. -/
  | flushDisables
  /-- `scp_flush_msg_queue` empties the queue. -/
  | flushEmpties
  deriving Repr, DecidableEq

namespace ScpMsgQueue

variable (queue : ScpMsgQueue)

/-- A sender moves on. -/
def goto (id : Nat) (pc : SenderPc) : ScpMsgQueue :=
  { queue with senders := Function.update queue.senders id ⟨pc, (queue.senders id).msg⟩ }

/-- `scp_send_msg_to_queue` up to the lock. -/
def call (id : Nat) (msg : ScpMsg) (waits : Bool) : Option ScpMsgQueue :=
  if (queue.senders id).pc ≠ .outside then none
  else
    let pc : SenderPc :=
      if scpMsgBufferSize < msg.buf.length then .returned efault
      else if queue.enable = false then .returned (-1)
      else .checked waits
    some { queue with senders := Function.update queue.senders id ⟨pc, msg⟩ }

/-- The next number, of 32 bits. -/
def nextCounter (counter : Nat) : Nat := if counter = 0xffffffff then 0 else counter + 1

/-- The element that `scp_push_msg` writes. -/
def newElement (msg : ScpMsg) (waits : Bool) : ScpQueueElement :=
  ⟨msg, waits, false, 0, queue.queueCounter, queue.pushed.length⟩

/-- `scp_push_msg` under the lock. -/
def pushMsg (msg : ScpMsg) (waits : Bool) : ScpMsgQueue :=
  { queue with
    ring := queue.ring.push (queue.newElement msg waits)
    queueCounter := nextCounter queue.queueCounter
    pushed := queue.pushed ++ [(queue.pushed.length, msg)] }

/-- The push of a call, and whether it waits then. -/
def push (id : Nat) (waits : Bool) : ScpMsgQueue :=
  if queue.ring.toBeFull then queue.goto id (.returned eoverflow)
  else
    (queue.pushMsg (queue.senders id).msg waits).goto id
      (if waits then .waiting queue.ring.idxW queue.queueCounter 0
      else .returned 0)

/-- The condition of the wait of a call. -/
def signalComes (idxMsg : Nat) : Bool := (queue.ring.element idxMsg).signalArrival || !queue.enable

/-- The rest of a turn of the loop. -/
def afterWait (idxMsg counter tryCnt : Nat) (retval : Int) : SenderPc :=
  if queue.enable = false then .finishing idxMsg counter (-1)
  else if 0 < retval then .finishing idxMsg counter 0
  else if retval = 0 then .finishing idxMsg counter 0
  else if tryCnt + 1 < maxTries then .waiting idxMsg counter (tryCnt + 1)
  else .finishing idxMsg counter eintr

/-- The result of a call under the element's lock. -/
def finish (id idxMsg counter : Nat) (retval : Int) : ScpMsgQueue :=
  let element := queue.ring.element idxMsg
  if element.queueCounter = counter then
    { queue with
      ring := queue.ring.store idxMsg { element with waitInThread := false } }
      |>.goto id (.returned (if element.signalArrival then element.sendRetval else retval))
  else queue.goto id (.returned retval)

/-- A step of a call; none when it has no such step. -/
def send (id : Nat) (choice : Choice) : Option ScpMsgQueue :=
  match (queue.senders id).pc, choice with
  | .checked waits, .go => some (queue.push id waits)
  | .waiting idxMsg counter tryCnt, .go =>
    if queue.signalComes idxMsg then some (queue.goto id (.waited idxMsg counter tryCnt 1))
    else none
  | .waiting idxMsg counter tryCnt, .timeout =>
    if queue.signalComes idxMsg then none
    else some (queue.goto id (.waited idxMsg counter tryCnt 0))
  | .waiting idxMsg counter tryCnt, .signalled =>
    if queue.signalComes idxMsg then none
    else some (queue.goto id (.waited idxMsg counter tryCnt erestartsys))
  | .waited idxMsg counter tryCnt retval, .go =>
    some (queue.goto id (queue.afterWait idxMsg counter tryCnt retval))
  | .finishing idxMsg counter retval, .go => some (queue.finish id idxMsg counter retval)
  | _, _ => none

/-- The thread notifies the sender under the element's lock. -/
def notify (idxMsg : Nat) (retval : Int) : ScpMsgQueue :=
  let element := queue.ring.element idxMsg
  if element.waitInThread then
    { queue with
      ring := queue.ring.store idxMsg { element with sendRetval := retval, signalArrival := true } }
  else queue

/-- `scp_pop_msg` of the thread. -/
def popMsg : ScpMsgQueue :=
  if queue.ring.isEmpty then queue
  else
    { queue with
      ring := queue.ring.pop
      popped := queue.popped ++ [(queue.ring.element queue.ring.idxR).tagged] }

/-- A step of the thread, if it has such a step. -/
def stepThread (choice : Choice) : Option ScpMsgQueue :=
  match queue.thread, choice with
  | .idle, .go => some { queue with thread := if queue.ring.isEmpty then .waiting 0 else .fronting }
  | .waiting _, .go =>
    if queue.ring.isEmpty then none
    else some { queue with thread := .fronting }
  | .waiting tryCnt, .signalled =>
    if queue.ring.isEmpty then
      some { queue with
          thread :=
            if tryCnt + 1 < maxTries then .waiting (tryCnt + 1)
            else .idle }
    else none
  | .fronting, .go =>
    some { queue with
        thread :=
          if queue.ring.isEmpty then .idle
          else .holding queue.ring.idxR }
  | .holding idxMsg, .go =>
    some { queue with
        thread := .processing idxMsg
        processed := queue.processed ++ [(queue.ring.element idxMsg).tagged] }
  | .processing idxMsg, .returns retval => some { queue with thread := .handled idxMsg retval }
  | .handled idxMsg retval, .go => some { queue.notify idxMsg retval with thread := .popping }
  | .popping, .go => some { queue.popMsg with thread := .idle }
  | _, _ => none

/-- The loop of `scp_flush_msg_queue` under the lock. -/
def flushEmpties : Option ScpMsgQueue :=
  if queue.flushing = 0 then none
  else
    some { queue with
        ring := queue.ring.drain queue.ring.size
        flushing := queue.flushing - 1
        flushed := queue.flushed ++ queue.ring.contents ScpQueueElement.tagged }

/-- An event; none when it cannot happen. -/
def perform : Event → Option ScpMsgQueue
  | .call id msg waits => queue.call id msg waits
  | .send id choice => queue.send id choice
  | .thread choice => queue.stepThread choice
  | .flushDisables => some { queue with enable := false, flushing := queue.flushing + 1 }
  | .flushEmpties => queue.flushEmpties

end ScpMsgQueue

end EchoKernel.AdspIpi
