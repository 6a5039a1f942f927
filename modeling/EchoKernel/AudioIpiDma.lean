import EchoKernel.AudioRingbufDeque
import EchoKernel.LabelledRun
import EchoKernel.RingQueue

namespace EchoKernel.HalDma

open CircularWindow LabelledRun RingQueue Ringbuf List Bool

/-!
# Messages with data from the DSP to the HAL

How `audio_ipi_dma.c` queues messages for the HAL: the messages in a ring of
slots, their data in a ring buffer. Both stay in step unless a message is
accepted whose data the ring buffer or the reader refuses.
-/

def audioIpiDma : BitVec 8 := 2

def audioIpiLayerToHal : BitVec 4 := 0

/--
`struct ipi_msg_t` with its `dma_info`. The DSP sends the type and the layer,
so they need not be enumerators.
-/
structure HalMsg where
  taskScene : BitVec 8
  targetLayer : BitVec 4
  dataType : BitVec 8
  msgId : BitVec 16
  rwIdx : Nat
  dataSize : Nat
  deriving Repr, DecidableEq

def sizeofIpiMsg : Nat := 272

def maxDspDmaWriteSize : Nat := 0x10000

def maxScpMsgNumInQueue : Nat := 64

def efault : Int := -14

def eoverflow : Int := -75

/-- `tmp_buf_d2k` after `audio_ipi_dma_read_region`. -/
structure RegionRead where
  retval : Int
  tmpBufD2k : List (BitVec 8)
  sized : tmpBufD2k.length = maxDspDmaWriteSize

/--
`struct hal_dma_queue_t`. A slot also has the data that came with its message,
and `tmpBufK2h` is what follows the message in that buffer.
-/
structure HalDmaQueue where
  ring : RingQueue.Ring (HalMsg × List (BitVec 8))
  dmaData : AudioRingbuf
  tmpBufK2h : List (BitVec 8)

def zeroMsg : HalMsg := ⟨0, 0, 0, 0, 0, 0⟩

/-- `hal_dma_init_msg_queue`. -/
def halDmaInitMsgQueue (vmalloc : Vmalloc) (size : Nat) : HalDmaQueue where
  ring := ⟨maxScpMsgNumInQueue, fun _ => (zeroMsg, []), 0, 0, by decide, by decide⟩
  dmaData := .fresh vmalloc size
  tmpBufK2h := vmalloc.bytes (maxDspDmaWriteSize - sizeofIpiMsg)

namespace HalDmaQueue

variable (queue : HalDmaQueue)

/-- `hal_dma_push`. -/
def halDmaPush (msg : HalMsg) (region : RegionRead) : HalDmaQueue × Int :=
  if queue.ring.toBeFull then (queue, eoverflow)
  else if maxDspDmaWriteSize < msg.dataSize then (queue, eoverflow)
  else if region.retval ≠ 0 then (queue, region.retval)
  else
    let data := slice region.tmpBufD2k 0 msg.dataSize
    ({ queue with
        ring := queue.ring.push (msg, data)
        dmaData := queue.dmaData.copyFromLinearImpl (some data) }, 0)

/-- The checks of `audio_ipi_dma_msg_to_hal`. -/
def msgErr (msg : HalMsg) : Bool :=
  msg.dataType != audioIpiDma || msg.targetLayer != audioIpiLayerToHal || msg.dataSize == 0

/-- `audio_ipi_dma_msg_to_hal`. -/
def audioIpiDmaMsgToHal (msg : HalMsg) (region : RegionRead) : HalDmaQueue × Int :=
  if msgErr msg then (queue, efault) else queue.halDmaPush msg region

/-- `hal_dma_pop`. -/
def halDmaPop : HalDmaQueue :=
  if queue.ring.isEmpty then queue
  else { queue with ring := queue.ring.pop }

/-- The oldest message. -/
def frontMsg : HalMsg := (queue.ring.element queue.ring.idxR).1

/-- `hal_dma_front` of a nonempty queue; it may pop on an error. -/
def halDmaFront : HalDmaQueue × Bool :=
  let msg := queue.frontMsg
  if maxDspDmaWriteSize < msg.dataSize + sizeofIpiMsg then (queue.halDmaPop, false)
  else
    let taken := queue.dmaData.copyToLinear true msg.dataSize
    ({ queue with
        dmaData := taken.1
        tmpBufK2h := splice queue.tmpBufK2h 0 (taken.2.getD []) }, true)

/--
`audio_ipi_dma_msg_read`, with the message and data that the HAL gets. A call
without a message waits for one until it is interrupted.
-/
def audioIpiDmaMsgRead (hasBuf : Bool)
    (count : Nat) : HalDmaQueue × Option (HalMsg × List (BitVec 8)) :=
  if hasBuf = false ∨ count = 0 then (queue, none)
  else if queue.ring.isEmpty then (queue, none)
  else
    let msg := queue.frontMsg
    let front := queue.halDmaFront
    if front.2 = false then (front.1, none)
    else if count < sizeofIpiMsg + msg.dataSize then (front.1.halDmaPop, none)
    else (front.1.halDmaPop, some (msg, slice front.1.tmpBufK2h 0 msg.dataSize))

end HalDmaQueue

/-- The calls of the driver. -/
inductive Call where
  | msgToHal (msg : HalMsg) (region : RegionRead)
  | msgRead (hasBuf : Bool) (count : Nat)

def Call.perform (queue : HalDmaQueue) : Call → HalDmaQueue
  | .msgToHal msg region => (queue.audioIpiDmaMsgToHal msg region).1
  | .msgRead hasBuf count => (queue.audioIpiDmaMsgRead hasBuf count).1

section
variable {queue : HalDmaQueue} {msg : HalMsg} {region : RegionRead} {deque : List (BitVec 8)}

/-- The data that comes with a message. -/
def RegionRead.data (region : RegionRead) (msg : HalMsg) : List (BitVec 8) :=
  slice region.tmpBufD2k 0 msg.dataSize

theorem RegionRead.length_data
    (few : msg.dataSize ≤ maxDspDmaWriteSize) :
    (region.data msg).length = msg.dataSize := by
  rw [RegionRead.data, slice, drop_zero, length_take, region.sized, Nat.min_eq_left few]

/-- None of the checks of a push refuses a message. -/
structure Accepted (queue : HalDmaQueue) (msg : HalMsg) (region : RegionRead) : Prop where
  noErr : HalDmaQueue.msgErr msg = false
  room : queue.ring.toBeFull = false
  few : msg.dataSize ≤ maxDspDmaWriteSize
  regionRead : region.retval = 0

theorem Accepted.positive (accepted : Accepted queue msg region) : 0 < msg.dataSize := by
  have noErr := accepted.noErr
  simp only [HalDmaQueue.msgErr, or_eq_false_iff, beq_eq_false_iff_ne] at noErr
  exact Nat.pos_of_ne_zero noErr.2

/-- A message is queued with its data, or nothing changes. -/
theorem audioIpiDmaMsgToHal_cases :
    Accepted queue msg region ∧
        (queue.audioIpiDmaMsgToHal msg region).1 = { queue with
            ring := queue.ring.push (msg, region.data msg)
            dmaData := queue.dmaData.copyFromLinearImpl (some (region.data msg)) } ∨
      (queue.audioIpiDmaMsgToHal msg region).1 = queue := by
  unfold HalDmaQueue.audioIpiDmaMsgToHal HalDmaQueue.halDmaPush
  split
  case isTrue => exact .inr rfl
  case isFalse noErr =>
    split
    case isTrue => exact .inr rfl
    case isFalse room =>
      split
      case isTrue => exact .inr rfl
      case isFalse few =>
        split
        case isTrue => exact .inr rfl
        case isFalse regionRead =>
          refine .inl ⟨⟨?_, ?_, ?_, ?_⟩, rfl⟩
          · exact eq_false_iff.mpr noErr
          · exact eq_false_iff.mpr room
          · exact Nat.le_of_not_lt few
          · exact not_not.mp regionRead

/-- The state after a message was accepted. -/
theorem Accepted.pushed
    (accepted : Accepted queue msg region) :
    (queue.audioIpiDmaMsgToHal msg region).1 = { queue with
        ring := queue.ring.push (msg, region.data msg)
        dmaData := queue.dmaData.copyFromLinearImpl (some (region.data msg)) } := by
  have few := accepted.few
  unfold HalDmaQueue.audioIpiDmaMsgToHal HalDmaQueue.halDmaPush
  rw [accepted.noErr, accepted.room, accepted.regionRead]
  simp only [false_eq_true, if_false]
  rw [if_neg (by omega)]
  rfl

/-- The data of a fitting message is added to the ring buffer. -/
theorem Accepted.represents
    (accepted : Accepted queue msg region)
    (fits : msg.dataSize ≤ queue.dmaData.freeSpace)
    (represents : Represents queue.dmaData deque) :
    Represents (queue.dmaData.copyFromLinearImpl (some (region.data msg)))
    (deque ++ region.data msg) ∧
    (queue.dmaData.copyFromLinearImpl (some (region.data msg))).size = queue.dmaData.size := by
  have length := region.length_data accepted.few
  have positive := accepted.positive
  rw [represents.valid.copyFromLinearImpl_eq (by omega) (by omega)]
  obtain ⟨added, _, size⟩ :=
    @Represents.append _ _ (region.data msg) represents (by omega) (by omega)
  exact ⟨added, size⟩

section
variable (fits : queue.frontMsg.dataSize + sizeofIpiMsg ≤ maxDspDmaWriteSize)
  (positive : 0 < queue.frontMsg.dataSize) (enough : queue.frontMsg.dataSize ≤ deque.length)
  (represents : Represents queue.dmaData deque)
include fits positive enough represents

/-- A message that fits gets the first bytes there are. -/
theorem halDmaFront_spec :
    queue.halDmaFront.2 = true ∧ queue.halDmaFront.1.ring = queue.ring ∧
    Represents queue.halDmaFront.1.dmaData (deque.drop queue.frontMsg.dataSize) ∧
    slice queue.halDmaFront.1.tmpBufK2h 0 queue.frontMsg.dataSize =
    deque.take queue.frontMsg.dataSize := by
  have isCount := represents.count_eq
  have few : queue.frontMsg.dataSize ≤ queue.dmaData.count := by omega
  have taken : queue.dmaData.copyToLinear true queue.frontMsg.dataSize = ({ queue.dmaData with
            read := wrap queue.dmaData.size (queue.dmaData.read + queue.frontMsg.dataSize) },
          some (deque.take queue.frontMsg.dataSize)) := by
    rw [AudioRingbuf.copyToLinear, represents.valid.noInit, represents.valid.readAfter_eq few,
      represents.valid.bytesToLinear_eq few, represents.contents]
    rw [if_neg (by omega), if_neg (by simp), if_neg (by simp), if_neg (by omega)]
  unfold HalDmaQueue.halDmaFront
  rw [if_neg (by omega), taken]
  refine ⟨rfl, rfl, represents.take enough, ?_⟩
  have length : (deque.take queue.frontMsg.dataSize).length = queue.frontMsg.dataSize := by
    rw [length_take, Nat.min_eq_left enough]
  exact take_left' length

theorem audioIpiDmaMsgRead_of_fits
    {count : Nat}
    (nonempty : queue.ring.isEmpty = false)
    (some : 0 < count) :
    queue.audioIpiDmaMsgRead true count = (queue.halDmaFront.1.halDmaPop,
    if sizeofIpiMsg + queue.frontMsg.dataSize ≤ count then
    .some (queue.frontMsg, deque.take queue.frontMsg.dataSize) else none) := by
  obtain ⟨succeeds, _, _, delivered⟩ := halDmaFront_spec fits positive enough represents
  unfold HalDmaQueue.audioIpiDmaMsgRead
  dsimp only
  rw [if_neg (by simp; omega), nonempty, succeeds, delivered]
  simp only [false_eq_true, if_false, true_eq_false]
  by_cases short : count < sizeofIpiMsg + queue.frontMsg.dataSize
  · rw [if_pos short, if_neg (by omega)]
  · rw [if_neg short, if_pos (by omega)]

end

/-- The reader pops a message too large for it and leaves its data. -/
theorem audioIpiDmaMsgRead_of_oversized
    {count : Nat}
    (nonempty : queue.ring.isEmpty = false)
    (past : maxDspDmaWriteSize < queue.frontMsg.dataSize + sizeofIpiMsg)
    (positive : 0 < count) :
    queue.audioIpiDmaMsgRead true count = ({ queue with ring := queue.ring.pop }, none) := by
  have front : queue.halDmaFront = ({ queue with ring := queue.ring.pop }, false) := by
    rw [HalDmaQueue.halDmaFront]
    rw [if_pos past, HalDmaQueue.halDmaPop, nonempty]
    rfl
  unfold HalDmaQueue.audioIpiDmaMsgRead
  rw [if_neg (by simp; omega), nonempty, front]
  rfl

end

/-- The data of the messages in the queue, in order. -/
def HalDmaQueue.queuedData (queue : HalDmaQueue) : List (BitVec 8) :=
  (queue.ring.contents Prod.snd).flatten

/-- The ring buffer holds exactly the data of the messages. -/
def InStep (queue : HalDmaQueue) : Prop := queue.dmaData.contents = queue.queuedData

/-- A read with room for the first message gets it with its data, other reads get nothing. -/
def DeliversOwn (queue : HalDmaQueue) : Prop :=
  ∀ hasBuf count, (queue.audioIpiDmaMsgRead hasBuf count).2 =
      if hasBuf = true ∧ queue.ring.isEmpty = false ∧
          sizeofIpiMsg + queue.frontMsg.dataSize ≤ count then
        some (queue.ring.element queue.ring.idxR)
      else none

/--
A message is refused, or its data fits into the ring buffer and, with it, into
a reader's buffer.
-/
def Call.Safe (queue : HalDmaQueue) : Call → Prop
  | .msgToHal msg region =>
    Accepted queue msg region → msg.dataSize + sizeofIpiMsg ≤ maxDspDmaWriteSize ∧
        msg.dataSize ≤ queue.dmaData.freeSpace
  | .msgRead _ _ => True

def Step (queue : HalDmaQueue) (call : Call) (next : HalDmaQueue) : Prop :=
  call.perform queue = next

/-- A safe call. -/
def SafeStep (queue : HalDmaQueue) (call : Call) (next : HalDmaQueue) : Prop :=
  call.Safe queue ∧ Step queue call next

/-- What safe calls keep. -/
structure Kept (queue : HalDmaQueue) : Prop where
  represents : Represents queue.dmaData queue.queuedData
  sized : ∀ slot msg data, (slot, (msg, data)) ∈ queue.ring.entries →
      data.length = msg.dataSize ∧ 0 < msg.dataSize ∧
        msg.dataSize + sizeofIpiMsg ≤ maxDspDmaWriteSize

variable {queue : HalDmaQueue} {msg : HalMsg} {region : RegionRead}

theorem kept_halDmaInitMsgQueue
    {vmalloc : Vmalloc}
    {size : Nat}
    (positive : 0 < size) :
    Kept (halDmaInitMsgQueue vmalloc size) := by
  constructor
  · exact represents_fresh positive
  · intro slot msg data member
    cases member

theorem Kept.msgToHal
    (kept : Kept queue)
    (safe : (Call.msgToHal msg region).Safe queue) :
    Kept (queue.audioIpiDmaMsgToHal msg region).1 := by
  rcases audioIpiDmaMsgToHal_cases with
    ⟨accepted, pushed⟩ | refused
  · obtain ⟨small, fits⟩ := safe accepted
    rw [pushed]
    constructor
    · rw [HalDmaQueue.queuedData, Ring.contents_push accepted.room,
        flatten_append, flatten_singleton]
      exact (accepted.represents fits kept.represents).1
    intro slot other data member
    rw [Ring.entries_push accepted.room] at member
    rcases mem_append.mp member with before | added
    · exact kept.sized slot other data before
    rw [mem_singleton, Prod.mk.injEq] at added
    obtain ⟨_, rfl, rfl⟩ := added
    exact ⟨region.length_data accepted.few, accepted.positive, small⟩
  · rw [refused]
    exact kept

/-- The first message, its data and what is behind them. -/
theorem Kept.first
    (kept : Kept queue)
    (nonempty : queue.ring.isEmpty = false) :
    ∃ data,
    queue.ring.element queue.ring.idxR = (queue.frontMsg, data) ∧ queue.queuedData =
    data ++ (queue.ring.pop.contents Prod.snd).flatten ∧ data.length = queue.frontMsg.dataSize ∧
    0 < queue.frontMsg.dataSize ∧ queue.frontMsg.dataSize + sizeofIpiMsg ≤ maxDspDmaWriteSize := by
  refine ⟨(queue.ring.element queue.ring.idxR).2, rfl, ?_, ?_⟩
  · rw [HalDmaQueue.queuedData, Ring.contents_pop nonempty, flatten_cons]
  refine kept.sized queue.ring.idxR queue.frontMsg _ ?_
  rw [Ring.entries_pop nonempty]
  exact mem_cons_self

/-- State and result of a read that finds a message. -/
theorem Kept.read
    {count : Nat}
    (kept : Kept queue)
    (nonempty : queue.ring.isEmpty = false)
    (positive : 0 < count) :
    Kept (queue.audioIpiDmaMsgRead true count).1 ∧
    (queue.audioIpiDmaMsgRead true count).2 = if sizeofIpiMsg + queue.frontMsg.dataSize ≤ count then
    some (queue.ring.element queue.ring.idxR) else none := by
  obtain ⟨data, isElement, isQueued, length, some, small⟩ := kept.first nonempty
  have represents := kept.represents
  rw [isQueued] at represents
  have enough : queue.frontMsg.dataSize ≤
      (data ++ (queue.ring.pop.contents Prod.snd).flatten).length := by
    rw [length_append]
    omega
  obtain ⟨_, sameRing, left, _⟩ := halDmaFront_spec small some enough represents
  rw [← length, drop_left] at left
  have popped : queue.halDmaFront.1.halDmaPop =
        { queue.halDmaFront.1 with ring := queue.ring.pop } := by
    rw [HalDmaQueue.halDmaPop, sameRing, nonempty]
    rfl
  rw [audioIpiDmaMsgRead_of_fits small some enough represents nonempty positive, popped]
  refine ⟨⟨left, ?_⟩, ?_⟩
  · intro slot other bytes member
    exact kept.sized slot other bytes (Ring.mem_of_mem_pop nonempty member)
  · rw [isElement, ← length, take_left]

theorem audioIpiDmaMsgRead_of_none
    {hasBuf : Bool}
    {count : Nat}
    (nothing : hasBuf = false ∨ count = 0 ∨ queue.ring.isEmpty = true) :
    queue.audioIpiDmaMsgRead hasBuf count = (queue, none) := by
  unfold HalDmaQueue.audioIpiDmaMsgRead
  rcases nothing with noBuf | noCount | empty
  · rw [if_pos (.inl noBuf)]
  · rw [if_pos (.inr noCount)]
  · rw [if_pos empty, ite_self]

/-- A read does nothing, or it finds a message. -/
theorem read_cases
    (queue : HalDmaQueue)
    (hasBuf : Bool)
    (count : Nat) :
    (hasBuf = false ∨ count = 0 ∨ queue.ring.isEmpty = true) ∨ hasBuf = true ∧ 0 < count ∧
    queue.ring.isEmpty = false := by
  cases hasBuf with
  | false => exact .inl (.inl rfl)
  | true =>
    rcases Nat.eq_zero_or_pos count with noCount | positive
    · exact .inl (.inr (.inl noCount))
    cases isEmpty : queue.ring.isEmpty with
    | false => exact .inr ⟨rfl, positive, rfl⟩
    | true => exact .inl (.inr (.inr rfl))

theorem Kept.safeStep
    {call : Call}
    {next : HalDmaQueue}
    (kept : Kept queue)
    (step : SafeStep queue call next) :
    Kept next := by
  obtain ⟨safe, rfl⟩ := step
  cases call with
  | msgToHal msg region => exact kept.msgToHal safe
  | msgRead hasBuf count =>
    rw [Call.perform]
    rcases read_cases queue hasBuf count with
      nothing | ⟨rfl, positive, nonempty⟩
    · rw [audioIpiDmaMsgRead_of_none nothing]
      exact kept
    · exact (kept.read nonempty positive).1

theorem Kept.deliversOwn (kept : Kept queue) : DeliversOwn queue := by
  intro hasBuf count
  rcases read_cases queue hasBuf count with
    nothing | ⟨rfl, positive, nonempty⟩
  · rw [audioIpiDmaMsgRead_of_none nothing, if_neg]
    rintro ⟨hasBuf, nonempty, enough⟩
    rw [hasBuf, nonempty] at nothing
    rw [sizeofIpiMsg] at enough
    simp at nothing
    omega
  · rw [(kept.read nonempty positive).2]
    simp [nonempty]

/--
While data fits into the buffers, the ring buffer holds the data of the queued
messages, and each is read with its own.
-/
theorem inStep_of_run
    {vmalloc : Vmalloc}
    {size : Nat}
    {calls : List Call}
    (positive : 0 < size)
    (run : Run SafeStep (halDmaInitMsgQueue vmalloc size) calls queue) :
    InStep queue ∧ DeliversOwn queue := by
  have kept : Kept queue :=
    run.always (kept_halDmaInitMsgQueue positive) fun _ _ _ before step => before.safeStep step
  exact ⟨kept.represents.contents, kept.deliversOwn⟩

/-- A message with a given amount of data. -/
def halMsg (msgId : BitVec 16) (dataSize : Nat) : HalMsg :=
  ⟨0, audioIpiLayerToHal, audioIpiDma, msgId, 0, dataSize⟩

/-- A region from which one value is read. -/
def regionOf (value : BitVec 8) : RegionRead :=
  ⟨0, replicate maxDspDmaWriteSize value, length_replicate⟩

/-- Two messages, and a read of the first one. -/
def firstRead : List Call :=
  [.msgToHal (halMsg 1 2) (regionOf 7), .msgToHal (halMsg 2 3) (regionOf 8), .msgRead true 274]

/-- The queue of the driver after these calls. -/
def secondLeft : HalDmaQueue :=
  firstRead.foldl Call.perform (halDmaInitMsgQueue zeroVmalloc 0x500000)

/-- The second message is left with its data. -/
theorem inStep_of_run_twoBytes :
    Run SafeStep (halDmaInitMsgQueue zeroVmalloc 0x500000) firstRead secondLeft ∧
    secondLeft.queuedData = [8, 8, 8] ∧ InStep secondLeft ∧ DeliversOwn secondLeft ∧
    (secondLeft.audioIpiDmaMsgRead true 275).2 = some (halMsg 2 3, [8, 8, 8]) := by
  have first : SafeStep (halDmaInitMsgQueue zeroVmalloc 0x500000)
      (.msgToHal (halMsg 1 2) (regionOf 7)) _ :=
    ⟨fun _ => ⟨by decide, by decide +kernel⟩, rfl⟩
  have second : SafeStep (Call.perform (halDmaInitMsgQueue zeroVmalloc 0x500000)
      (.msgToHal (halMsg 1 2) (regionOf 7))) (.msgToHal (halMsg 2 3) (regionOf 8)) _ :=
    ⟨fun _ => ⟨by decide, by decide +kernel⟩, rfl⟩
  have run : Run SafeStep (halDmaInitMsgQueue zeroVmalloc 0x500000) firstRead secondLeft :=
    .after (.after (.after .start first) second) ⟨trivial, rfl⟩
  obtain ⟨inStep, delivers⟩ := inStep_of_run (by decide) run
  refine ⟨run, by decide +kernel, inStep, delivers, ?_⟩
  rw [delivers, if_pos ⟨rfl, by decide +kernel, by decide +kernel⟩]
  decide +kernel

/-- A message dropped by the reader leaves its data in the ring buffer. -/
theorem Accepted.dropped
    {deque : List (BitVec 8)}
    {count : Nat}
    (accepted : Accepted queue msg region)
    (fits : msg.dataSize ≤ queue.dmaData.freeSpace)
    (represents : Represents queue.dmaData deque)
    (empty : queue.ring.isEmpty = true)
    (past : maxDspDmaWriteSize < msg.dataSize + sizeofIpiMsg)
    (positive : 0 < count) :
    ((queue.audioIpiDmaMsgToHal msg region).1.audioIpiDmaMsgRead true count).1 = { queue with
        ring := (queue.ring.push (msg, region.data msg)).pop
        dmaData := queue.dmaData.copyFromLinearImpl (some (region.data msg)) } ∧
    Represents (queue.dmaData.copyFromLinearImpl (some (region.data msg)))
      (deque ++ region.data msg) ∧
    (queue.dmaData.copyFromLinearImpl (some (region.data msg))).size = queue.dmaData.size := by
  refine ⟨?_, accepted.represents fits represents⟩
  rw [accepted.pushed, audioIpiDmaMsgRead_of_oversized]
  · exact Ring.isEmpty_push accepted.room
  · rw [HalDmaQueue.frontMsg, Ring.element_push_of_isEmpty empty]
    exact past
  · exact positive

/-- What was left in the ring buffer goes to the next message. -/
theorem Accepted.afterLeft
    {left : List (BitVec 8)}
    (accepted : Accepted queue msg region)
    (fits : msg.dataSize ≤ queue.dmaData.freeSpace)
    (represents : Represents queue.dmaData left)
    (empty : queue.ring.isEmpty = true)
    (small : msg.dataSize + sizeofIpiMsg ≤ maxDspDmaWriteSize) :
    (queue.audioIpiDmaMsgToHal msg region).1.dmaData.contents = left ++ region.data msg ∧
    (queue.audioIpiDmaMsgToHal msg region).1.queuedData = region.data msg ∧
    (queue.audioIpiDmaMsgToHal msg region).1.ring.element
    (queue.audioIpiDmaMsgToHal msg region).1.ring.idxR = (msg, region.data msg) ∧
    ((queue.audioIpiDmaMsgToHal msg region).1.audioIpiDmaMsgRead true maxDspDmaWriteSize).2 =
    some (msg, (left ++ region.data msg).take msg.dataSize) := by
  have length := region.length_data accepted.few
  obtain ⟨added, _⟩ := accepted.represents fits represents
  have isNil : queue.ring.contents Prod.snd = [] := Ring.isEmpty_iff_contents.mp empty
  rw [accepted.pushed]
  refine ⟨added.contents, ?_, Ring.element_push_of_isEmpty empty, ?_⟩
  · rw [HalDmaQueue.queuedData, Ring.contents_push accepted.room, isNil]
    simp
  have isFront : ({ queue with
          ring := queue.ring.push (msg, region.data msg)
          dmaData := queue.dmaData.copyFromLinearImpl (some (region.data msg)) } :
        HalDmaQueue).frontMsg = msg := by
    rw [HalDmaQueue.frontMsg, Ring.element_push_of_isEmpty empty]
  rw [audioIpiDmaMsgRead_of_fits (by rw [isFront]; exact small)
    (by rw [isFront]; exact accepted.positive) (by rw [isFront, length_append]; omega) added
    (Ring.isEmpty_push accepted.room) (by decide), isFront]
  rw [if_pos (by omega)]

/-- The bytes of a message that the reader drops. -/
def droppedSize : Nat := 65265

/-- The reader drops a message before another one arrives. -/
def droppedCalls : List Call :=
  [.msgToHal (halMsg 1 droppedSize) (regionOf 0), .msgRead true 0x10000,
    .msgToHal (halMsg 2 1) (regionOf 1)]

/-- The queue with the dropped message's data left. -/
def droppedQueue : HalDmaQueue :=
  (((halDmaInitMsgQueue zeroVmalloc 0x500000).audioIpiDmaMsgToHal
    (halMsg 1 droppedSize) (regionOf 0)).1.audioIpiDmaMsgRead true 0x10000).1

theorem data_regionOf
    {value : BitVec 8}
    {msgId : BitVec 16}
    {dataSize : Nat}
    (few : dataSize ≤ maxDspDmaWriteSize) :
    (regionOf value).data (halMsg msgId dataSize) = replicate dataSize value := by
  rw [RegionRead.data, regionOf, halMsg, slice, drop_zero, take_replicate, Nat.min_eq_left few]

theorem droppedQueue_left :
    droppedQueue.ring.isEmpty = true ∧ droppedQueue.ring.toBeFull = false ∧
    droppedQueue.dmaData.size = 0x500000 ∧
    Represents droppedQueue.dmaData (replicate droppedSize 0) := by
  have start := @kept_halDmaInitMsgQueue zeroVmalloc 0x500000 (by decide)
  have few : droppedSize ≤ maxDspDmaWriteSize := by decide
  have fits : (halMsg 1 droppedSize).dataSize ≤
      (halDmaInitMsgQueue zeroVmalloc 0x500000).dmaData.freeSpace := by
    decide
  have accepted : Accepted (halDmaInitMsgQueue zeroVmalloc 0x500000)
      (halMsg 1 droppedSize) (regionOf 0) :=
    ⟨by decide, rfl, few, rfl⟩
  obtain ⟨isDropped, left, size⟩ :=
    @Accepted.dropped _ _ _ _ 0x10000 accepted fits start.represents rfl (by decide) (by decide)
  rw [droppedQueue, isDropped]
  rw [show (halDmaInitMsgQueue zeroVmalloc 0x500000).queuedData = [] from rfl,
    data_regionOf few] at left
  rw [data_regionOf few] at size ⊢
  refine ⟨by decide, by decide, size, ?_⟩
  dsimp only
  exact left

/-- The data of the dropped message stays, and the next message is read with a part of it. -/
theorem not_inStep_droppedCalls :
    ∃ queue,
    Run Step (halDmaInitMsgQueue zeroVmalloc 0x500000) droppedCalls queue ∧ ¬ InStep queue ∧
    ¬ DeliversOwn queue := by
  obtain ⟨empty, room, size, left⟩ := droppedQueue_left
  have accepted : Accepted droppedQueue (halMsg 2 1) (regionOf 1) :=
    ⟨by decide, room, by decide, rfl⟩
  have fits : (halMsg 2 1).dataSize ≤ droppedQueue.dmaData.freeSpace := by
    refine left.valid.freeSpace_of_room ?_
    rw [left.count_eq, size, length_replicate]
    decide
  obtain ⟨contents, queued, isElement, delivered⟩ := accepted.afterLeft fits left empty (by decide)
  refine ⟨_, .after (.after (.after .start rfl) rfl) rfl, ?_, ?_⟩
  · intro inStep
    have same := contents.symm.trans (inStep.trans queued)
    have lengths := congrArg length same
    rw [length_append, length_replicate] at lengths
    exact absurd lengths (by decide)
  intro deliversOwn
  have own := delivered.symm.trans (deliversOwn true maxDspDmaWriteSize)
  split at own
  case isTrue =>
    have same := (Option.some.inj own).trans isElement
    have firstByte := congrArg (fun pair => pair.2.head?) same
    exact absurd firstByte (by decide)
  case isFalse => cases own

end EchoKernel.HalDma
