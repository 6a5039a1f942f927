import EchoKernel.AdspIpiQueue
import EchoKernel.LabelledRun

namespace EchoKernel.AdspIpi

open RingQueue LabelledRun List Function Option ScpMsgQueue ScpQueueElement

/-!
# Runs of the message queue to the ADSP

The thread handles the first message without the lock and then pops whatever
is first. After a flush in between and the push of a sender that saw the queue
enabled, it pops a message that nobody handled. Without such a flush every
message is handled once and in order, or flushed.
-/

section
variable (queue : ScpMsgQueue)

/-- The queued messages with the numbers of their pushes. -/
def ScpMsgQueue.queued : List (Nat × ScpMsg) := queue.ring.contents tagged

/--
The pushed messages have distinct numbers and are processed in order and at
most once. Each is processed, flushed or queued, and only processed ones were
popped.
-/
structure ProcessedOnce (queue : ScpMsgQueue) : Prop where
  numbered : queue.pushed.map Prod.fst = range queue.pushed.length
  inOrder : queue.processed.Sublist queue.pushed
  accounted : ∀ msg ∈ queue.pushed, msg ∈ queue.processed ∨ msg ∈ queue.flushed ∨ msg ∈ queue.queued
  popped : ∀ msg ∈ queue.popped, msg ∈ queue.processed

/-- The thread is between `scp_front_msg` and `scp_pop_msg`. -/
def ThreadPc.busy : ThreadPc → Bool
  | .idle => false
  | .waiting _ => false
  | .fronting => false
  | _ => true

/-- No call is between its `enable` check and its push. -/
def NoneChecked : Prop := ∀ id waits, (queue.senders id).pc ≠ .checked waits

/-- The queue is emptied while the thread holds no message, or no call can push any more. -/
def Event.SparesPushes : Event → Prop
  | .flushEmpties => queue.thread.busy = true → NoneChecked queue
  | _ => True

def Step (event : Event) (next : ScpMsgQueue) : Prop := queue.perform event = some next

/-- A step that spares later pushes. -/
def SparingStep (event : Event) (next : ScpMsgQueue) : Prop :=
  event.SparesPushes queue ∧ queue.perform event = some next

end

variable {queue : ScpMsgQueue} {removed : List (Nat × ScpMsg)}

/-- The queue is empty and stays so. -/
structure Closed (queue : ScpMsgQueue) : Prop where
  empty : queue.ring.isEmpty = true
  disabled : queue.enable = false
  noneChecked : NoneChecked queue

/-- The message that is first in the queue. -/
def ScpMsgQueue.front (queue : ScpMsgQueue) : Nat × ScpMsg :=
  (queue.ring.element queue.ring.idxR).tagged

/-- The thread's message is first, or was flushed. -/
def HandlesFront (queue : ScpMsgQueue) (removed : List (Nat × ScpMsg)) : Prop :=
  (queue.ring.isEmpty = false ∧ ∃ before, queue.processed = before ++ [queue.front] ∧
        before.Sublist removed) ∨ Closed queue ∧ queue.processed.Sublist removed

/-- What the thread has processed of the removed messages. -/
def ThreadRule (queue : ScpMsgQueue) (removed : List (Nat × ScpMsg)) : ThreadPc → Prop
  | .holding idxMsg =>
    (queue.ring.isEmpty = false ∧ queue.ring.idxR = idxMsg ∧ queue.processed.Sublist removed) ∨
      Closed queue ∧ (queue.processed ++ [(queue.ring.element idxMsg).tagged]).Sublist removed
  | .processing _ => HandlesFront queue removed
  | .handled _ _ => HandlesFront queue removed
  | .popping => HandlesFront queue removed
  | _ => queue.processed.Sublist removed

/-- The removed messages are before the queued ones. -/
structure Removed (queue : ScpMsgQueue) (removed : List (Nat × ScpMsg)) : Prop where
  split : queue.pushed = removed ++ queue.queued
  handled : ∀ msg ∈ removed, msg ∈ queue.processed ∨ msg ∈ queue.flushed
  rule : ThreadRule queue removed queue.thread

/-- What steps that spare pushes preserve. -/
structure Ordered (queue : ScpMsgQueue) : Prop where
  disabled : queue.flushing ≠ 0 → queue.enable = false
  numbered : queue.pushed.map Prod.fst = range queue.pushed.length
  removed : ∃ removed, Removed queue removed
  popped : ∀ msg ∈ queue.popped, msg ∈ queue.processed

theorem ordered_initSingleMsgQueue : Ordered initSingleMsgQueue :=
  ⟨nofun, rfl, ⟨[], ⟨by decide, nofun, List.Sublist.refl []⟩⟩, nofun⟩

theorem queued_eq_front
    (nonempty : queue.ring.isEmpty = false) :
    queue.queued = queue.front :: queue.ring.pop.contents tagged :=
  Ring.contents_pop nonempty

theorem HandlesFront.sublist
    (handles : HandlesFront queue removed) :
    queue.processed.Sublist (removed ++ queue.queued) := by
  rcases handles with ⟨nonempty, before, isBefore, inOrder⟩ | ⟨_, inOrder⟩
  · rw [isBefore, queued_eq_front nonempty]
    exact inOrder.append (singleton_sublist.mpr mem_cons_self)
  · exact inOrder.trans (sublist_append_left _ _)

theorem ThreadRule.sublist
    {thread : ThreadPc}
    (rule : ThreadRule queue removed thread) :
    queue.processed.Sublist (removed ++ queue.queued) := by
  have whole : queue.processed.Sublist removed →
      queue.processed.Sublist (removed ++ queue.queued) :=
    fun inOrder => inOrder.trans (sublist_append_left _ _)
  cases thread with
  | idle | waiting tryCnt | fronting => exact whole rule
  | holding idxMsg =>
    rcases rule with ⟨_, _, inOrder⟩ | ⟨_, inOrder⟩
    · exact whole inOrder
    · exact whole ((sublist_append_left _ _).trans inOrder)
  | processing idxMsg | handled idxMsg retval | popping => exact HandlesFront.sublist rule

theorem Ordered.processedOnce (ordered : Ordered queue) : ProcessedOnce queue := by
  obtain ⟨removed, split, handled, rule⟩ := ordered.removed
  refine ⟨ordered.numbered, ?_, ?_, ordered.popped⟩
  · rw [split]
    exact rule.sublist
  intro msg member
  rw [split] at member
  rcases mem_append.mp member with before | inQueue
  · rcases handled msg before with processed | flushed
    · exact .inl processed
    · exact .inr (.inl flushed)
  · exact .inr (.inr inQueue)

variable {next : ScpMsgQueue}

/-- Two rings with the same messages at the same places. -/
structure SameView (ring other : RingQueue.Ring ScpQueueElement) : Prop where
  empty : other.isEmpty = ring.isEmpty
  idxR : other.idxR = ring.idxR
  element : ∀ idxMsg, (other.element idxMsg).tagged = (ring.element idxMsg).tagged
  contents : other.contents tagged = ring.contents tagged

theorem SameView.refl (ring : RingQueue.Ring ScpQueueElement) : SameView ring ring :=
  ⟨rfl, rfl, fun _ => rfl, rfl⟩

theorem sameView_store
    {ring : RingQueue.Ring ScpQueueElement}
    {idxMsg : Nat}
    {element : ScpQueueElement}
    (same : element.tagged = (ring.element idxMsg).tagged) :
    SameView ring (ring.store idxMsg element) :=
  ⟨rfl, rfl, Ring.view_store same, Ring.contents_store same⟩

theorem HandlesFront.of_same
    (handles : HandlesFront queue removed)
    (view : SameView queue.ring next.ring)
    (processed : next.processed = queue.processed)
    (closed : Closed queue → Closed next) :
    HandlesFront next removed := by
  have front : next.front = queue.front := by
    rw [ScpMsgQueue.front, ScpMsgQueue.front, view.idxR, view.element]
  rw [HandlesFront, view.empty, processed, front]
  rcases handles with isFirst | ⟨isClosed, inOrder⟩
  · exact .inl isFirst
  · exact .inr ⟨closed isClosed, inOrder⟩

/-- The thread's rule with messages and their places kept. -/
theorem ThreadRule.of_same
    {thread : ThreadPc}
    (rule : ThreadRule queue removed thread)
    (view : SameView queue.ring next.ring)
    (processed : next.processed = queue.processed)
    (closed : Closed queue → Closed next) :
    ThreadRule next removed thread := by
  have whole : queue.processed.Sublist removed → next.processed.Sublist removed := by
    rw [processed]
    exact id
  cases thread with
  | idle | waiting tryCnt | fronting => exact whole rule
  | holding idxMsg =>
    rw [ThreadRule, view.empty, view.idxR, view.element, processed]
    rcases rule with isFirst | ⟨isClosed, inOrder⟩
    · exact .inl isFirst
    · exact .inr ⟨closed isClosed, inOrder⟩
  | processing idxMsg | handled idxMsg retval | popping =>
    exact HandlesFront.of_same rule view processed closed

/-- A step of a sender that pushes nothing. -/
structure Silent (queue next : ScpMsgQueue) : Prop where
  view : SameView queue.ring next.ring
  enable : next.enable = queue.enable
  thread : next.thread = queue.thread
  flushing : next.flushing = queue.flushing
  pushed : next.pushed = queue.pushed
  processed : next.processed = queue.processed
  popped : next.popped = queue.popped
  flushed : next.flushed = queue.flushed
  checked : queue.enable = false → NoneChecked queue → NoneChecked next

theorem Ordered.silent (ordered : Ordered queue) (silent : Silent queue next) : Ordered next := by
  obtain ⟨removed, split, handled, rule⟩ := ordered.removed
  have closed : Closed queue → Closed next := by
    rintro ⟨empty, disabled, noneChecked⟩
    exact ⟨by rw [silent.view.empty, empty], by rw [silent.enable, disabled],
      silent.checked disabled noneChecked⟩
  refine ⟨?_, ?_, ⟨removed, ?_, ?_, ?_⟩, ?_⟩
  · rw [silent.flushing, silent.enable]
    exact ordered.disabled
  · rw [silent.pushed]
    exact ordered.numbered
  · rw [silent.pushed, ScpMsgQueue.queued, silent.view.contents]
    exact split
  · rw [silent.processed, silent.flushed]
    exact handled
  · rw [silent.thread]
    exact rule.of_same silent.view silent.processed closed
  · rw [silent.popped, silent.processed]
    exact ordered.popped

variable {choice : Choice}

section
variable {id : Nat} {msg : ScpMsg} {pc : SenderPc}

/-- The calls after one has moved to a place not before its push. -/
theorem noneChecked_update
    (noneChecked : NoneChecked queue)
    (senders : next.senders = update queue.senders id ⟨pc, msg⟩)
    (notChecked : ∀ waits, pc ≠ .checked waits) :
    NoneChecked next := by
  intro other waits
  rw [senders]
  by_cases same : other = id
  · rw [same, update_self]
    exact notChecked waits
  · rw [update_of_ne same]
    exact noneChecked other waits

theorem silent_goto (notChecked : ∀ waits, pc ≠ .checked waits) : Silent queue (queue.goto id pc) :=
  ⟨.refl _, rfl, rfl, rfl, rfl, rfl, rfl, rfl,
    fun _ noneChecked => noneChecked_update noneChecked rfl notChecked⟩

theorem silent_call
    {waits : Bool}
    (calls : queue.call id msg waits = some next) :
    Silent queue next := by
  unfold ScpMsgQueue.call at calls
  rw [ite_none_left_eq_some] at calls
  obtain ⟨-, ⟨⟩⟩ := calls
  refine ⟨.refl _, rfl, rfl, rfl, rfl, rfl, rfl, rfl, ?_⟩
  intro disabled noneChecked
  refine noneChecked_update noneChecked rfl ?_
  split
  · nofun
  · nofun

theorem silent_finish
    {idxMsg counter : Nat}
    {retval : Int} :
    Silent queue (queue.finish id idxMsg counter retval) := by
  unfold finish
  dsimp only
  split
  case isTrue =>
    refine ⟨sameView_store rfl, rfl, rfl, rfl, rfl, rfl, rfl, rfl, ?_⟩
    intro _ noneChecked
    exact noneChecked_update noneChecked rfl nofun
  case isFalse => exact silent_goto nofun

theorem front_pushMsg
    {waits : Bool}
    (nonempty : queue.ring.isEmpty = false) :
    (queue.pushMsg msg waits).front = queue.front := by
  have apart : queue.ring.idxR ≠ queue.ring.idxW := by simpa [Ring.isEmpty] using nonempty
  simp only [ScpMsgQueue.front, pushMsg, Ring.push, update_of_ne apart]

/-- The push of a message by a call before its push. -/
theorem Ordered.pushed
    {waits wasWaits : Bool}
    (ordered : Ordered queue)
    (isChecked : (queue.senders id).pc = .checked wasWaits)
    (room : queue.ring.toBeFull = false) :
    Ordered ((queue.pushMsg msg waits).goto id pc) := by
  obtain ⟨removed, split, handled, rule⟩ := ordered.removed
  have notClosed : ¬ Closed queue := fun closed => closed.noneChecked id wasWaits isChecked
  have queued : (queue.pushMsg msg waits).queued = queue.queued ++ [(queue.pushed.length, msg)] :=
    Ring.contents_push room
  have stillNonempty : (queue.ring.push (queue.newElement msg waits)).isEmpty = false := by
    refine @Ring.nonempty_of_mem _ _ (queue.ring.idxW, queue.newElement msg waits) ?_
    rw [Ring.entries_push room]
    exact mem_append_right _ (by simp)
  have handles : HandlesFront queue removed →
      HandlesFront ((queue.pushMsg msg waits).goto id pc) removed := by
    rintro (⟨nonempty, before, isBefore, inOrder⟩ | ⟨closed, _⟩)
    · refine .inl ⟨stillNonempty, before, ?_, inOrder⟩
      rw [← front_pushMsg nonempty] at isBefore
      exact isBefore
    · exact absurd closed notClosed
  have rules : ∀ thread, ThreadRule queue removed thread →
      ThreadRule ((queue.pushMsg msg waits).goto id pc) removed thread := by
    intro thread rule
    cases thread with
    | idle | waiting tryCnt | fronting => exact rule
    | holding idxMsg =>
      rcases rule with ⟨_, isFirst, inOrder⟩ | ⟨closed, _⟩
      · exact .inl ⟨stillNonempty, isFirst, inOrder⟩
      · exact absurd closed notClosed
    | processing idxMsg | handled idxMsg retval | popping => exact handles rule
  refine ⟨ordered.disabled, ?_, ⟨removed, ?_, handled, rules queue.thread rule⟩, ordered.popped⟩
  · show (queue.pushed ++ [(queue.pushed.length, msg)]).map Prod.fst =
      range (queue.pushed ++ [(queue.pushed.length, msg)]).length
    rw [map_append, ordered.numbered, length_append, length_singleton, range_succ]
    rfl
  · show queue.pushed ++ [(queue.pushed.length, msg)] = removed ++ (queue.pushMsg msg waits).queued
    rw [queued, split, append_assoc]

theorem Ordered.send
    (ordered : Ordered queue)
    (sends : queue.send id choice = some next) :
    Ordered next := by
  unfold ScpMsgQueue.send at sends
  split at sends
  case h_1 isChecked =>
    cases sends
    unfold push
    split
    case isTrue => exact ordered.silent (silent_goto nofun)
    case isFalse room => exact ordered.pushed isChecked (Bool.eq_false_iff.mpr room)
  case h_2 =>
    split at sends
    · cases sends
      exact ordered.silent (silent_goto nofun)
    · cases sends
  case h_3 | h_4 =>
    split at sends
    · cases sends
    · cases sends
      exact ordered.silent (silent_goto nofun)
  case h_5 =>
    cases sends
    refine ordered.silent (silent_goto ?_)
    unfold afterWait
    repeat' split
    all_goals nofun
  case h_6 =>
    cases sends
    exact ordered.silent silent_finish
  case h_7 => cases sends

end

section
variable (ordered : Ordered queue)
include ordered

theorem Ordered.moved
    {thread : ThreadPc}
    (rules : ∀ removed, ThreadRule queue removed queue.thread → ThreadRule queue removed thread) :
    Ordered { queue with thread := thread } := by
  obtain ⟨removed, split, handled, rule⟩ := ordered.removed
  have moved := (rules removed rule).of_same
    (SameView.refl ({ queue with thread := thread } : ScpMsgQueue).ring)
    rfl (fun closed => { closed with })
  exact ⟨ordered.disabled, ordered.numbered, ⟨removed, split, handled, moved⟩, ordered.popped⟩

/-- The thread's message is passed to the function. -/
theorem Ordered.processed
    {idxMsg : Nat}
    (isHolding : queue.thread = .holding idxMsg) :
    Ordered { queue with
        thread := .processing idxMsg
        processed := queue.processed ++ [(queue.ring.element idxMsg).tagged] } := by
  obtain ⟨removed, split, handled, rule⟩ := ordered.removed
  rw [isHolding] at rule
  have grows : ∀ msg, msg ∈ queue.processed →
      msg ∈ queue.processed ++ [(queue.ring.element idxMsg).tagged] :=
    fun _ => mem_append_left _
  refine ⟨ordered.disabled, ordered.numbered, ⟨removed, split, ?_, ?_⟩, ?_⟩
  · intro msg member
    exact (handled msg member).imp_left (grows msg)
  · rcases rule with ⟨nonempty, isFirst, inOrder⟩ | ⟨closed, inOrder⟩
    · refine .inl ⟨nonempty, queue.processed, ?_, inOrder⟩
      rw [ScpMsgQueue.front]
      rw [isFirst]
    · exact .inr ⟨{ closed with }, inOrder⟩
  · intro msg member
    exact grows msg (ordered.popped msg member)

/-- The thread notifies the sender of the message. -/
theorem Ordered.notified
    {idxMsg : Nat}
    {retval : Int}
    (isHandled : queue.thread = .handled idxMsg retval) :
    Ordered { queue.notify idxMsg retval with thread := .popping } := by
  have silent : Silent queue (queue.notify idxMsg retval) := by
    unfold notify
    dsimp only
    split
    · exact ⟨sameView_store rfl, rfl, rfl, rfl, rfl, rfl, rfl, rfl,
        fun _ noneChecked => noneChecked⟩
    · exact ⟨.refl _, rfl, rfl, rfl, rfl, rfl, rfl, rfl, fun _ noneChecked => noneChecked⟩
  refine (ordered.silent silent).moved ?_
  intro removed rule
  rw [silent.thread, isHandled] at rule
  exact rule

/-- The thread pops the message that it has processed. -/
theorem Ordered.poppedFront
    (isPopping : queue.thread = .popping) :
    Ordered { queue.popMsg with thread := .idle } := by
  obtain ⟨removed, split, handled, rule⟩ := ordered.removed
  rw [isPopping] at rule
  rcases rule with ⟨nonempty, before, isBefore, inOrder⟩ | ⟨closed, inOrder⟩
  · have isProcessed : queue.front ∈ queue.processed := by
      rw [isBefore]
      exact mem_append_right _ (by simp)
    rw [popMsg, if_neg (by simp [nonempty])]
    refine ⟨ordered.disabled, ordered.numbered, ⟨removed ++ [queue.front], ?_, ?_, ?_⟩, ?_⟩
    · rw [split, queued_eq_front nonempty, append_assoc]
      rfl
    · exact forall_mem_append.mpr ⟨handled, forall_mem_singleton.mpr (.inl isProcessed)⟩
    · rw [isBefore]
      exact inOrder.append (List.Sublist.refl _)
    · exact forall_mem_append.mpr ⟨ordered.popped, forall_mem_singleton.mpr isProcessed⟩
  · rw [popMsg, if_pos closed.empty]
    exact ⟨ordered.disabled, ordered.numbered, ⟨removed, split, handled, inOrder⟩, ordered.popped⟩

theorem Ordered.thread (steps : queue.stepThread choice = some next) : Ordered next := by
  unfold stepThread at steps
  split at steps
  case h_1 isThread =>
    cases steps
    refine ordered.moved ?_
    intro removed rule
    rw [isThread] at rule
    split <;> exact rule
  case h_2 isThread =>
    split at steps
    · cases steps
    cases steps
    refine ordered.moved ?_
    intro removed rule
    rw [isThread] at rule
    exact rule
  case h_3 isThread =>
    split at steps
    · cases steps
      refine ordered.moved ?_
      intro removed rule
      rw [isThread] at rule
      split <;> exact rule
    · cases steps
  case h_4 isThread =>
    cases steps
    refine ordered.moved ?_
    intro removed rule
    rw [isThread] at rule
    split
    case isTrue => exact rule
    case isFalse nonempty => exact .inl ⟨Bool.eq_false_iff.mpr nonempty, rfl, rule⟩
  case h_5 isThread =>
    cases steps
    exact ordered.processed isThread
  case h_6 isThread =>
    cases steps
    refine ordered.moved ?_
    intro removed rule
    rw [isThread] at rule
    exact rule
  case h_7 isThread =>
    cases steps
    exact ordered.notified isThread
  case h_8 isThread =>
    cases steps
    exact ordered.poppedFront isThread
  case h_9 => cases steps

end

/-- The queue is emptied when no push can follow a message in hand. -/
theorem Ordered.flushed
    (ordered : Ordered queue)
    (spares : Event.flushEmpties.SparesPushes queue)
    (flushes : queue.flushEmpties = some next) :
    Ordered next := by
  unfold ScpMsgQueue.flushEmpties at flushes
  rw [ite_none_left_eq_some] at flushes
  obtain ⟨isFlushing, ⟨⟩⟩ := flushes
  have disabled := ordered.disabled isFlushing
  obtain ⟨removed, split, handled, rule⟩ := ordered.removed
  have empty : (queue.ring.drain queue.ring.size).isEmpty = true :=
    Ring.isEmpty_drain (Nat.le_of_lt queue.ring.count_lt)
  have noneQueued := (@Ring.isEmpty_iff_contents _ _ _ tagged).mp empty
  have wider : removed.Sublist (removed ++ queue.queued) := sublist_append_left _ _
  refine ⟨fun _ => disabled, ordered.numbered,
    ⟨removed ++ queue.queued, ?_, ?_, ?_⟩, ordered.popped⟩
  · show queue.pushed = removed ++ queue.queued ++
      (queue.ring.drain queue.ring.size).contents tagged
    rw [noneQueued, append_nil]
    exact split
  · intro msg member
    rcases mem_append.mp member with before | inQueue
    · exact (handled msg before).imp_right (mem_append_left _)
    · exact .inr (mem_append_right _ inQueue)
  have closes : queue.thread.busy = true → Closed { queue with
            ring := queue.ring.drain queue.ring.size
            flushing := queue.flushing - 1
            flushed := queue.flushed ++ queue.ring.contents tagged } :=
    fun busy => ⟨empty, disabled, spares busy⟩
  have inOrder := rule.sublist
  cases isThread : queue.thread with
  | idle | waiting tryCnt | fronting => exact inOrder
  | holding idxMsg =>
    rw [isThread] at rule closes
    refine .inr ⟨closes rfl, ?_⟩
    rw [Ring.element_drain]
    rcases rule with ⟨nonempty, isFirst, inOrder⟩ | ⟨_, inOrder⟩
    · rw [queued_eq_front nonempty, ScpMsgQueue.front, isFirst]
      exact inOrder.append (singleton_sublist.mpr mem_cons_self)
    · exact inOrder.trans wider
  | processing idxMsg | handled idxMsg retval | popping =>
    rw [isThread] at closes
    exact .inr ⟨closes rfl, inOrder⟩

/-- Steps that spare pushes keep the order. -/
theorem Ordered.step
    {event : Event}
    (ordered : Ordered queue)
    (step : SparingStep queue event next) :
    Ordered next := by
  obtain ⟨spares, performs⟩ := step
  cases event with
  | call id msg waits => exact ordered.silent (silent_call performs)
  | send id choice => exact ordered.send performs
  | thread choice => exact ordered.thread performs
  | flushDisables =>
    cases performs
    obtain ⟨removed, split, handled, rule⟩ := ordered.removed
    refine ⟨fun _ => rfl, ordered.numbered, ⟨removed, split, handled, ?_⟩, ordered.popped⟩
    exact rule.of_same (.refl _) rfl (fun closed => ⟨closed.empty, rfl, closed.noneChecked⟩)
  | flushEmpties => exact ordered.flushed spares performs

variable {events : List Event}

/--
In a run whose flushes spare later pushes every pushed message is processed
once and in order, or flushed, and the thread pops only messages that were
processed.
-/
theorem processedOnce_of_run
    (run : Run SparingStep initSingleMsgQueue events queue) :
    ProcessedOnce queue :=
  (run.always ordered_initSingleMsgQueue
    (fun _ _ _ ordered step => ordered.step step)).processedOnce

def firstMsg : ScpMsg := ⟨1, [0xaa]⟩

def secondMsg : ScpMsg := ⟨1, [0xbb]⟩

/-- The thread holds the first message at a flush, and the second sender pushes after it. -/
def flushedInHand : List Event :=
  [.call 0 firstMsg false, .send 0 .go, .call 1 secondMsg false,
    .thread .go, .thread .go, .flushDisables, .flushEmpties, .send 1 .go,
    .thread .go, .thread (.returns 0), .thread .go, .thread .go]

theorem isSome_flushedInHand : (execute perform initSingleMsgQueue flushedInHand).isSome := by
  decide +kernel

/-- The state after the thread popped the second message. -/
def droppedQueue : ScpMsgQueue :=
  (execute perform initSingleMsgQueue flushedInHand).get isSome_flushedInHand

/-- The thread pops the second message and never processes it. -/
theorem not_processedOnce_droppedQueue :
    Run Step initSingleMsgQueue flushedInHand droppedQueue ∧
    droppedQueue.pushed = [(0, firstMsg), (1, secondMsg)] ∧ droppedQueue.processed =
    [(0, firstMsg)] ∧ droppedQueue.flushed = [(0, firstMsg)] ∧ droppedQueue.popped =
    [(1, secondMsg)] ∧ droppedQueue.queued = [] ∧ ¬ ProcessedOnce droppedQueue := by
  have processed : droppedQueue.processed = [(0, firstMsg)] := by decide +kernel
  have popped : droppedQueue.popped = [(1, secondMsg)] := by decide +kernel
  refine ⟨?_, by decide +kernel, processed, by decide +kernel, popped, by decide +kernel, ?_⟩
  · exact run_of_execute (fun _ _ _ _ performs => performs) (some_get isSome_flushedInHand).symm
  intro once
  have member := once.popped (1, secondMsg) (by rw [popped]; simp)
  revert member
  decide

/-- Two messages, one of them processed. -/
def handlesFirst : List Event :=
  [.call 0 firstMsg false, .send 0 .go, .call 1 secondMsg false,
    .send 1 .go, .thread .go, .thread .go, .thread .go,
    .thread (.returns 0), .thread .go, .thread .go]

theorem isSome_handlesFirst : (execute perform initSingleMsgQueue handlesFirst).isSome := by
  decide +kernel

theorem processedOnce_of_run_handlesFirst :
    ProcessedOnce ((execute perform initSingleMsgQueue handlesFirst).get isSome_handlesFirst) := by
  have spares : ∀ before, ∀ event ∈ handlesFirst, Event.SparesPushes before event := by
    intro before event member
    cases event with
    | flushEmpties => exact absurd member (by decide)
    | _ => trivial
  exact processedOnce_of_run (run_of_execute (fun before event member _ performs =>
      ⟨spares before event member, performs⟩)
    (some_get isSome_handlesFirst).symm)

end EchoKernel.AdspIpi
