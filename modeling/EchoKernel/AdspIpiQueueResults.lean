import EchoKernel.AdspIpiQueueRuns

namespace EchoKernel.AdspIpi

open RingQueue LabelledRun Function Option List ScpMsgQueue

/-!
# Results of waiting calls

A waiting call takes the result of its message from the slot, which is used
again after sixteen pushes: a call that is late returns the zero of its wait
although the send failed. In time, it returns the result of its own message.
-/

/-- The queue with the results of `scp_process_msg_func` by slot and counter. -/
structure Observed where
  queue : ScpMsgQueue
  results : List ((Nat × Nat) × Int)

/-- The result that a step gives. -/
def ScpMsgQueue.resultOf (queue : ScpMsgQueue) : Event → List ((Nat × Nat) × Int)
  | .thread (.returns retval) =>
    match queue.thread with
    | .processing idxMsg => [((idxMsg, (queue.ring.element idxMsg).queueCounter), retval)]
    | _ => []
  | _ => []

/-- A step of calls and thread, with fewer than 2^32 messages pushed. -/
def Observed.perform (state : Observed) (event : Event) : Option Observed :=
  if event = .flushDisables ∨ event = .flushEmpties then none
  else
    (state.queue.perform event).bind fun next =>
      if next.pushed.length < 2 ^ 32 then some ⟨next, state.queue.resultOf event ++ state.results⟩
      else none

/--
What a call with a message may return: zero only if its own send has returned
zero or not yet, and else only the end of its own wait or send.
-/
def MayReturn (state : Observed) (msg : ScpMsg) (ret : Int) : SenderPc → Prop
  | .finishing idxMsg counter retval =>
    (counter, msg) ∈ state.queue.pushed ∧ (ret = 0 → ((idxMsg, counter), 0) ∈ state.results ∨
        ∀ other, ((idxMsg, counter), other) ∉ state.results) ∧
      (ret = retval ∨ ((idxMsg, counter), ret) ∈ state.results)
  | .checked waits => waits = true → ret ≠ 0
  | _ => ret ≠ 0

/-- Every call that a step lets return may do so. -/
def OwnResults (state next : Observed) : Prop :=
  ∀ id ret, (next.queue.senders id).pc = .returned ret →
    (state.queue.senders id).pc ≠ .returned ret →
      MayReturn state (state.queue.senders id).msg ret (state.queue.senders id).pc

/-- The send of the slot's message failed, and its sender is not notified. -/
def ThreadPc.failedAt (idxMsg : Nat) : ThreadPc → Bool
  | .handled slot retval => slot == idxMsg && retval != 0
  | _ => false

/--
A call whose wait gave zero takes its result while the slot has its counter,
and not between a failed send and its notification.
-/
def ScpMsgQueue.inTime (queue : ScpMsgQueue) (id : Nat) : Bool :=
  match (queue.senders id).pc with
  | .finishing idxMsg counter retval =>
    retval != 0 || (queue.ring.element idxMsg).queueCounter == counter &&
      !queue.thread.failedAt idxMsg
  | _ => true

/-- The results are taken in time. -/
def Event.inTime (queue : ScpMsgQueue) : Event → Bool
  | .send id _ => queue.inTime id
  | _ => true

/-- A step in which results are taken in time. -/
def Observed.performInTime (state : Observed) (event : Event) : Option Observed :=
  if event.inTime state.queue then state.perform event else none

/-- Steps of a system of results. -/
def Observed.Step (perform : Observed → Event → Option Observed) (state : Observed) (event : Event)
    (next : Observed) : Prop :=
  perform state event = some next

section

/-- The slot and the counter of a call that waits. -/
def SenderPc.ticket : SenderPc → Option (Nat × Nat)
  | .waiting idxMsg counter _ => some (idxMsg, counter)
  | .waited idxMsg counter _ _ => some (idxMsg, counter)
  | .finishing idxMsg counter _ => some (idxMsg, counter)
  | _ => none

/-- The thread handles the first message. -/
def ThreadPc.Holds (ring : RingQueue.Ring ScpQueueElement) (results : List ((Nat × Nat) × Int)) :
    ThreadPc → Prop
  | .holding idxMsg => ring.isEmpty = false ∧ ring.idxR = idxMsg
  | .processing idxMsg => ring.isEmpty = false ∧ ring.idxR = idxMsg
  | .handled idxMsg retval =>
    (ring.isEmpty = false ∧ ring.idxR = idxMsg) ∧
      ((idxMsg, (ring.element idxMsg).queueCounter), retval) ∈ results
  | _ => True

/-- What every step keeps of the slots. -/
structure Recorded (ring : RingQueue.Ring ScpQueueElement) (pushes queueCounter : Nat)
    (thread : ThreadPc) (results : List ((Nat × Nat) × Int)) : Prop where
  counts : queueCounter = pushes
  bounded : ∀ slot, (ring.element slot).queueCounter ≤ pushes - 1
  used : ring.isEmpty = false → 0 < pushes
  signalled : ∀ slot, (ring.element slot).signalArrival = true →
      ((slot, (ring.element slot).queueCounter), (ring.element slot).sendRetval) ∈ results
  earlier : ∀ result ∈ results, result.1.2 < pushes
  holds : thread.Holds ring results

/-- What every step keeps of a waiting call's slot. -/
structure Waits (element : Nat → ScpQueueElement) (pushed : List (Nat × ScpMsg))
    (thread : ThreadPc) (results : List ((Nat × Nat) × Int)) (msg : ScpMsg)
    (idxMsg counter : Nat) : Prop where
  member : (counter, msg) ∈ pushed
  before : counter < pushed.length
  awaited : (element idxMsg).queueCounter = counter → (element idxMsg).waitInThread = true
  pending : (element idxMsg).queueCounter = counter → (element idxMsg).signalArrival = false →
      ∀ retval, ((idxMsg, counter), retval) ∈ results → thread = .handled idxMsg retval

/-- What every step keeps. -/
structure Tracked (queue : ScpMsgQueue) (results : List ((Nat × Nat) × Int)) : Prop where
  recorded : Recorded queue.ring queue.pushed.length queue.queueCounter queue.thread results
  tickets : ∀ id idxMsg counter, (queue.senders id).pc.ticket = some (idxMsg, counter) →
      Waits queue.ring.element queue.pushed queue.thread results (queue.senders id).msg idxMsg
        counter
  unique : ∀ id other idxMsg otherIdx counter,
      (queue.senders id).pc.ticket = some (idxMsg, counter) →
        (queue.senders other).pc.ticket = some (otherIdx, counter) → id = other

variable {ring : RingQueue.Ring ScpQueueElement} {pushes queueCounter slot : Nat}
variable {thread : ThreadPc} {results : List ((Nat × Nat) × Int)} {element : ScpQueueElement}

theorem Recorded.push
    (recorded : Recorded ring pushes queueCounter thread results)
    (room : ring.toBeFull = false)
    (few : pushes + 1 < 2 ^ 32)
    (isNew : element.queueCounter = queueCounter ∧ element.signalArrival = false) :
    Recorded (ring.push element) (pushes + 1) (nextCounter queueCounter) thread results := by
  obtain ⟨counts, bounded, used, signalled, earlier, holds⟩ := recorded
  refine ⟨?_, ?_, fun _ => Nat.succ_pos _, ?_, ?_, ?_⟩
  · rw [nextCounter, if_neg (by omega), counts]
  · grind [Ring.element_push]
  · grind [Ring.element_push]
  · grind
  have first : ring.isEmpty = false → ring.idxR ≠ ring.idxW := by simp [Ring.isEmpty]
  have nonempty := @Ring.isEmpty_push _ ring element room
  have idxR : (ring.push element).idxR = ring.idxR := rfl
  cases thread <;> grind [ThreadPc.Holds, Ring.element_push]

/-- A slot gets new flags and its message's result. -/
theorem Recorded.store
    (recorded : Recorded ring pushes queueCounter thread results)
    (counter : element.queueCounter = (ring.element slot).queueCounter)
    (signalled : element.signalArrival = true →
      ((slot, element.queueCounter), element.sendRetval) ∈ results) :
    Recorded (ring.store slot element) pushes queueCounter thread results := by
  obtain ⟨counts, bounded, used, signalledBefore, earlier, holds⟩ := recorded
  refine ⟨counts, ?_, used, ?_, earlier, ?_⟩
  · grind [Ring.element_store]
  · grind [Ring.element_store]
  have idxR : (ring.store slot element).idxR = ring.idxR := rfl
  have empty : (ring.store slot element).isEmpty = ring.isEmpty := rfl
  cases thread <;> grind [ThreadPc.Holds, Ring.element_store]

variable {pushed : List (Nat × ScpMsg)} {msg : ScpMsg} {idxMsg counter : Nat}

theorem Waits.store
    (waits : Waits ring.element pushed thread results msg idxMsg counter)
    (differs : idxMsg = slot → element.queueCounter ≠ counter) :
    Waits (ring.store slot element).element pushed thread results msg idxMsg counter := by
  obtain ⟨member, before, awaited, pending⟩ := waits
  exact ⟨member, before, by grind [Ring.element_store], by grind [Ring.element_store]⟩

theorem Waits.push
    {last : Nat × ScpMsg}
    (waits : Waits ring.element pushed thread results msg idxMsg counter)
    (isNew : element.queueCounter = pushed.length) :
    Waits (ring.push element).element (pushed ++ [last]) thread results msg idxMsg counter := by
  obtain ⟨member, before, awaited, pending⟩ := waits
  refine ⟨mem_append_left _ member, by simp; omega, ?_, ?_⟩
  · grind [Ring.element_push]
  · grind [Ring.element_push]

end

section
variable {queue next : ScpMsgQueue} {results : List ((Nat × Nat) × Int)} {id : Nat} {pc : SenderPc}
variable {msg : ScpMsg} {choice : Choice}

theorem Tracked.update
    (tracked : Tracked queue results)
    (isNext : next.senders = update queue.senders id ⟨pc, msg⟩)
    (recorded : Recorded next.ring next.pushed.length next.queueCounter next.thread results)
    (others : ∀ other idxMsg counter, other ≠ id →
      (queue.senders other).pc.ticket = some (idxMsg, counter) →
      Waits next.ring.element next.pushed next.thread results (queue.senders other).msg idxMsg
      counter)
    (own : ∀ idxMsg counter, pc.ticket = some (idxMsg, counter) →
      Waits next.ring.element next.pushed next.thread results msg idxMsg counter ∧
      ∀ other otherIdx, (queue.senders other).pc.ticket = some (otherIdx, counter) → other = id) :
    Tracked next results := by
  have unique := tracked.unique
  refine ⟨recorded, ?_, ?_⟩ <;> simp only [isNext]
  · grind
  · grind

/-- What a step of a call can be. -/
inductive Sends (queue : ScpMsgQueue) (id : Nat) : ScpMsgQueue → Prop
  | calls (pc : SenderPc) (msg : ScpMsg) (was : (queue.senders id).pc = .outside)
      (free : pc.ticket = none) (nonzero : pc ≠ .returned 0) :
      Sends queue id { queue with senders := update queue.senders id ⟨pc, msg⟩ }
  | full (waits : Bool) (was : (queue.senders id).pc = .checked waits) :
      Sends queue id (queue.goto id (.returned eoverflow))
  | pushes (waits : Bool) (was : (queue.senders id).pc = .checked waits)
      (room : queue.ring.toBeFull = false) :
      Sends queue id ((queue.pushMsg (queue.senders id).msg waits).goto id
        (if waits then .waiting queue.ring.idxW queue.queueCounter 0 else .returned 0))
  | waits (pc : SenderPc) (same : pc.ticket = (queue.senders id).pc.ticket)
      (ongoing : pc.ticket ≠ none) : Sends queue id (queue.goto id pc)
  | finishes (idxMsg counter : Nat) (retval : Int)
      (was : (queue.senders id).pc = .finishing idxMsg counter retval) :
      Sends queue id (queue.finish id idxMsg counter retval)

theorem sends_of_call
    {waits : Bool}
    (calls : queue.call id msg waits = some next) :
    Sends queue id next ∧ (queue.senders id).pc = .outside := by
  unfold ScpMsgQueue.call at calls
  split at calls
  case isTrue => cases calls
  case isFalse isOutside =>
    cases calls
    refine ⟨.calls _ msg (not_not.mp isOutside) ?_ ?_, not_not.mp isOutside⟩
    all_goals
      repeat' split
      all_goals first | rfl | decide | nofun

theorem sends_of_send (sends : queue.send id choice = some next) : Sends queue id next := by
  unfold ScpMsgQueue.send at sends
  split at sends
  case h_1 waits was =>
    cases sends
    unfold push
    split
    case isTrue => exact .full waits was
    case isFalse room => exact .pushes waits was (Bool.eq_false_iff.mpr room)
  case h_5 was =>
    cases sends
    unfold afterWait
    repeat' split
    all_goals exact .waits _ (by rw [was]; rfl) nofun
  case h_6 was =>
    cases sends
    exact .finishes _ _ _ was
  case h_7 => cases sends
  -- The wait returns or is interrupted.
  all_goals
    rename_i was
    split at sends <;> cases sends
    exact .waits _ (by rw [was]; rfl) nofun

/-- A step of a call keeps the tickets. -/
theorem Tracked.send
    (tracked : Tracked queue results)
    (few : next.pushed.length < 2 ^ 32)
    (sends : Sends queue id next) :
    Tracked next results := by
  have kept := fun other idxMsg counter (_ : other ≠ id) => tracked.tickets other idxMsg counter
  have unique := tracked.unique
  have counts := tracked.recorded.counts
  have earlier := tracked.recorded.earlier
  cases sends with
  | calls pc msg was free nonzero =>
    refine tracked.update rfl tracked.recorded kept ?_
    intro _ _ isTicket
    cases free.symm.trans isTicket
  | full waits was => exact tracked.update rfl tracked.recorded kept nofun
  | waits pc same ongoing =>
    refine tracked.update rfl tracked.recorded kept ?_
    intro idxMsg counter isTicket
    rw [same] at isTicket
    exact ⟨tracked.tickets _ _ _ isTicket, fun _ _ again => unique _ _ _ _ _ again isTicket⟩
  | finishes idxMsg counter retval was =>
    have isTicket : (queue.senders id).pc.ticket = some (idxMsg, counter) := by
      rw [was]
      rfl
    unfold finish
    dsimp only
    split
    case isFalse => exact tracked.update rfl tracked.recorded kept nofun
    case isTrue isOwn =>
      refine tracked.update rfl (tracked.recorded.store rfl ?_) ?_ nofun
      · exact tracked.recorded.signalled idxMsg
      intro other otherIdx otherCounter apart again
      refine (kept _ _ _ apart again).store ?_
      rintro rfl same
      rw [← same, show _ = counter from isOwn] at again
      exact apart (unique _ _ _ _ _ again isTicket)
  | pushes waits was room =>
    have length : (queue.pushed ++ [(queue.pushed.length, (queue.senders id).msg)]).length =
      queue.pushed.length + 1 := by simp
    have recorded := @Recorded.push _ _ _ _ _ (queue.newElement (queue.senders id).msg waits)
      tracked.recorded room (length ▸ few) ⟨rfl, rfl⟩
    refine tracked.update rfl (length ▸ recorded) ?_ ?_
    · intro other idxMsg counter apart again
      exact (kept _ _ _ apart again).push counts
    intro idxMsg counter isTicket
    cases waits with
    | false => cases isTicket
    | true =>
      cases isTicket
      refine ⟨⟨?_, ?_, ?_, ?_⟩, ?_⟩
      · rw [counts]
        exact mem_append_right _ (mem_singleton.mpr rfl)
      · rw [counts]
        exact Nat.lt_of_lt_of_eq (Nat.lt_succ_self _) length.symm
      · intro _
        show ((queue.ring.push _).element queue.ring.idxW).waitInThread = true
        rw [Ring.element_push, if_pos rfl]
        rfl
      · intro _ _ retval member
        exact absurd counts (Nat.ne_of_lt (earlier _ member))
      · intro other otherIdx again
        exact absurd counts (Nat.ne_of_lt (tracked.tickets _ _ _ again).before)

end

section
variable {queue next : ScpMsgQueue} {results : List ((Nat × Nat) × Int)} {choice : Choice}
variable {thread : ThreadPc}
variable (tracked : Tracked queue results)
include tracked

theorem Tracked.moved
    (holds : thread.Holds queue.ring results)
    (other : ∀ idxMsg retval, queue.thread ≠ .handled idxMsg retval) :
    Tracked { queue with thread := thread } results := by
  refine ⟨{ tracked.recorded with holds := holds }, ?_, tracked.unique⟩
  intro id idxMsg counter isTicket
  have waits := tracked.tickets id idxMsg counter isTicket
  refine { waits with pending := ?_ }
  intro isOwn silent retval member
  exact absurd (waits.pending isOwn silent retval member) (other idxMsg retval)

/-- The function returns for the message in hand. -/
theorem Tracked.returns
    {idxMsg : Nat}
    {retval : Int}
    (isProcessing : queue.thread = .processing idxMsg) :
    Tracked { queue with thread := .handled idxMsg retval }
      (((idxMsg, (queue.ring.element idxMsg).queueCounter), retval) :: results) := by
  have recorded := tracked.recorded
  have holds := recorded.holds
  rw [isProcessing] at holds
  refine ⟨{ recorded with signalled := ?_, earlier := ?_, holds := ⟨holds, mem_cons_self⟩ },
    ?_, tracked.unique⟩
  · intro slot isSignalled
    exact mem_cons_of_mem _ (recorded.signalled slot isSignalled)
  · have bounded := recorded.bounded idxMsg
    have used := recorded.used holds.1
    intro result member
    rcases mem_cons.mp member with rfl | before
    · dsimp only
      omega
    · exact recorded.earlier result before
  intro id other counter isTicket
  have waits := tracked.tickets id other counter isTicket
  refine { waits with pending := ?_ }
  intro isOwn silent result member
  rcases mem_cons.mp member with isNew | before
  · cases isNew
    rfl
  have isHandled := waits.pending isOwn silent result before
  rw [isProcessing] at isHandled
  cases isHandled

/-- The thread notifies the call waiting for the message. -/
theorem Tracked.notified
    {idxMsg : Nat}
    {retval : Int}
    (isHandled : queue.thread = .handled idxMsg retval) :
    Tracked { queue.notify idxMsg retval with thread := .popping } results := by
  have recorded := tracked.recorded
  have holds := recorded.holds
  rw [isHandled] at holds
  unfold notify
  dsimp only
  -- Only the message in hand has a result that was not announced.
  split
  case isTrue awaits =>
    have stored : Recorded (queue.ring.store idxMsg { queue.ring.element idxMsg with
          sendRetval := retval, signalArrival := true }) queue.pushed.length queue.queueCounter
        queue.thread results :=
      recorded.store rfl fun _ => holds.2
    refine ⟨{ stored with holds := trivial }, ?_, tracked.unique⟩
    intro id other counter isTicket
    obtain ⟨member, before, awaited, pending⟩ := tracked.tickets id other counter isTicket
    exact ⟨member, before, by grind [Ring.element_store], by grind [Ring.element_store]⟩
  case isFalse idle =>
    refine ⟨{ recorded with holds := trivial }, ?_, tracked.unique⟩
    intro id other counter isTicket
    obtain ⟨member, before, awaited, pending⟩ := tracked.tickets id other counter isTicket
    exact ⟨member, before, awaited, by grind⟩

theorem Tracked.popped
    (isPopping : queue.thread = .popping) :
    Tracked { queue.popMsg with thread := .idle } results := by
  have moved := @Tracked.moved queue results .idle tracked trivial (by rw [isPopping]; nofun)
  unfold popMsg
  split
  case isTrue => exact moved
  case isFalse nonempty =>
    refine ⟨{ moved.recorded with used := fun _ => ?_ }, moved.tickets, moved.unique⟩
    exact tracked.recorded.used (Bool.eq_false_iff.mpr nonempty)

/-- A step of the thread keeps the tickets. -/
theorem Tracked.stepThread
    (steps : queue.stepThread choice = some next) :
    Tracked next (queue.resultOf (.thread choice) ++ results) := by
  unfold ScpMsgQueue.stepThread at steps
  split at steps
  case h_6 idxMsg retval isThread =>
    cases steps
    rw [ScpMsgQueue.resultOf, isThread]
    exact tracked.returns isThread
  case h_7 isThread =>
    cases steps
    exact tracked.notified isThread
  case h_8 isThread =>
    cases steps
    exact tracked.popped isThread
  case h_9 => cases steps
  case h_1 isThread =>
    cases steps
    refine tracked.moved ?_ (by rw [isThread]; nofun)
    split <;> trivial
  case h_2 isThread =>
    split at steps <;> cases steps
    exact tracked.moved trivial (by rw [isThread]; nofun)
  case h_3 isThread =>
    split at steps <;> cases steps
    refine tracked.moved ?_ (by rw [isThread]; nofun)
    split <;> trivial
  case h_4 isThread =>
    cases steps
    refine tracked.moved ?_ (by rw [isThread]; nofun)
    split
    case isTrue => trivial
    case isFalse nonempty => exact ⟨Bool.eq_false_iff.mpr nonempty, rfl⟩
  case h_5 idxMsg isThread =>
    cases steps
    have holds := tracked.recorded.holds
    rw [isThread] at holds
    have moved := @Tracked.moved queue results (.processing idxMsg) tracked holds
      (by rw [isThread]; nofun)
    exact { moved with }

end

variable {queue after : ScpMsgQueue} {state next : Observed} {event : Event} {events : List Event}

theorem pc_goto {id : Nat} {pc : SenderPc} : ((queue.goto id pc).senders id).pc = pc := by
  simp [goto]

theorem tracked_initSingleMsgQueue : Tracked initSingleMsgQueue [] :=
  ⟨⟨rfl, fun _ => Nat.le_refl 0, nofun, nofun, nofun, trivial⟩, nofun, nofun⟩

theorem perform_eq_some
    (performs : state.perform event = some next) :
    (event ≠ .flushDisables ∧ event ≠ .flushEmpties) ∧ state.queue.perform event = some next.queue ∧
    next.queue.pushed.length < 2 ^ 32 ∧
    next.results = state.queue.resultOf event ++ state.results := by
  unfold Observed.perform at performs
  split at performs
  case isTrue => cases performs
  case isFalse plain =>
    obtain ⟨queue, taken, isNext⟩ := bind_eq_some_iff.mp performs
    split at isNext <;> cases isNext
    case isTrue few => exact ⟨not_or.mp plain, taken, few, rfl⟩

theorem Tracked.step
    (tracked : Tracked state.queue state.results)
    (performs : state.perform event = some next) :
    Tracked next.queue next.results := by
  obtain ⟨⟨notDisables, notEmpties⟩, taken, few, results⟩ := perform_eq_some performs
  rw [results]
  cases event with
  | call id msg waits => exact tracked.send few (sends_of_call taken).1
  | send id choice => exact tracked.send few (sends_of_send taken)
  | thread choice => exact tracked.stepThread taken
  | flushDisables => exact absurd rfl notDisables
  | flushEmpties => exact absurd rfl notEmpties

theorem Sends.other
    {id other : Nat}
    (sends : Sends queue id after)
    (apart : other ≠ id) :
    after.senders other = queue.senders other := by
  cases sends with
  | finishes =>
    unfold finish
    dsimp only
    split <;> exact update_of_ne apart _ _
  | _ => exact update_of_ne apart _ _

theorem senders_stepThread
    {choice : Choice}
    (steps : queue.stepThread choice = some after) :
    after.senders = queue.senders := by
  unfold ScpMsgQueue.stepThread at steps
  repeat' split at steps
  all_goals cases steps
  case h_7 =>
    unfold notify
    dsimp only
    split <;> rfl
  case h_8 =>
    unfold popMsg
    split <;> rfl
  all_goals rfl

/-- A call in time returns its own result. -/
theorem Tracked.mayReturn
    {id : Nat}
    {ret : Int}
    (tracked : Tracked state.queue state.results)
    (inTime : state.queue.inTime id = true)
    (sends : Sends state.queue id after)
    (returns : (after.senders id).pc = .returned ret) :
    MayReturn state (state.queue.senders id).msg ret (state.queue.senders id).pc := by
  cases sends with
  | calls pc msg was free nonzero =>
    dsimp only at returns
    rw [update_self] at returns
    rw [was]
    rintro rfl
    exact nonzero returns
  | full waits was =>
    rw [pc_goto] at returns
    cases returns
    rw [was]
    exact fun _ => by decide
  | pushes waits was room =>
    rw [pc_goto] at returns
    rw [was]
    rintro rfl
    cases returns
  | waits pc same ongoing =>
    rw [pc_goto] at returns
    rw [returns] at ongoing
    exact absurd rfl ongoing
  | finishes idxMsg counter retval was =>
    have waits := tracked.tickets id idxMsg counter (by rw [was]; rfl)
    rw [ScpMsgQueue.inTime, was] at inTime
    rw [was]
    unfold finish at returns
    dsimp only at returns
    split at returns
    case isFalse reused =>
      rw [pc_goto] at returns
      cases returns
      refine ⟨waits.member, ?_, .inl rfl⟩
      rintro rfl
      simp [reused] at inTime
    case isTrue isOwn =>
      rw [pc_goto] at returns
      cases isSignalled : (state.queue.ring.element idxMsg).signalArrival with
      | true =>
        have member := tracked.recorded.signalled idxMsg isSignalled
        rw [isSignalled] at returns
        cases returns
        rw [isOwn] at member
        refine ⟨waits.member, fun isZero => .inl ?_, .inr member⟩
        rw [← isZero]
        exact member
      | false =>
        rw [isSignalled] at returns
        cases returns
        refine ⟨waits.member, ?_, .inl rfl⟩
        rintro rfl
        by_cases isDone : ∃ other, ((idxMsg, counter), other) ∈ state.results
        · obtain ⟨other, member⟩ := isDone
          have isHandled := waits.pending isOwn isSignalled other member
          have isZero : other = 0 := by simpa [isHandled, isOwn, ThreadPc.failedAt] using inTime
          exact .inl (isZero ▸ member)
        · exact .inr (not_exists.mp isDone)

/--
In a run whose results are taken in time, every call that returns has the
result of its own message.
-/
theorem ownResults_of_run
    (run : Run (Observed.Step Observed.performInTime) ⟨initSingleMsgQueue, []⟩ events state)
    (step : state.performInTime event = some next) :
    OwnResults state next := by
  have plain {before after : Observed} {event : Event}
      (performs : before.performInTime event = some after) : event.inTime before.queue = true ∧
      before.perform event = some after := by
    unfold Observed.performInTime at performs
    split at performs
    case isTrue inTime => exact ⟨inTime, performs⟩
    case isFalse => cases performs
  have tracked := @Run.always _ _ _ _ _ _ (fun state => Tracked state.queue state.results)
    tracked_initSingleMsgQueue (fun _ _ _ before taken => before.step (plain taken).2) run
  obtain ⟨inTime, performs⟩ := plain step
  obtain ⟨⟨notDisables, notEmpties⟩, taken, _, _⟩ := perform_eq_some performs
  intro id ret returns before
  have only {sender : Nat} (sends : Sends state.queue sender next.queue)
      (inTime : state.queue.inTime sender = true) :
      MayReturn state (state.queue.senders id).msg ret (state.queue.senders id).pc := by
    by_cases same : id = sender
    · subst same
      exact tracked.mayReturn inTime sends returns
    · rw [sends.other same] at returns
      exact absurd returns before
  cases event with
  | call caller msg waits =>
    obtain ⟨sends, was⟩ := sends_of_call taken
    exact only sends (by rw [ScpMsgQueue.inTime, was])
  | send sender choice => exact only (sends_of_send taken) inTime
  | thread choice =>
    rw [senders_stepThread taken] at returns
    exact absurd returns before
  | flushDisables => exact absurd rfl notDisables
  | flushEmpties => exact absurd rfl notEmpties

/-- A turn of the thread whose send has a result. -/
def turn (retval : Int) : List Event :=
  [.thread .go, .thread .go, .thread .go, .thread (.returns retval), .thread .go, .thread .go]

/-- A call has waited for a send that failed. -/
def failedSend : List Event :=
  [.call 0 firstMsg true, .send 0 .go] ++ turn (-1) ++ [.send 0 .go, .send 0 .go]

theorem isSome_failedSend :
    (execute Observed.performInTime ⟨initSingleMsgQueue, []⟩ failedSend).isSome := by
  decide +kernel

/-- The state in which the call takes its result. -/
def failedState : Observed :=
  (execute Observed.performInTime ⟨initSingleMsgQueue, []⟩ failedSend).get isSome_failedSend

theorem ownResults_of_run_failedSend :
    ∃ next, failedState.performInTime (.send 0 .go) = some next ∧ OwnResults failedState next := by
  have isSome : (failedState.performInTime (.send 0 .go)).isSome := by decide +kernel
  obtain ⟨next, performs⟩ := isSome_iff_exists.mp isSome
  exact ⟨next, performs, ownResults_of_run (run_of_execute (fun _ _ _ _ performs => performs)
    (some_get isSome_failedSend).symm) performs⟩

/-- Sixteen other messages are pushed before the call takes its result. -/
def lateSend : List Event :=
  failedSend ++ (range 15).flatMap (fun id =>
    [.call (id + 1) firstMsg false, .send (id + 1) .go]) ++ turn 0 ++
    [.call 16 firstMsg false, .send 16 .go]

theorem isSome_lateSend : (execute Observed.perform ⟨initSingleMsgQueue, []⟩ lateSend).isSome := by
  decide +kernel

/-- The state in which the call looks for its result. -/
def lateState : Observed :=
  (execute Observed.perform ⟨initSingleMsgQueue, []⟩ lateSend).get isSome_lateSend

/-- The send has failed, and the call returns zero. -/
theorem zero_for_failed_send :
    Run (Observed.Step Observed.perform) ⟨initSingleMsgQueue, []⟩ lateSend lateState ∧
    lateState.results = [((1, 1), 0), ((0, 0), -1)] ∧ ∃ next, lateState.perform (.send 0 .go) =
    some next ∧ (next.queue.senders 0).pc = .returned 0 ∧ ¬ OwnResults lateState next := by
  have results : lateState.results = [((1, 1), 0), ((0, 0), -1)] := by decide +kernel
  have isNext : (lateState.perform (.send 0 .go)).map (fun next => (next.queue.senders 0).pc) =
      some (.returned 0) := by
    decide +kernel
  obtain ⟨next, performs, returns⟩ := map_eq_some_iff.mp isNext
  refine ⟨run_of_execute (fun _ _ _ _ performs => performs)
    (some_get isSome_lateSend).symm, results, next, performs, returns, ?_⟩
  intro own
  have may := own 0 0 returns (by nofun)
  rcases may.2.1 rfl with isZero | none
  · exact absurd isZero (by decide)
  · exact none (-1) (by decide)

end EchoKernel.AdspIpi
