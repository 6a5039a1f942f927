import EchoKernel.AudioIpiQueuePlaced
import EchoKernel.LabelledRun

namespace EchoKernel.AudioIpi

open RingQueue LabelledRun Option List MsgQueue Ring

/-!
# Messages of calls that have returned

A call that waits for its turn leaves its message behind when it gives up
after two hundred signals, or when the queue is disabled with another message
before its own. Otherwise all entries belong to calls inside `send_message`.
-/

section
variable (queue : MsgQueue)

/-- Every entry belongs to a call that is still inside. -/
def Owned : Prop :=
  ∀ entry ∈ queue.ring.entries, ∃ id, entry.2 = some id ∧ (queue.callers id).pc.inside = true

/-- At most one call is inside. -/
def Alone : Prop :=
  ∀ id other, (queue.callers id).pc.inside = true →
    (queue.callers other).pc.inside = true → other = id

/--
A signal is not the last that a waiting call endures, and the queue is
disabled with one call inside at most.
-/
def Event.KeepsTurns : Event → Prop
  | .advance id .signalled =>
    ∀ slot tryCnt, (queue.callers id).pc = .waiting slot tryCnt → tryCnt + 1 < maxTurnTries
  | .disable => Alone queue
  | _ => True

def Step (event : Event) (next : MsgQueue) : Prop := queue.perform event = some next

/-- A step that keeps the turns. -/
def TurnStep (event : Event) (next : MsgQueue) : Prop :=
  event.KeepsTurns queue ∧ queue.perform event = some next

/-- A call behind its wait is first or may try again. -/
def OnTurn : Pc → Prop
  | .waited slot tryCnt retval =>
    retval = 0 ∧ queue.turnComes slot = true ∨ retval ≠ 0 ∧ tryCnt + 1 < maxTurnTries
  | .enabled slot tryCnt retval =>
    retval = 0 ∧ queue.ring.idxR = slot ∨ retval ≠ 0 ∧ tryCnt + 1 < maxTurnTries
  | .decided slot retval => retval = 0 ∧ queue.ring.idxR = slot
  | _ => True

end

/-- What steps that keep the turns preserve. -/
structure Settled (queue : MsgQueue) : Prop where
  placed : Placed queue
  owned : Owned queue
  alone : queue.enable = false → Alone queue
  turn : ∀ id, OnTurn queue (queue.callers id).pc

section
variable {queue next : MsgQueue} {id : Nat} {choice : Choice}

theorem settled_createMsgQueue : Settled createMsgQueue := by
  refine ⟨placed_createMsgQueue, ?_, nofun, fun _ => trivial⟩
  intro entry member
  cases member

/-- In a disabled queue a call that has pushed is first. -/
theorem Settled.first_of_disabled
    {slot : Nat}
    (settled : Settled queue)
    (disabled : queue.enable = false)
    (isSlot : (queue.callers id).pc.slot = some slot) :
    queue.ring.idxR = slot := by
  have mine := settled.placed.pushed id slot isSlot
  have head : (queue.ring.idxR, queue.ring.element queue.ring.idxR) ∈ queue.ring.entries := by
    rw [entries_pop (nonempty_of_mem mine)]
    exact mem_cons_self
  obtain ⟨owner, isOwner, ownerInside⟩ := settled.owned _ head
  have isMine : owner = id := settled.alone disabled id owner (Pc.inside_of_slot isSlot) ownerInside
  have same :=
    inj_on_of_nodup_map settled.placed.once head mine (isOwner.trans (congrArg some isMine))
  exact congrArg Prod.fst same

section
variable (advanced : Advanced queue id choice next)
include advanced

theorem Advanced.wasInside : (queue.callers id).pc.inside = true := by
  cases advanced.place with
  | kept slot wasIn _ _ _ => exact Pc.inside_of_slot wasIn
  | pushed was _ _ _ _ _ | refused was _ _ | popped slot retval was _ _
  | left slot retval result was _ _ _ => rw [was]; rfl

section
variable {other slot : Nat} (placed : Placed queue) (apart : other ≠ id)
  (isSlot : (queue.callers other).pc.slot = some slot)
include placed apart isSlot

/-- Another call stays the first one. -/
theorem Advanced.first_kept (isFirst : queue.ring.idxR = slot) : next.ring.idxR = slot := by
  cases advanced.place with
  | kept _ _ _ ring _ | refused _ ring _ | left _ _ _ _ ring _ _ => rw [ring, isFirst]
  | pushed _ _ ring _ _ _ =>
    rw [ring, ← isFirst]
    rfl
  | popped place retval was _ _ =>
    have isPlace : (queue.callers id).pc.slot = some place := by
      rw [was]
      rfl
    have alsoFirst := placed.first id place (by rw [was]; rfl) isPlace
    exact absurd (placed.eq_of_first isPlace isSlot alsoFirst isFirst) apart

theorem Advanced.turnComes_kept
    (comes : queue.turnComes slot = true) :
    next.turnComes slot = true := by
  simp only [turnComes, Bool.or_eq_true, beq_iff_eq, advanced.enable] at comes ⊢
  rcases comes with isFirst | disabled
  · exact .inl (advanced.first_kept placed apart isSlot isFirst)
  · exact .inr disabled

end

/-- The other calls stay on their turns. -/
theorem Advanced.onTurn_other
    {other : Nat}
    (placed : Placed queue)
    (apart : other ≠ id)
    (onTurn : OnTurn queue (queue.callers other).pc) :
    OnTurn next (next.callers other).pc := by
  rw [advanced.others other apart]
  cases isPc : (queue.callers other).pc with
  | waited slot tryCnt retval =>
    rw [isPc] at onTurn
    rcases onTurn with ⟨isZero, comes⟩ | retries
    · exact .inl ⟨isZero, advanced.turnComes_kept placed apart (by rw [isPc]; rfl) comes⟩
    · exact .inr retries
  | enabled slot tryCnt retval =>
    rw [isPc] at onTurn
    rcases onTurn with ⟨isZero, isFirst⟩ | retries
    · exact .inl ⟨isZero, advanced.first_kept placed apart (by rw [isPc]; rfl) isFirst⟩
    · exact .inr retries
  | decided slot retval =>
    rw [isPc] at onTurn
    exact ⟨onTurn.1, advanced.first_kept placed apart (by rw [isPc]; rfl) onTurn.2⟩
  | _ => trivial

/-- A call that keeps its slot keeps the ring. -/
theorem Advanced.ring_of_slot
    {slot : Nat}
    (notChecked : (queue.callers id).pc ≠ .checked)
    (isSlot : (next.callers id).pc.slot = some slot) :
    next.ring = queue.ring := by
  cases advanced.place with
  | kept _ _ _ ring _ => exact ring
  | pushed was _ _ _ _ _ | refused was _ _ => exact absurd was notChecked
  | popped _ _ _ _ isOut =>
    rw [isOut] at isSlot
    cases isSlot
  | left _ _ _ _ ring _ _ => exact ring

end

variable (settled : Settled queue)
include settled

/-- The call itself stays on its turn. -/
theorem Settled.onTurn_self
    (advanced : Advanced queue id choice next)
    (safe : (Event.advance id choice).KeepsTurns queue) :
    OnTurn next (next.callers id).pc := by
  have onTurn := settled.turn id
  have rule := advanced.turn
  cases isPc : (next.callers id).pc with
  | waited slot tryCnt retval =>
    rw [isPc] at rule
    obtain ⟨isBefore, comes⟩ := rule
    have ring := Advanced.ring_of_slot advanced (by rw [isBefore]; nofun) (by rw [isPc]; rfl)
    rcases comes with ⟨isZero, comes⟩ | ⟨failed, rfl⟩
    · refine .inl ⟨isZero, ?_⟩
      rw [turnComes, ring, advanced.enable]
      exact comes
    · exact .inr ⟨failed, safe slot tryCnt isBefore⟩
  | enabled slot tryCnt retval =>
    rw [isPc] at rule
    obtain ⟨isBefore, enabled⟩ := rule
    have ring := Advanced.ring_of_slot advanced (by rw [isBefore]; nofun) (by rw [isPc]; rfl)
    rw [isBefore] at onTurn
    rcases onTurn with ⟨isZero, comes⟩ | retries
    · refine .inl ⟨isZero, ?_⟩
      rw [ring]
      simpa [turnComes, enabled] using comes
    · exact .inr retries
  | decided slot result =>
    rw [isPc] at rule
    have notChecked : (queue.callers id).pc ≠ .checked := by
      rcases rule with ⟨_, _, isBefore, _⟩ | ⟨_, _, isBefore, _⟩
      · rw [isBefore]
        nofun
      · rw [isBefore]
        nofun
    have ring := Advanced.ring_of_slot advanced notChecked (by rw [isPc]; rfl)
    have decides : result = 0 ∧ queue.ring.idxR = slot := by
      rcases rule with ⟨_, _, isBefore, disabled, isZero⟩ | ⟨_, _, isBefore, outcome⟩
      · exact ⟨isZero, settled.first_of_disabled disabled (by rw [isBefore]; rfl)⟩
      rw [isBefore] at onTurn
      rcases outcome with ⟨isZero, isFirst | came⟩ | ⟨failed, last⟩
      · exact ⟨isZero, isFirst⟩
      · rcases onTurn with ⟨_, isFirst⟩ | ⟨failed, _⟩
        · exact ⟨isZero, isFirst⟩
        · exact absurd came failed
      · rcases onTurn with ⟨came, _⟩ | ⟨_, again⟩
        · exact absurd came failed
        · exact absurd again last
    exact ⟨decides.1, by rw [ring]; exact decides.2⟩
  | _ => trivial

/-- The entries stay those of calls that are inside. -/
theorem Settled.owned_advanced (advanced : Advanced queue id choice next) : Owned next := by
  have placed := settled.placed
  have others : ∀ entry ∈ queue.ring.entries, entry.2 ≠ some id → ∃ other, entry.2 = some other ∧
      (next.callers other).pc.inside = true := by
    intro entry member apart
    obtain ⟨other, isOther, isInside⟩ := settled.owned entry member
    have differs : other ≠ id := by
      rintro rfl
      exact apart isOther
    rw [← advanced.others other differs] at isInside
    exact ⟨other, isOther, isInside⟩
  have stays : (next.callers id).pc.inside = true → ∀ entry ∈ queue.ring.entries,
      ∃ other, entry.2 = some other ∧ (next.callers other).pc.inside = true := by
    intro isInside entry member
    by_cases isMine : entry.2 = some id
    · exact ⟨id, isMine, isInside⟩
    · exact others entry member isMine
  cases advanced.place with
  | kept slot wasIn isIn ring head =>
    rw [Owned, ring]
    exact stays (Pc.inside_of_slot isIn)
  | pushed was room ring isIn head enters =>
    rw [Owned, ring, entries_push room]
    refine List.forall_mem_append.mpr ⟨stays (Pc.inside_of_slot isIn), ?_⟩
    exact List.forall_mem_singleton.mpr ⟨id, rfl, Pc.inside_of_slot isIn⟩
  | refused was ring isOut =>
    rw [Owned, ring]
    intro entry member
    refine others entry member ?_
    intro isMine
    obtain ⟨other, isOther, _, notChecked⟩ := placed.known entry member
    rw [isMine, some.injEq] at isOther
    rw [← isOther] at notChecked
    exact notChecked was
  | popped slot retval was ring isOut =>
    have isSlot : (queue.callers id).pc.slot = some slot := by
      rw [was]
      rfl
    have mine := placed.pushed id slot isSlot
    have nonempty := nonempty_of_mem mine
    have isFirst := placed.first id slot (by rw [was]; rfl) isSlot
    have isId : queue.ring.element queue.ring.idxR = some id := by
      rw [isFirst]
      exact element_of_mem mine
    have once := placed.once
    rw [entries_pop nonempty, map_cons, nodup_cons, isId] at once
    rw [Owned, ring, popMsg, if_neg (by simp [nonempty])]
    intro entry member
    refine others entry (mem_of_mem_pop nonempty member) ?_
    intro isMine
    exact once.1 (mem_map.mpr ⟨entry, member, isMine⟩)
  | left slot retval result was ring isOut early =>
    have onTurn := settled.turn id
    rw [was] at onTurn
    rcases early with failed | notFirst
    · exact absurd onTurn.1 failed
    · exact absurd onTurn.2 notFirst

theorem Settled.advanced
    (advanced : Advanced queue id choice next)
    (safe : (Event.advance id choice).KeepsTurns queue) :
    Settled next := by
  refine ⟨settled.placed.advanced advanced, settled.owned_advanced advanced, ?_, ?_⟩
  · intro disabled first second isFirst isSecond
    have wasInside : ∀ other, (next.callers other).pc.inside = true →
        (queue.callers other).pc.inside = true := by
      intro other isInside
      by_cases same : other = id
      · rw [same]
        exact advanced.wasInside
      · rwa [advanced.others other same] at isInside
    rw [advanced.enable] at disabled
    exact settled.alone disabled first second (wasInside first isFirst) (wasInside second isSecond)
  · intro other
    by_cases same : other = id
    · rw [same]
      exact settled.onTurn_self advanced safe
    · exact advanced.onTurn_other settled.placed same (settled.turn other)

theorem Settled.called (called : Called queue id next) : Settled next := by
  refine ⟨settled.placed.called called, ?_, ?_, ?_⟩
  · rw [Owned, called.ring]
    intro entry member
    obtain ⟨other, isOther, isInside⟩ := settled.owned entry member
    have differs : other ≠ id := by
      rintro rfl
      rw [called.was] at isInside
      cases isInside
    rw [← called.others other differs] at isInside
    exact ⟨other, isOther, isInside⟩
  · intro disabled first second isFirst isSecond
    rw [called.enable] at disabled
    have wasInside : ∀ other, (next.callers other).pc.inside = true →
        (queue.callers other).pc.inside = true := by
      intro other isInside
      by_cases same : other = id
      · rw [same] at isInside
        rcases called.isNow with ⟨_, enabled⟩ | ⟨retval, isReturned⟩
        · rw [disabled] at enabled
          cases enabled
        · rw [isReturned] at isInside
          cases isInside
      · rwa [called.others other same] at isInside
    exact settled.alone disabled first second (wasInside first isFirst) (wasInside second isSecond)
  · intro other
    by_cases same : other = id
    · rw [same]
      rcases called.isNow with ⟨isChecked, _⟩ | ⟨retval, isReturned⟩
      · rw [isChecked]
        trivial
      · rw [isReturned]
        trivial
    · have onTurn := settled.turn other
      rw [called.others other same]
      unfold OnTurn turnComes at onTurn ⊢
      rw [called.ring, called.enable]
      exact onTurn

/-- A step that keeps the turns keeps the entries owned. -/
theorem Settled.step {event : Event} (step : TurnStep queue event next) : Settled next := by
  obtain ⟨safe, performs⟩ := step
  cases event with
  | call id msg ready direct => exact settled.called (called_call performs)
  | advance id choice => exact settled.advanced (advanced_advance performs) safe
  | ackArrives ack =>
    obtain ⟨_, rfl⟩ := exists_of_ackArrives performs
    exact ⟨settled.placed.of_same rfl rfl, settled.owned, settled.alone, settled.turn⟩
  | ackStored ack =>
    obtain ⟨_, rfl⟩ := exists_of_ackStored performs
    exact ⟨settled.placed.of_same rfl rfl, settled.owned, settled.alone, settled.turn⟩
  | disable =>
    cases performs
    refine ⟨settled.placed.of_same rfl rfl, settled.owned, fun _ => safe, ?_⟩
    intro id
    have onTurn := settled.turn id
    cases isPc : (queue.callers id).pc with
    | waited slot tryCnt retval =>
      rw [isPc] at onTurn
      rcases onTurn with ⟨isZero, _⟩ | retries
      · exact .inl ⟨isZero, by simp [turnComes]⟩
      · exact .inr retries
    | enabled slot tryCnt retval | decided slot retval =>
      rw [isPc] at onTurn
      exact onTurn
    | _ => trivial

end

variable {queue : MsgQueue} {events : List Event}

/--
In a run whose steps keep the turns every entry belongs to a call that is
still inside, so no message of a returned call is left.
-/
theorem owned_of_run
    (run : Run TurnStep createMsgQueue events queue) :
    Owned queue ∧
    ∀ id retval slot, (queue.callers id).pc = .returned retval →
      (slot, some id) ∉ queue.ring.entries := by
  have settled : Settled queue :=
    run.always settled_createMsgQueue (fun _ _ _ settled step => settled.step step)
  refine ⟨settled.owned, ?_⟩
  intro id retval slot isReturned member
  obtain ⟨owner, isOwner, isInside⟩ := settled.owned _ member
  rw [← some.inj isOwner, isReturned] at isInside
  cases isInside

/-- A message that needs no acknowledgement. -/
def plainMsg : IpiMsg := ⟨ipiMsgMagicNumber, 0, .bypassAck, 1, none⟩

/-- Two calls, one message before the other, and the queue disabled. -/
def disabledBehind : List Event :=
  [.call 0 plainMsg true 0, .call 1 plainMsg true 0, .advance 0 .go,
    .advance 1 .go, .disable, .advance 1 .go, .advance 1 .go,
    .advance 1 .go, .advance 0 .go, .advance 0 .go, .advance 0 .go]

theorem isSome_disabledBehind : (execute perform createMsgQueue disabledBehind).isSome := by
  decide +kernel

/-- The state after both calls have returned. -/
def abandonedQueue : MsgQueue :=
  (execute perform createMsgQueue disabledBehind).get isSome_disabledBehind

/-- The queue keeps the message of a returned call. -/
theorem not_owned_abandonedQueue :
    Run Step createMsgQueue disabledBehind abandonedQueue ∧
    abandonedQueue.ring.entries = [(1, some 1)] ∧ (abandonedQueue.callers 0).pc = .returned 0 ∧
    (abandonedQueue.callers 1).pc = .returned (-1) ∧ ¬ Owned abandonedQueue := by
  have entries : abandonedQueue.ring.entries = [(1, some 1)] := by decide +kernel
  have isReturned : (abandonedQueue.callers 1).pc = .returned (-1) := by decide +kernel
  refine ⟨?_, entries, by decide +kernel, isReturned, ?_⟩
  · exact run_of_execute (fun _ _ _ _ performs => performs) (some_get isSome_disabledBehind).symm
  intro owned
  obtain ⟨owner, isOwner, isInside⟩ := owned (1, some 1) (by rw [entries]; simp)
  rw [← some.inj isOwner] at isInside
  cases isInside

/-- Two calls; the first has sent its message and returned, the second waits for its turn. -/
def secondWaits : List Event :=
  [.call 0 plainMsg true 0, .call 1 plainMsg true 0, .advance 0 .go, .advance 1 .go,
    .advance 0 .go, .advance 0 .go, .advance 0 (.scp 0), .advance 0 .go]

theorem isSome_secondWaits : (execute perform createMsgQueue secondWaits).isSome := by
  decide +kernel

/-- The queue after the first call has returned. -/
def waitingQueue : MsgQueue :=
  (execute perform createMsgQueue secondWaits).get isSome_secondWaits

/-- The call that returned has no message left. -/
theorem owned_of_run_secondWaits :
    (waitingQueue.callers 0).pc = .returned 0 ∧ waitingQueue.ring.entries = [(1, some 1)] ∧
    Owned waitingQueue ∧ ∀ slot, (slot, some 0) ∉ waitingQueue.ring.entries := by
  have isReturned : (waitingQueue.callers 0).pc = .returned 0 := by decide +kernel
  have safe : ∀ before, ∀ event ∈ secondWaits, Event.KeepsTurns before event := by
    intro before event member
    simp only [secondWaits, mem_cons, not_mem_nil, or_false] at member
    rcases member with rfl | rfl | rfl | rfl | rfl | rfl | rfl | rfl <;> trivial
  have run : Run TurnStep createMsgQueue secondWaits waitingQueue :=
    run_of_execute (fun before event member _ performs => ⟨safe before event member, performs⟩)
      (some_get isSome_secondWaits).symm
  obtain ⟨owned, absent⟩ := owned_of_run run
  exact ⟨isReturned, by decide +kernel, owned, fun slot => absent 0 0 slot isReturned⟩

end EchoKernel.AudioIpi
