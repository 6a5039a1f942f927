import EchoKernel.AudioIpiQueueSteps

namespace EchoKernel.AudioIpi

open RingQueue List Option MsgQueue Ring

/-!
# The places of the calls in the queue

In every run a call whose message was pushed has its entry in the queue, and
one inside `process_message_in_queue` owns the first entry.
-/

/-- The calls' pushed messages and the queue's entries. -/
structure Placed (queue : MsgQueue) : Prop where
  pushed : ∀ id slot, (queue.callers id).pc.slot = some slot → (slot, some id) ∈ queue.ring.entries
  first :
    ∀ id slot, (queue.callers id).pc.atHead = true →
      (queue.callers id).pc.slot = some slot → queue.ring.idxR = slot
  known : ∀ entry ∈ queue.ring.entries, ∃ id, entry.2 = some id ∧ (queue.callers id).pc ≠ .outside ∧
        (queue.callers id).pc ≠ .checked
  once : (queue.ring.entries.map Prod.snd).Nodup

variable {queue next : MsgQueue} {id : Nat} {choice : Choice}

theorem placed_createMsgQueue : Placed createMsgQueue := by
  refine ⟨nofun, nofun, ?_, ?_⟩
  · nofun
  · exact nodup_nil

section
variable (placed : Placed queue)
include placed

/-- Only one call owns the slot at the read index. -/
theorem Placed.eq_of_first
    {other slot place : Nat}
    (isSlot : (queue.callers id).pc.slot = some slot)
    (isPlace : (queue.callers other).pc.slot = some place)
    (first : queue.ring.idxR = slot)
    (alsoFirst : queue.ring.idxR = place) :
    other = id := by
  have mine := element_of_mem (placed.pushed id slot isSlot)
  have theirs := element_of_mem (placed.pushed other place isPlace)
  rw [← first] at mine
  rw [← alsoFirst, mine] at theirs
  exact (some.inj theirs).symm

/-- Only one call handles its message at a time. -/
theorem Placed.eq_of_atHead
    {other : Nat}
    (isHead : (queue.callers id).pc.atHead = true)
    (alsoHead : (queue.callers other).pc.atHead = true) :
    other = id := by
  have exists_slot : ∀ pc : Pc, pc.atHead = true → ∃ slot, pc.slot = some slot := by
    intro pc atHead
    cases pc <;> first | exact ⟨_, rfl⟩ | cases atHead
  obtain ⟨slot, isSlot⟩ := exists_slot _ isHead
  obtain ⟨place, isPlace⟩ := exists_slot _ alsoHead
  exact placed.eq_of_first isSlot isPlace (placed.first id slot isHead isSlot)
    (placed.first other place alsoHead isPlace)

section
variable (others : ∀ other, other ≠ id → next.callers other = queue.callers other)
include others

/-- A call without a place around a step that keeps the ring. -/
theorem Placed.of_silent
    (ring : next.ring = queue.ring)
    (noSlot : (next.callers id).pc.slot = none)
    (later : (queue.callers id).pc = .outside ∨ (next.callers id).pc ≠ .outside ∧
      (next.callers id).pc ≠ .checked) :
    Placed next := by
  refine ⟨?_, ?_, ?_, ?_⟩
  · intro other slot isSlot
    by_cases same : other = id
    · rw [same, noSlot] at isSlot
      cases isSlot
    rw [ring]
    rw [others other same] at isSlot
    exact placed.pushed other slot isSlot
  · intro other slot isHead isSlot
    by_cases same : other = id
    · rw [same, noSlot] at isSlot
      cases isSlot
    rw [ring]
    rw [others other same] at isHead isSlot
    exact placed.first other slot isHead isSlot
  · intro entry member
    rw [ring] at member
    obtain ⟨other, isOther, notOutside, notChecked⟩ := placed.known entry member
    refine ⟨other, isOther, ?_⟩
    by_cases same : other = id
    · rw [same] at notOutside ⊢
      exact later.resolve_left notOutside
    · rw [others other same]
      exact ⟨notOutside, notChecked⟩
  · rw [ring]
    exact placed.once

theorem Placed.of_kept
    {slot : Nat}
    (ring : next.ring = queue.ring)
    (wasIn : (queue.callers id).pc.slot = some slot)
    (isIn : (next.callers id).pc.slot = some slot)
    (head : (next.callers id).pc.atHead = true →
      (queue.callers id).pc.atHead = true ∨ queue.ring.idxR = slot) :
    Placed next := by
  refine ⟨?_, ?_, ?_, ?_⟩
  · intro other place isPlace
    rw [ring]
    by_cases same : other = id
    · subst same
      rw [isIn] at isPlace
      exact placed.pushed other place (wasIn.trans isPlace)
    · rw [others other same] at isPlace
      exact placed.pushed other place isPlace
  · intro other place isHead isPlace
    rw [ring]
    by_cases same : other = id
    · subst same
      rw [isIn] at isPlace
      rcases head isHead with wasHead | isFirst
      · exact placed.first other place wasHead (wasIn.trans isPlace)
      · exact isFirst.trans (some.inj isPlace)
    · rw [others other same] at isHead isPlace
      exact placed.first other place isHead isPlace
  · intro entry member
    rw [ring] at member
    obtain ⟨other, isOther, notOutside, notChecked⟩ := placed.known entry member
    refine ⟨other, isOther, ?_⟩
    by_cases same : other = id
    · rw [same]
      constructor <;>
        · intro isPc
          rw [isPc] at isIn
          cases isIn
    · rw [others other same]
      exact ⟨notOutside, notChecked⟩
  · rw [ring]
    exact placed.once

theorem Placed.of_pushed
    (was : (queue.callers id).pc = .checked)
    (room : queue.ring.toBeFull = false)
    (ring : next.ring = queue.ring.push (some id))
    (isIn : (next.callers id).pc.slot = some queue.ring.idxW)
    (head : (next.callers id).pc.atHead = queue.ring.isEmpty) :
    Placed next := by
  have entries : next.ring.entries = queue.ring.entries ++ [(queue.ring.idxW, some id)] := by
    rw [ring, entries_push room]
  have apart : ∀ entry ∈ queue.ring.entries, entry.2 ≠ some id := by
    intro entry member isId
    obtain ⟨other, isOther, _, notChecked⟩ := placed.known entry member
    rw [isId, some.injEq] at isOther
    rw [← isOther] at notChecked
    exact notChecked was
  refine ⟨?_, ?_, ?_, ?_⟩
  · intro other slot isSlot
    rw [entries]
    by_cases same : other = id
    · subst same
      rw [isIn, some.injEq] at isSlot
      rw [isSlot]
      exact mem_append_right _ (by simp)
    · rw [others other same] at isSlot
      exact mem_append_left _ (placed.pushed other slot isSlot)
  · intro other slot isHead isSlot
    have sameIndex : next.ring.idxR = queue.ring.idxR := by
      rw [ring]
      rfl
    rw [sameIndex]
    by_cases same : other = id
    · subst same
      rw [isIn, some.injEq] at isSlot
      rw [head] at isHead
      have equal : queue.ring.idxR = queue.ring.idxW := by simpa [Ring.isEmpty] using isHead
      exact equal.trans isSlot
    · rw [others other same] at isHead isSlot
      exact placed.first other slot isHead isSlot
  · intro entry member
    rw [entries] at member
    rcases mem_append.mp member with before | last
    · obtain ⟨other, isOther, known⟩ := placed.known entry before
      have differs : other ≠ id := by
        rintro rfl
        exact apart entry before isOther
      exact ⟨other, isOther, by rw [others other differs]; exact known⟩
    · rw [mem_singleton.mp last]
      refine ⟨id, rfl, ?_⟩
      constructor <;>
        · intro isPc
          rw [isPc] at isIn
          cases isIn
  · rw [entries, map_append, nodup_append]
    refine ⟨placed.once, by simp, ?_⟩
    intro element member last isLast same
    obtain ⟨entry, inside, isElement⟩ := mem_map.mp member
    rw [map_singleton, mem_singleton] at isLast
    exact apart entry inside (isElement.trans (same.trans isLast))

theorem Placed.of_popped
    {slot : Nat}
    {retval result : Int}
    (was : (queue.callers id).pc = .popping slot retval)
    (ring : next.ring = queue.popMsg.ring)
    (isOut : (next.callers id).pc = .returned result) :
    Placed next := by
  have isSlot : (queue.callers id).pc.slot = some slot := by rw [was]; rfl
  have atHead : (queue.callers id).pc.atHead = true := by rw [was]; rfl
  have isFirst := placed.first id slot atHead isSlot
  have nonempty := nonempty_of_mem (placed.pushed id slot isSlot)
  have popped : next.ring = queue.ring.pop := by
    rw [ring, popMsg, if_neg (by simp [nonempty])]
  refine ⟨?_, ?_, ?_, ?_⟩
  · intro other place isPlace
    by_cases same : other = id
    · rw [same, isOut] at isPlace
      cases isPlace
    rw [others other same] at isPlace
    rw [popped]
    refine mem_pop (placed.pushed other place isPlace) ?_
    intro alsoFirst
    exact same (placed.eq_of_first isSlot isPlace isFirst alsoFirst.symm)
  · intro other place isHead isPlace
    by_cases same : other = id
    · rw [same, isOut] at isPlace
      cases isPlace
    · rw [others other same] at isHead
      exact absurd (placed.eq_of_atHead atHead isHead) same
  · intro entry member
    rw [popped] at member
    obtain ⟨other, isOther, known⟩ := placed.known entry (mem_of_mem_pop nonempty member)
    refine ⟨other, isOther, ?_⟩
    by_cases same : other = id
    · rw [same, isOut]
      exact ⟨nofun, nofun⟩
    · rw [others other same]
      exact known
  · have once := placed.once
    rw [entries_pop nonempty, map_cons, nodup_cons] at once
    rw [popped]
    exact once.2

end

/-- Every step of a call keeps the places. -/
theorem Placed.advanced (advanced : Advanced queue id choice next) : Placed next := by
  cases advanced.place with
  | kept slot wasIn isIn ring head => exact placed.of_kept advanced.others ring wasIn isIn head
  | pushed was room ring isIn head _ =>
    exact placed.of_pushed advanced.others was room ring isIn head
  | refused was ring isOut | left slot retval result was ring isOut early =>
    refine placed.of_silent advanced.others ring ?_ (.inr ?_)
    · rw [isOut]
      rfl
    · rw [isOut]
      exact ⟨nofun, nofun⟩
  | popped slot retval was ring isOut => exact placed.of_popped advanced.others was ring isOut

end

/-- What the start of a call does. -/
structure Called (queue : MsgQueue) (id : Nat) (next : MsgQueue) : Prop where
  others : ∀ other, other ≠ id → next.callers other = queue.callers other
  ring : next.ring = queue.ring
  enable : next.enable = queue.enable
  ack : next.ipiMsgAck = queue.ipiMsgAck
  copied : next.copied = queue.copied
  was : (queue.callers id).pc = .outside
  isNow : (next.callers id).pc = .checked ∧ queue.enable = true ∨
      ∃ retval, (next.callers id).pc = .returned retval

theorem called_call
    {msg : IpiMsg}
    {ready : Bool}
    {direct : Int}
    (calls : queue.call id msg ready direct = some next) :
    Called queue id next := by
  have updated : ∀ pc : Pc, (queue.callers id).pc = .outside →
      (pc = .checked ∧ queue.enable = true ∨ ∃ retval, pc = .returned retval) →
      Called queue id (queue.update id pc msg) := by
    intro pc was isPc
    refine ⟨?_, rfl, rfl, rfl, rfl, was, ?_⟩
    · intro other apart
      simp only [update, Function.update_of_ne apart]
    · simpa [update] using isPc
  unfold call at calls
  rw [ite_none_left_eq_some] at calls
  obtain ⟨was, calls⟩ := calls
  rw [not_not] at was
  split at calls
  case isTrue =>
    cases calls
    exact updated _ was (.inr ⟨_, rfl⟩)
  case isFalse =>
    split at calls
    case isTrue =>
      cases calls
      exact updated _ was (.inr ⟨_, rfl⟩)
    case isFalse enabled =>
      split at calls
      case isTrue =>
        cases calls
        exact updated _ was (.inr ⟨_, rfl⟩)
      case isFalse =>
        cases calls
        exact updated _ was (.inl ⟨rfl, by simpa using enabled⟩)

theorem Placed.called (placed : Placed queue) (called : Called queue id next) : Placed next := by
  refine placed.of_silent called.others called.ring ?_ (.inl called.was)
  rcases called.isNow with ⟨isChecked, _⟩ | ⟨retval, isReturned⟩
  · rw [isChecked]
    rfl
  · rw [isReturned]
    rfl

/-- An acknowledgement that arrives is not stored yet. -/
theorem exists_of_ackArrives
    {ack : IpiMsg}
    (arrives : queue.ackArrives ack = some next) :
    ∃ arriving, next = { queue with arriving := arriving } := by
  unfold ackArrives at arrives
  split at arrives
  · cases arrives
  split at arrives
  · cases arrives
  split at arrives
  · cases arrives
    exact ⟨queue.arriving, rfl⟩
  · cases arrives
    exact ⟨_, rfl⟩

theorem exists_of_ackStored
    {ack : IpiMsg}
    (stores : queue.ackStored ack = some next) :
    ∃ arriving, next = { queue with ipiMsgAck := ack, arriving := arriving } := by
  unfold ackStored at stores
  split at stores
  · cases stores
    exact ⟨_, rfl⟩
  · cases stores

/-- The places only depend on the calls and the ring. -/
theorem Placed.of_same
    (placed : Placed queue)
    (callers : next.callers = queue.callers)
    (ring : next.ring = queue.ring) :
    Placed next := by
  refine ⟨?_, ?_, ?_, ?_⟩
  · rw [callers, ring]
    exact placed.pushed
  · rw [callers, ring]
    exact placed.first
  · rw [callers, ring]
    exact placed.known
  · rw [ring]
    exact placed.once

end EchoKernel.AudioIpi
