import EchoKernel.IpFragmentQueue

namespace EchoKernel.IpFragment

open LabelledRun List

/-!
# Datagrams that are cut and reassembled

A payload that is delivered is that of the datagram, in whatever order the
fragments come, however they overlap and whatever fails on the way.
-/

variable {datagram : List Byte} {received : List Packet} {qp next : Ipq} {packet : Packet}
variable {outcomes : Outcomes} {result : QueueResult}

/-- A part of the datagram, up to its end if no fragments follow. -/
structure PartOf (datagram : List Byte) (packet : Packet) : Prop where
  bytes : packet.payload <+: datagram.drop packet.offset
  last : packet.moreFragments = false → packet.stop = datagram.length

/-- Parts of the datagram, and its end once that is known. -/
structure Follows (datagram : List Byte) (received : List Packet) (qp : Ipq) : Prop where
  parts : ∀ packet ∈ received, PartOf datagram packet
  ends : qp.lastIn = true → qp.len = datagram.length

theorem placeFrag_len
    {tos stop : Nat}
    {frag : Frag}
    (places : placeFrag qp tos outcomes frag stop = (next, result)) :
    next.lastIn = qp.lastIn ∧
    next.len = qp.len ∧ ∀ prev, result = .reassemble prev → next.lastIn = true := by
  unfold placeFrag insertFrag at places
  grind

theorem Follows.ipFragQueue
    (follows : Follows datagram received qp)
    (part : PartOf datagram packet)
    (calls : ipFragQueue qp packet outcomes = (next, result)) :
    Follows datagram (received ++ [packet]) next ∧
    ∀ prev, result = .reassemble prev → next.lastIn = true := by
  obtain ⟨parts, ends⟩ := follows
  have last := part.last
  have known : (next.lastIn = true → next.len = datagram.length) ∧
      ∀ prev, result = .reassemble prev → next.lastIn = true := by
    unfold IpFragment.ipFragQueue enter determineEnd ipFragReinit ipqKill at calls
    repeat' split at calls
    all_goals grind [→ placeFrag_len]
  exact ⟨⟨forall_mem_append.mpr ⟨parts, forall_mem_singleton.mpr part⟩, known.1⟩, known.2⟩

theorem Follows.arrive
    {arrival : Arrival}
    (follows : Follows datagram received qp)
    (part : PartOf datagram arrival.packet) :
    Follows datagram (received ++ [arrival.packet]) (arrive qp arrival) := by
  cases calls : IpFragment.ipFragQueue qp arrival.packet arrival.outcomes with
  | mk next result =>
    obtain ⟨parts, ends⟩ := (follows.ipFragQueue part calls).1
    rw [IpFragment.arrive, calls]
    cases result with
    | inProgress | error error => exact ⟨parts, ends⟩
    | reassemble prev =>
      dsimp only
      rw [ipFragReasm]
      repeat' split
      all_goals exact ⟨parts, ends⟩

/-- A datagram is delivered as it was sent. -/
theorem datagram_of_run
    {state : State}
    {arrivals : List Arrival}
    {prev : Option Nat}
    {reasm : ReasmOutcomes}
    {payload : List Byte}
    (run : Run Step ⟨emptyQueue, []⟩ arrivals state)
    (parts : ∀ arrival ∈ arrivals, PartOf datagram arrival.packet)
    (part : PartOf datagram packet)
    (fresh : packet.skb ∉ state.qp.fragments.map (·.skb))
    (calls : ipFragQueue state.qp packet outcomes = (next, .reassemble prev))
    (delivers : (ipFragReasm next prev reasm).2 = .ok payload) :
    payload = datagram := by
  have follows : Follows datagram state.received state.qp := by
    refine @Run.invariant _ _ _ _ _ _ (fun state => Follows datagram state.received state.qp)
      (fun arrival => PartOf datagram arrival.packet) ⟨by simp, by simp [emptyQueue]⟩ ?_ run parts
    rintro before arrival _ follows part ⟨fresh⟩
    exact follows.arrive part
  have isOpen : state.qp.complete = false := by
    by_contra closed
    rw [ipFragQueue_complete (by simpa using closed)] at calls
    cases calls
  obtain ⟨queued, full⟩ := (queued_of_run run isOpen).ipFragQueue fresh calls
  obtain ⟨length, bytes⟩ := queued.whole (full prev rfl)
  obtain ⟨⟨parts, ends⟩, lastIn⟩ := follows.ipFragQueue part calls
  rw [ends (lastIn prev rfl)] at length bytes
  rw [payload_eq delivers]
  refine ext_getElem? fun position => ?_
  by_cases below : position < datagram.length
  · obtain ⟨source, member, byte, reaches, isByte, same⟩ := bytes position below
    have inside : (datagram.drop source.offset)[position - source.offset]? = some byte := by
      obtain ⟨rest, isRest⟩ := (parts source member).bytes
      rw [← isRest, getElem?_append_left (List.getElem?_eq_some_iff.mp isByte).1, isByte]
    rw [getElem?_drop, Nat.add_sub_cancel' reaches] at inside
    rw [same, inside]
  · rw [getElem?_eq_none (by omega), getElem?_eq_none (by omega)]

/-- The second half of the datagram comes first. -/
theorem datagram_of_run_two_halves :
    let first : Packet := ⟨2, 0, 0x2000, replicate 8 1⟩
    let later : Arrival := ⟨secondHalf, allSucceed, ⟨true, true, 20⟩⟩
    ∃ next payload, ipFragQueue (arrive emptyQueue later) first allSucceed =
      (next, .reassemble none) ∧ (ipFragReasm next none ⟨true, true, 20⟩).2 = .ok payload ∧
      payload = replicate 8 1 ++ replicate 8 2 := by
  intro first later
  have run : Run Step ⟨emptyQueue, []⟩ ([] ++ [later]) _ := .after .start (.arrive (by decide))
  let whole : Ipq :=
    ⟨true, true, false, 16, 16, [⟨2, 0, replicate 8 1⟩, ⟨1, 8, replicate 8 2⟩], some 1, 1⟩
  have calls : ipFragQueue (arrive emptyQueue later) first allSucceed =
    (whole, .reassemble none) := by decide +kernel
  have delivers : (ipFragReasm whole none ⟨true, true, 20⟩).2 = .ok _ := rfl
  exact ⟨whole, _, calls, delivers, datagram_of_run run (by simpa using ⟨by decide, by decide⟩)
    ⟨by decide, by decide⟩ (by decide +kernel) calls delivers⟩

end EchoKernel.IpFragment
