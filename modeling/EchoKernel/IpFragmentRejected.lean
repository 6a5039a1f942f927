import EchoKernel.IpFragmentQueue

namespace EchoKernel.IpFragment

open List

/-!
# Rejected fragments

What a failing call of `ip_frag_queue` leaves: the length and
`INET_FRAG_LAST_IN` are set, and fragments are freed, before the last of its
tests.
-/

/-- What later fragments depend on. -/
def Ipq.reassembly (qp : Ipq) : List Frag × Int × Nat × Bool × Bool :=
  (qp.fragments, qp.meat, qp.len, qp.firstIn, qp.lastIn)

/-- The end of a packet, as `ip_frag_queue` computes it. -/
def Packet.finish (packet : Packet) : Nat :=
  if packet.moreFragments = false then packet.stop else packet.wholeStop

/-- The packet says more about the datagram's length than the queue knows. -/
def Announces (qp : Ipq) (packet : Packet) : Prop :=
  qp.complete = false ∧ qp.lastIn = false ∧ qp.len ≤ packet.finish ∧
    (packet.moreFragments = false ∨ qp.len ≠ packet.finish)

/-- The fragment that the packet would be put behind. -/
def preceding (qp : Ipq) (offset : Nat) : Option Frag :=
  (tailFrag qp).bind fun tail =>
    if tail.offset < offset then some tail
    else (qp.fragments.takeWhile fun frag => decide (frag.offset < offset)).getLast?

/-- The first fragment that does not begin before the packet. -/
def following (qp : Ipq) (offset : Nat) : Option Frag :=
  (tailFrag qp).bind fun tail =>
    if tail.offset < offset then none
    else qp.fragments.find? fun frag => decide (offset ≤ frag.offset)

/-- The packet agrees with what the queue knows about the length. -/
def Consistent (qp : Ipq) (packet : Packet) : Prop :=
  if packet.moreFragments = false then
    qp.len ≤ packet.stop ∧ (qp.lastIn = true → packet.stop = qp.len)
  else qp.lastIn = true → packet.wholeStop ≤ qp.len

/-- A packet that gets as far as the fragments behind it. -/
structure Arrives (qp : Ipq) (packet : Packet) (outcomes : Outcomes) : Prop where
  isOpen : qp.complete = false
  consistent : Consistent qp packet
  nonempty : packet.finish ≠ packet.offset
  pulled : outcomes.pullHeader = true ∧ outcomes.trim = true
  joins : ∀ prev ∈ preceding qp packet.offset, packet.offset < prev.stop →
    prev.stop < packet.finish ∧ outcomes.pullHead = true

/-- The first fragment behind the packet ends before it does. -/
def Covers (qp : Ipq) (packet : Packet) : Prop :=
  ∃ behind ∈ following qp packet.offset, behind.stop ≤ packet.finish

section
variable {qp next : Ipq} {packet : Packet} {outcomes : Outcomes} {stop : Nat} {error : FragError}
variable {nexts after : List Frag} {meat left : Int}

theorem length_eatNext : (eatNext outcomes stop nexts meat).1.length ≤ nexts.length := by
  fun_induction eatNext outcomes stop nexts meat <;> simp_all
  omega

/-- A failed pull keeps the fragments unless the first one was freed. -/
theorem eatNext_fails
    (fails : eatNext outcomes stop nexts meat = (after, left, false)) :
    (after = nexts ∧ left = meat) ↔ ¬ ∃ behind ∈ nexts.head?, behind.stop ≤ stop := by
  cases nexts with
  | nil => cases fails
  | cons frag rest =>
    simp only [head?_cons, Option.mem_some_iff, exists_eq_left', Frag.stop]
    rw [eatNext] at fails
    split at fails
    · split at fails
      · split at fails
        · cases fails
          simp
          omega
        · cases fails
      have shorter := @length_eatNext outcomes stop rest (meat - frag.data.length)
      rw [fails] at shorter
      constructor
      · rintro ⟨rfl, -⟩
        rw [length_cons] at shorter
        omega
      · omega
    · cases fails

theorem findPlace_append
    {offset : Nat}
    (behind : (findPlace qp offset).2 ≠ []) :
    (findPlace qp offset).1 ++ (findPlace qp offset).2 = qp.fragments := by
  unfold findPlace at *
  split
  · simp_all
  split
  · simp_all
  · exact takeWhile_append_dropWhile

/-- The search finds the fragments around the packet. -/
theorem findPlace_around
    (qp : Ipq)
    (offset : Nat) :
    (findPlace qp offset).1.getLast? = preceding qp offset ∧
      (findPlace qp offset).2.head? = following qp offset := by
  unfold findPlace preceding following
  cases tailFrag qp with
  | none => exact ⟨rfl, rfl⟩
  | some tail =>
    simp only [Option.bind_some]
    split
    · simp
    · refine ⟨rfl, ?_⟩
      induction qp.fragments with
      | nil => rfl
      | cons frag rest inductionHypothesis =>
        rw [dropWhile_cons, find?_cons]
        by_cases isBefore : frag.offset < offset
        · simpa [isBefore, Nat.not_le.mpr isBefore] using inductionHypothesis
        · simp [isBefore, Nat.not_lt.mp isBefore]

/-- A packet is cut unless what is before it covers it or the pull fails. -/
theorem trimHead_ok_iff
    {before : List Frag}
    {frag : Frag} :
    (∃ trimmed, trimHead outcomes before frag stop = .ok trimmed) ↔
      ∀ prev ∈ before.getLast?, frag.offset < prev.stop →
        prev.stop < stop ∧ outcomes.pullHead = true := by
  unfold trimHead
  cases before.getLast? with
  | none => simp
  | some prev =>
    simp only [Option.mem_some_iff, forall_eq']
    split
    case isFalse apart => simp [apart]
    case isTrue overlaps =>
      split
      · simp [overlaps]
        omega
      · split <;> simp_all

theorem determineEnd_ok
    (isOpen : qp.complete = false)
    (ends : determineEnd qp packet = .ok (next, stop)) :
    stop = packet.finish ∧
    ∃ lastIn len, next = { qp with lastIn := lastIn, len := len } ∧
    ((lastIn = qp.lastIn ∧ len = qp.len) ↔ ¬ Announces qp packet) := by
  unfold determineEnd at ends
  unfold Announces Packet.finish
  split at ends
  case isTrue final =>
    split at ends
    · cases ends
    cases ends
    refine ⟨by rw [if_pos final], _, _, rfl, ?_⟩
    grind
  case isFalse more =>
    split at ends
    · split at ends
      · cases ends
      cases ends
      refine ⟨by rw [if_neg more], _, _, rfl, ?_⟩
      grind
    · cases ends
      refine ⟨by rw [if_neg more], _, _, rfl, ?_⟩
      grind

/-- A packet that contradicts the length announces nothing. -/
theorem determineEnd_refuses
    (ends : determineEnd qp packet = .error (next, error)) :
    ¬ Announces qp packet ∧ ¬ Consistent qp packet := by
  unfold determineEnd at ends
  unfold Announces Consistent Packet.finish
  grind

/-- A packet whose end is determined is consistent. -/
theorem consistent_of_ok
    (ends : determineEnd qp packet = .ok (next, stop)) :
    Consistent qp packet := by
  unfold determineEnd at ends
  unfold Consistent
  grind

theorem insertFrag_ne_error
    {tos : Nat}
    {before : List Frag}
    {frag : Frag} :
    (insertFrag qp tos before after meat frag).2 ≠ .error error := by
  unfold insertFrag
  grind

/-- What a fragment that is not put into the chain leaves of it. -/
theorem placeFrag_error
    {tos : Nat}
    {frag : Frag}
    (rejected : placeFrag qp tos outcomes frag stop = (next, .error error)) :
    ∃ fragments meat, next = { qp with fragments := fragments, meat := meat } ∧
      ((fragments = qp.fragments ∧ meat = qp.meat) ↔
        ¬ ((∀ prev ∈ preceding qp frag.offset, frag.offset < prev.stop →
          prev.stop < stop ∧ outcomes.pullHead = true) ∧
        ∃ behind ∈ following qp frag.offset, behind.stop ≤ stop)) := by
  have joined := @findPlace_append qp frag.offset
  obtain ⟨isBefore, isBehind⟩ := findPlace_around qp frag.offset
  rw [← isBefore, ← isBehind]
  rcases places : findPlace qp frag.offset with ⟨before, nexts⟩
  rw [places] at joined
  simp only [placeFrag, places] at rejected ⊢
  rw [← trimHead_ok_iff]
  cases trims : trimHead outcomes before frag stop with
  | error refused =>
    rw [trims] at rejected
    cases rejected
    exact ⟨_, _, rfl, by simp⟩
  | ok trimmed =>
    rw [trims] at rejected
    rcases eats : eatNext outcomes stop nexts qp.meat with ⟨after, left, ok⟩
    simp only [eats] at rejected
    split at rejected
    · exact absurd (congrArg Prod.snd rejected) insertFrag_ne_error
    case isFalse fails =>
      rw [Bool.not_eq_true] at fails
      subst fails
      cases rejected
      refine ⟨_, _, rfl, ?_⟩
      have nonempty : nexts ≠ [] := by
        rintro rfl
        cases eats
      rw [← joined nonempty, append_cancel_left_eq, eatNext_fails eats]
      simp

end

/--
A rejected packet leaves the queue as it was iff it announced nothing, and did
not free a fragment before the pull of a later one failed.
-/
theorem ipFragQueue_unchanged_iff
    {qp next : Ipq}
    {packet : Packet}
    {outcomes : Outcomes}
    {error : FragError}
    (kept : outcomes.tooFar = true → qp.complete = true ∨ qp.fragments = [])
    (rejected : ipFragQueue qp packet outcomes = (next, .error error)) :
    next.reassembly = qp.reassembly ↔
      ¬ Announces qp packet ∧ ¬ (Arrives qp packet outcomes ∧ Covers qp packet) := by
  by_cases isComplete : qp.complete = true
  · have enters : enter qp outcomes = .error (qp, .enoent) := by simp [enter, isComplete]
    have closed : ¬ Arrives qp packet outcomes := fun arrives => by
      simpa [isComplete] using arrives.isOpen
    simp only [ipFragQueue, enters, Prod.mk.injEq] at rejected
    simp [← rejected.1, Announces, isComplete, closed]
  rw [Bool.not_eq_true] at isComplete
  have enters : enter qp outcomes = .ok qp := by
    simp [enter, isComplete]
    grind
  simp only [ipFragQueue, enters] at rejected
  cases ends : determineEnd qp packet with
  | error failed =>
    rw [ends] at rejected
    have same := determineEnd_error ends
    obtain ⟨quiet, contradicts⟩ := determineEnd_refuses ends
    have refused : ¬ Arrives qp packet outcomes := fun arrives => contradicts arrives.consistent
    cases rejected
    simp [same, quiet, refused]
  | ok ended =>
    obtain ⟨ended, stop⟩ := ended
    have consistent := consistent_of_ok ends
    obtain ⟨rfl, lastIn, len, rfl, known⟩ := determineEnd_ok isComplete ends
    simp only [ends] at rejected
    -- the first three tests leave the fragments alone
    have early (stopped : ¬ Arrives qp packet outcomes) :
        Ipq.reassembly { qp with lastIn, len } = qp.reassembly ↔
          ¬ Announces qp packet ∧ ¬ (Arrives qp packet outcomes ∧ Covers qp packet) := by
      simp [Ipq.reassembly, stopped, ← known, and_comm]
    split at rejected
    case isTrue empty =>
      cases rejected
      exact early fun arrives => arrives.nonempty empty
    split at rejected
    case isTrue nonempty noHeader =>
      cases rejected
      exact early fun arrives => by simpa [noHeader] using arrives.pulled
    split at rejected
    case isTrue nonempty pulled noTrim =>
      cases rejected
      exact early fun arrives => by simpa [noTrim] using arrives.pulled
    case isFalse nonempty pulled trimmed =>
      obtain ⟨fragments, meat, rfl, same⟩ := placeFrag_error rejected
      have arrives : Arrives qp packet outcomes ↔
          ∀ prev ∈ preceding qp packet.offset, packet.offset < prev.stop →
            prev.stop < packet.finish ∧ outcomes.pullHead = true :=
        ⟨fun arrives => arrives.joins, fun joins => ⟨isComplete, consistent, nonempty,
          ⟨by simpa using pulled, by simpa using trimmed⟩, joins⟩⟩
      have unchanged : Ipq.reassembly { qp with lastIn, len, fragments, meat } = qp.reassembly ↔
          (lastIn = qp.lastIn ∧ len = qp.len) ∧ fragments = qp.fragments ∧ meat = qp.meat := by
        simp only [Ipq.reassembly, Prod.mk.injEq]
        constructor
        · rintro ⟨isFragments, isMeat, isLen, -, isLast⟩
          exact ⟨⟨isLast, isLen⟩, isFragments, isMeat⟩
        · rintro ⟨⟨isLast, isLen⟩, isFragments, isMeat⟩
          exact ⟨isFragments, isMeat, isLen, trivial, isLast⟩
      rw [← known, arrives]
      exact unchanged.trans (and_congr_right' same)

/-- A last fragment without data. -/
def emptyLast : Packet := ⟨1, 0, 1, []⟩

/-- Three fragments of a datagram whose end is not known. -/
def threeParts : Ipq :=
  { emptyQueue with
    firstIn := true
    len := 32
    meat := 32
    fragments := [⟨1, 0, List.replicate 8 1⟩, ⟨2, 8, List.replicate 8 2⟩,
      ⟨3, 16, List.replicate 16 3⟩]
    fragmentsTail := some 3 }

/-- A packet that the last fragment covers. -/
def coveredPart : Packet := ⟨4, 0, 0x2003, List.replicate 8 4⟩

/-- A packet from the second fragment into the third. -/
def acrossParts : Packet := ⟨4, 0, 0x2001, List.replicate 16 4⟩

/-- The pull of a fragment behind the packet fails. -/
def pullFails : Outcomes := { allSucceed with pullNext := false }

/--
A covered packet is refused and changes nothing. One that frees the second
fragment before the pull of the third fails changes the queue.
-/
theorem ipFragQueue_unchanged_iff_threeParts :
    (ipFragQueue threeParts coveredPart allSucceed).1.reassembly = threeParts.reassembly ∧
      (ipFragQueue threeParts acrossParts pullFails).1.reassembly ≠ threeParts.reassembly := by
  have refused : ipFragQueue threeParts coveredPart allSucceed =
    ((ipFragQueue threeParts coveredPart allSucceed).1, .error .einval) := by decide
  have fails : ipFragQueue threeParts acrossParts pullFails =
    ((ipFragQueue threeParts acrossParts pullFails).1, .error .enomem) := by decide
  refine ⟨(ipFragQueue_unchanged_iff (by decide) refused).mpr ⟨?_, ?_⟩, fun same => ?_⟩
  · rintro ⟨-, -, -, ends | differs⟩
    · exact absurd ends (by decide)
    · exact absurd differs (by decide)
  · rintro ⟨-, behind, member, -⟩
    exact absurd member (by decide +revert)
  · refine ((ipFragQueue_unchanged_iff (by decide) fails).mp same).2 ⟨?_, ?_⟩
    · refine ⟨rfl, fun isLast => absurd isLast (by decide), by decide, by decide, ?_⟩
      intro prev isPrev overlaps
      have isFirst : preceding threeParts acrossParts.offset = some ⟨1, 0, List.replicate 8 1⟩ := by
        decide
      rw [isFirst, Option.mem_some_iff] at isPrev
      subst isPrev
      exact absurd overlaps (by decide)
    · exact ⟨⟨2, 8, List.replicate 8 2⟩, by decide, by decide⟩

/-- The empty fragment is rejected, and then the whole datagram is. -/
theorem ipFragQueue_emptyLast :
    ipFragQueue emptyQueue emptyLast allSucceed =
      ({ emptyQueue with lastIn := true, len := 8 }, .error .einval) ∧
    (ipFragQueue emptyQueue ⟨2, 0, 0, [1, 2, 3]⟩ allSucceed).2 = .reassemble none ∧
    (ipFragQueue { emptyQueue with lastIn := true, len := 8 } ⟨2, 0, 0, [1, 2, 3]⟩ allSucceed).2 =
      .error .einval := by
  decide

end EchoKernel.IpFragment
