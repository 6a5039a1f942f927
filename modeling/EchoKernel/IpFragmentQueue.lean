import EchoKernel.DataSegments
import EchoKernel.IpFragment
import EchoKernel.LabelledRun
import Mathlib.Data.List.Nodup

namespace EchoKernel.IpFragment

open List

/-!
# What a queue of fragments holds

The fragments of a queue do not overlap and hold bytes that were received at
their places. With as many bytes as the datagram has, no place of it is
missing.
-/

open DataSegments LabelledRun

variable {next : Ipq} {received : List Packet} {qp : Ipq} {frag : Frag} {packet : Packet}
variable {outcomes : Outcomes} {len stop : Nat}

/-- Every byte of the fragment was received at its place. -/
def Carried (received : List Packet) (frag : Frag) : Prop :=
  ∀ index byte, frag.data[index]? = some byte →
    ∃ packet ∈ received, packet.offset ≤ frag.offset + index ∧
      packet.payload[frag.offset + index - packet.offset]? = some byte

/-- A fragment that is part of the datagram. -/
structure Held (received : List Packet) (len : Nat) (frag : Frag) : Prop where
  inside : frag.stop ≤ len
  nonempty : frag.data ≠ []
  carried : Carried received frag

/-- The queue of the fragments of one datagram. -/
structure Queued (received : List Packet) (qp : Ipq) : Prop where
  laid : Laid Frag.offset Frag.data 0 qp.fragments
  held : ∀ frag ∈ qp.fragments, Held received qp.len frag
  meat : qp.meat = (joined Frag.data qp.fragments).length
  tail : qp.fragmentsTail = qp.fragments.getLast?.map (·.skb)
  distinct : (qp.fragments.map (·.skb)).Nodup

theorem Held.longer
    {longer : Nat}
    (held : Held received len frag)
    (order : len ≤ longer) :
    Held received longer frag :=
  ⟨Nat.le_trans held.inside order, held.nonempty, held.carried⟩

theorem Held.more
    (held : Held received len frag)
    (packet : Packet) :
    Held (received ++ [packet]) len frag := by
  refine ⟨held.inside, held.nonempty, fun index byte isByte => ?_⟩
  obtain ⟨source, member, holds⟩ := held.carried index byte isByte
  exact ⟨source, mem_append_left _ member, holds⟩

theorem Queued.more
    (queued : Queued received qp)
    (packet : Packet) :
    Queued (received ++ [packet]) qp :=
  ⟨queued.laid, fun frag member => (queued.held frag member).more packet,
    queued.meat, queued.tail, queued.distinct⟩

theorem Carried.drop
    {count : Nat}
    (carried : Carried received frag) :
    Carried received { frag with offset := frag.offset + count, data := frag.data.drop count } := by
  intro index byte isByte
  rw [getElem?_drop] at isByte
  obtain ⟨source, member, reaches, same⟩ := carried (count + index) byte isByte
  rw [← Nat.add_assoc] at reaches same
  exact ⟨source, member, reaches, same⟩

theorem queued_reinit (received : List Packet) (qp : Ipq) : Queued received (ipFragReinit qp) := by
  refine ⟨trivial, fun frag member => ?_, rfl, rfl, nodup_nil⟩
  cases member

theorem Queued.enter
    (queued : Queued received qp)
    (admitted : enter qp outcomes = .ok next) :
    Queued received next ∧ next.complete = false ∧
    (next.fragments = qp.fragments ∨ next.fragments = []) := by
  rw [IpFragment.enter] at admitted
  split at admitted
  · cases admitted
  rename_i incomplete
  split at admitted
  · split at admitted
    · cases admitted
      exact ⟨queued_reinit received qp, rfl, .inr rfl⟩
    · cases admitted
  · cases admitted
    exact ⟨queued, by simpa using incomplete, .inl rfl⟩

theorem Queued.enter_error
    {error : FragError}
    (queued : Queued received qp)
    (refused : IpFragment.enter qp outcomes = .error (next, error)) :
    Queued received next := by
  rw [IpFragment.enter] at refused
  split at refused
  · cases refused
    exact queued
  split at refused
  · split at refused
    · cases refused
    · cases refused
      exact { queued with }
  · cases refused

theorem Packet.offset_mod (packet : Packet) : packet.offset % 8 = 0 := Nat.mul_mod_left _ _

/-- What is known once a fragment's end is determined. -/
structure Ending (received : List Packet) (packet : Packet) (qp : Ipq) (stop : Nat) : Prop where
  queued : Queued received qp
  reaches : packet.offset ≤ stop
  supplied : stop ≤ packet.offset + packet.payload.length
  inside : stop ≤ qp.len

/-- A longer datagram with the same fragments. -/
theorem Queued.extend
    (queued : Queued received qp)
    (fragments : next.fragments = qp.fragments)
    (tail : next.fragmentsTail = qp.fragmentsTail)
    (meat : next.meat = qp.meat)
    (order : qp.len ≤ next.len) :
    Queued received next := by
  refine ⟨?_, ?_, ?_, ?_, ?_⟩
  · rw [fragments]
    exact queued.laid
  · rw [fragments]
    exact fun frag member => (queued.held frag member).longer order
  · rw [meat, fragments]
    exact queued.meat
  · rw [tail, fragments]
    exact queued.tail
  · rw [fragments]
    exact queued.distinct

theorem Queued.determineEnd
    (queued : Queued received qp)
    (determined : determineEnd qp packet = .ok (next, stop)) :
    Ending received packet next stop ∧
    next.complete = qp.complete ∧ next.fragments = qp.fragments := by
  have aligned := packet.offset_mod
  have whole : packet.offset ≤ packet.wholeStop ∧
      packet.wholeStop ≤ packet.offset + packet.payload.length := by
    rw [Packet.wholeStop, Packet.stop]
    omega
  rw [IpFragment.determineEnd] at determined
  split at determined
  · split at determined
    · cases determined
    cases determined
    refine ⟨⟨queued.extend rfl rfl rfl ?_, Nat.le_add_right _ _,
      Nat.le_refl _, Nat.le_refl _⟩, rfl, rfl⟩
    change qp.len ≤ packet.stop
    omega
  split at determined
  · rename_i longer
    split at determined
    · cases determined
    cases determined
    exact ⟨⟨queued.extend rfl rfl rfl (Nat.le_of_lt longer), whole.1,
      whole.2, Nat.le_refl _⟩, rfl, rfl⟩
  · rename_i shorter
    cases determined
    exact ⟨⟨queued, whole.1, whole.2, Nat.le_of_not_lt shorter⟩, rfl, rfl⟩

theorem determineEnd_error
    {error : FragError}
    (refused : determineEnd qp packet = .error (next, error)) :
    next = qp := by
  rw [determineEnd] at refused
  split at refused
  · split at refused
    · cases refused
      rfl
    · cases refused
  split at refused
  · split at refused
    · cases refused
      rfl
    · cases refused
  · cases refused

section
variable {place offset : Nat} {before nexts after : List Frag} {meat left : Int}

theorem find_last
    {init : List Frag}
    (distinct : ((init ++ [frag]).map (·.skb)).Nodup) :
    (init ++ [frag]).find? (fun other => decide (other.skb = frag.skb)) = some frag ∧
    (init ++ [frag]).takeWhile (fun other => decide (other.skb ≠ frag.skb)) = init := by
  have apart : ∀ other ∈ init, other.skb ≠ frag.skb := by
    intro other member same
    rw [map_append, nodup_append] at distinct
    exact distinct.2.2 other.skb (mem_map_of_mem member) frag.skb (by simp) same
  constructor
  · rw [find?_append]
    have missing : init.find? (fun other => decide (other.skb = frag.skb)) = none := by
      rw [find?_eq_none]
      intro other member
      simpa using apart other member
    rw [missing]
    simp
  · rw [takeWhile_append_of_pos]
    · simp
    · intro other member
      simpa using apart other member

/-- The place of a new fragment splits the chain. -/
theorem Queued.findPlace
    (queued : Queued received qp)
    (found : findPlace qp offset = (before, nexts)) :
    qp.fragments = before ++ nexts ∧ (∀ other ∈ nexts, offset ≤ other.offset) := by
  have tail := queued.tail
  have laid := queued.laid
  have distinct := queued.distinct
  rcases eq_nil_or_concat qp.fragments with empty | ⟨init, last, isLast⟩
  · rw [empty] at tail
    have none : tailFrag qp = none := by
      rw [tailFrag, tail]
      rfl
    rw [IpFragment.findPlace, none] at found
    cases found
    exact ⟨empty, fun other member => by cases member⟩
  rw [concat_eq_append] at isLast
  rw [isLast, getLast?_concat] at tail
  rw [isLast] at distinct laid
  obtain ⟨finds, takes⟩ := find_last distinct
  have isTail : tailFrag qp = some last := by
    rw [tailFrag, tail, isLast]
    exact finds
  rw [IpFragment.findPlace, isTail] at found
  simp only at found
  split at found
  · rw [isLast, takes] at found
    cases found
    exact ⟨by rw [isLast, append_nil], fun other member => by
      cases member⟩
  cases found
  refine ⟨takeWhile_append_dropWhile.symm, ?_⟩
  rw [isLast]
  generalize init ++ [last] = all at laid
  generalize start : (0 : Nat) = low at laid
  clear start
  induction all generalizing low with
  | nil => exact fun other member => by cases member
  | cons first rest inductionHypothesis =>
    intro other member
    rw [dropWhile_cons] at member
    split at member
    · exact inductionHypothesis _ laid.2 other member
    rename_i stops
    have firstLate : offset ≤ first.offset := by simpa using stops
    rcases mem_cons.mp member with rfl | member
    · exact firstLate
    have later := laid.2.le_of_mem member
    rw [DataSegments.stop] at later
    omega

theorem endOf_eq_of_getLast
    {prev : Frag}
    (isLast : before.getLast? = some prev) :
    endOf Frag.offset Frag.data place before = prev.stop := by
  obtain ⟨init, rfl⟩ := getLast?_eq_some_iff.mp isLast
  rw [endOf_append]
  rfl

/-- The new fragment after its overlap with the one before is cut. -/
theorem trimHead_ok
    {trimmed : Frag}
    (held : Held received len frag)
    (ends : frag.stop = stop)
    (trims : trimHead outcomes before frag stop = .ok trimmed) :
    Held received len trimmed ∧
    trimmed.stop = stop ∧ trimmed.skb = frag.skb ∧ frag.offset ≤ trimmed.offset ∧
    endOf Frag.offset Frag.data 0 before ≤ trimmed.offset := by
  rw [trimHead] at trims
  cases isLast : before.getLast? with
  | none =>
    rw [isLast] at trims
    cases trims
    rw [getLast?_eq_none_iff.mp isLast]
    exact ⟨held, ends, rfl, Nat.le_refl _, Nat.zero_le _⟩
  | some prev =>
    rw [isLast] at trims
    rw [endOf_eq_of_getLast isLast]
    simp only at trims
    split at trims
    · rename_i overlaps
      split at trims
      · cases trims
      split at trims
      · cases trims
      cases trims
      have count : frag.offset + (prev.stop - frag.offset) = prev.stop := by omega
      have carried := @Carried.drop received frag (prev.stop - frag.offset) held.carried
      rw [count] at carried
      have newEnd : (⟨frag.skb, prev.stop, frag.data.drop (prev.stop - frag.offset)⟩ :
          Frag).stop = stop := by
        rw [Frag.stop] at ends ⊢
        simp only [length_drop]
        omega
      refine ⟨⟨?_, ?_, carried⟩, newEnd, rfl, Nat.le_of_lt overlaps, Nat.le_refl _⟩
      · rw [newEnd, ← ends]
        exact held.inside
      intro empty
      simp only at empty
      rw [Frag.stop] at newEnd
      simp only [empty, length_nil] at newEnd
      omega
    · rename_i apart
      cases trims
      exact ⟨held, ends, rfl, Nat.le_refl _, Nat.le_of_not_lt apart⟩

/-- What is left of the fragments behind the new one. -/
structure Eaten (received : List Packet) (len place : Nat) (nexts after : List Frag)
    (meat left : Int) : Prop where
  laid : Laid Frag.offset Frag.data place after
  held : ∀ frag ∈ after, Held received len frag
  count :
    left = meat - (joined Frag.data nexts).length + (joined Frag.data after).length
  suffix : after.map (·.skb) <:+ nexts.map (·.skb)

/-- Fragments behind the new one are dropped, cut or left. -/
theorem eatNext_spec
    {ok : Bool}
    (laid : Laid Frag.offset Frag.data place nexts)
    (held : ∀ frag ∈ nexts, Held received len frag)
    (eats : eatNext outcomes stop nexts meat = (after, left, ok)) :
    (ok = true → Eaten received len stop nexts after meat left) ∧
    (ok = false → after ≠ [] ∧ Eaten received len place nexts after meat left) := by
  induction nexts generalizing meat place with
  | nil =>
    cases eats
    refine ⟨fun _ => ⟨trivial, held, ?_, suffix_refl _⟩, ?_⟩
    · simp [joined]
    · exact fun failed => by cases failed
  | cons next rest inductionHypothesis =>
    rw [eatNext] at eats
    have nextHeld := held next mem_cons_self
    have restHeld : ∀ frag ∈ rest, Held received len frag :=
      fun frag member => held frag (mem_cons_of_mem _ member)
    have parts : joined Frag.data (next :: rest) =
      next.data ++ joined Frag.data rest := flatMap_cons
    split at eats
    · split at eats
      · split at eats
        · cases eats
          refine ⟨fun worked => by (cases worked), fun _ => ⟨by simp,
            laid, held, ?_, suffix_refl _⟩⟩
          omega
        cases eats
        refine ⟨fun _ => ?_, fun failed => by (cases failed)⟩
        have count : next.offset + (stop - next.offset) = stop := by omega
        have carried := @Carried.drop received next (stop - next.offset) nextHeld.carried
        rw [count] at carried
        have length : (next.data.drop (stop - next.offset)).length =
          next.data.length - (stop - next.offset) := length_drop
        have sameEnd : DataSegments.stop Frag.offset Frag.data ⟨next.skb, stop,
            next.data.drop (stop - next.offset)⟩ =
            DataSegments.stop Frag.offset Frag.data next := by
          rw [DataSegments.stop, DataSegments.stop]
          simp only [length]
          omega
        refine ⟨⟨Nat.le_refl _, ?_⟩, ?_, ?_, suffix_refl _⟩
        · rw [sameEnd]
          exact laid.2
        · intro frag member
          rcases mem_cons.mp member with rfl | member
          · refine ⟨?_, ?_, carried⟩
            · exact Nat.le_trans (Nat.le_of_eq sameEnd) nextHeld.inside
            intro empty
            simp only at empty
            rw [empty, length_nil] at length
            omega
          · exact restHeld frag member
        · have newParts : joined Frag.data (⟨next.skb, stop,
            next.data.drop (stop - next.offset)⟩ :: rest) =
            next.data.drop (stop - next.offset) ++ joined Frag.data rest := flatMap_cons
          rw [parts, newParts, length_append, length_append]
          omega
      · have order := laid.1
        obtain ⟨worked, failed⟩ := inductionHypothesis laid.2 restHeld eats
        have longer {low : Nat} (eaten : Eaten received len low rest after
            (meat - next.data.length) left) :
            Eaten received len low (next :: rest) after meat left := by
          refine ⟨eaten.laid, eaten.held, ?_, eaten.suffix.trans (suffix_cons _ _)⟩
          rw [eaten.count, parts, length_append]
          omega
        refine ⟨fun isOk => longer (worked isOk), fun isFailed => ?_⟩
        obtain ⟨nonempty, eaten⟩ := failed isFailed
        have weaker := longer eaten
        exact ⟨nonempty, weaker.laid.weaken (by
          rw [DataSegments.stop]
          omega), weaker.held, weaker.count, weaker.suffix⟩
    · cases eats
      refine ⟨fun _ => ⟨⟨by omega, laid.2⟩, held, by omega,
        suffix_refl _⟩, fun failed => by (cases failed)⟩

theorem getLast_suffix
    (suffix : after.map (·.skb) <:+ nexts.map (·.skb))
    (nonempty : after ≠ []) :
    (before ++ after).getLast?.map (·.skb) = (before ++ nexts).getLast?.map (·.skb) := by
  rw [← getLast?_map, ← getLast?_map, map_append, map_append]
  obtain ⟨dropped, isSuffix⟩ := suffix
  have some : after.map (·.skb) ≠ [] := by simpa using nonempty
  rw [← isSuffix, ← append_assoc, getLast?_append_of_ne_nil _ some,
    getLast?_append_of_ne_nil _ some]

theorem queued_insert
    {fragments : List Frag}
    {new : Frag}
    (queued : Queued received qp)
    (isList : qp.fragments = before ++ nexts)
    (newHeld : Held received qp.len new)
    (behind : endOf Frag.offset Frag.data 0 before ≤ new.offset)
    (fresh : new.skb ∉ qp.fragments.map (·.skb))
    (eaten : Eaten received qp.len new.stop nexts after qp.meat left)
    (chain : fragments = before ++ new :: after) :
    Laid Frag.offset Frag.data 0 fragments ∧
    (∀ frag ∈ fragments, Held received qp.len frag) ∧ left + new.data.length =
    (joined Frag.data fragments).length ∧ (fragments.map (·.skb)).Nodup := by
  have laid := queued.laid
  have held := queued.held
  have meat := queued.meat
  have distinct := queued.distinct
  rw [isList] at laid held meat distinct fresh
  subst chain
  refine ⟨?_, ?_, ?_, ?_⟩
  · exact laid_append.mpr ⟨(laid_append.mp laid).1, behind, eaten.laid⟩
  · refine forall_mem_append.mpr ⟨?_, forall_mem_cons.mpr ⟨newHeld, eaten.held⟩⟩
    exact (forall_mem_append.mp held).1
  · have count := eaten.count
    simp only [joined, flatMap_append, flatMap_cons, length_append] at meat count ⊢
    omega
  have sublist : (before.map (·.skb) ++ after.map (·.skb)).Sublist
      ((before ++ nexts).map (·.skb)) := by
    rw [map_append]
    exact List.Sublist.append_left eaten.suffix.sublist _
  rw [map_append, map_cons, nodup_middle]
  refine nodup_cons.mpr ⟨fun member => fresh ?_, distinct.sublist sublist⟩
  exact sublist.subset member

/-- The fragment joins the chain, or the chain keeps its form. -/
theorem Queued.placeFrag
    {tos : Nat}
    {result : QueueResult}
    {next : Ipq}
    (queued : Queued received qp)
    (held : Held received qp.len frag)
    (ends : frag.stop = stop)
    (fresh : frag.skb ∉ qp.fragments.map (·.skb))
    (places : placeFrag qp tos outcomes frag stop = (next, result)) :
    Queued received next ∧ ∀ prev, result = .reassemble prev → next.meat = next.len := by
  rw [IpFragment.placeFrag] at places
  generalize found : IpFragment.findPlace qp frag.offset = place at places
  obtain ⟨before, nexts⟩ := place
  obtain ⟨isList, _⟩ := queued.findPlace found
  have laid := queued.laid
  have nextsHeld : ∀ other ∈ nexts, Held received qp.len other := by
    intro other member
    refine queued.held other ?_
    rw [isList]
    exact mem_append_right _ member
  rw [isList] at laid
  have nextsLaid := (laid_append.mp laid).2
  simp only at places
  split at places
  · cases places
    exact ⟨queued, fun prev isResult => by cases isResult⟩
  rename_i new trims
  obtain ⟨newHeld, newEnds, sameSkb, _, behind⟩ := trimHead_ok held ends trims
  generalize eats : eatNext outcomes stop nexts qp.meat = left at places
  obtain ⟨after, meat, ok⟩ := left
  obtain ⟨worked, failed⟩ := eatNext_spec nextsLaid nextsHeld eats
  cases ok with
  | false =>
    obtain ⟨nonempty, eaten⟩ := failed rfl
    cases places
    refine ⟨⟨?_, ?_, ?_, ?_, ?_⟩, fun prev isResult => by
      cases isResult⟩
    · exact laid_append.mpr ⟨(laid_append.mp laid).1, eaten.laid⟩
    · have held := queued.held
      rw [isList, forall_mem_append] at held
      exact forall_mem_append.mpr ⟨held.1, eaten.held⟩
    · have count := eaten.count
      have meat := queued.meat
      rw [isList] at meat
      simp only [joined, flatMap_append, length_append] at meat count ⊢
      omega
    · refine queued.tail.trans ?_
      rw [isList]
      exact (getLast_suffix eaten.suffix nonempty).symm
    · have distinct := queued.distinct
      rw [isList, map_append] at distinct
      simp only [map_append]
      exact distinct.sublist (List.Sublist.append_left eaten.suffix.sublist _)
  | true =>
    have eaten := worked rfl
    rw [← newEnds] at eaten
    rw [if_pos rfl, insertFrag] at places
    obtain ⟨newLaid, allHeld, count, distinct⟩ :=
      queued_insert queued isList newHeld behind (by
        rw [sameSkb]
        exact fresh) eaten rfl
    have tail : (if after.isEmpty = true then some new.skb else qp.fragmentsTail) =
        (before ++ new :: after).getLast?.map (·.skb) := by
      by_cases last : after = []
      · rw [last]
        simp
      rw [if_neg (by simpa using last), queued.tail, isList,
        ← getLast_suffix eaten.suffix last, getLast?_append_of_ne_nil _ last,
        getLast?_append_of_ne_nil _ (by simp), getLast?_cons_of_ne_nil last]
    have inserted (queue : Ipq) (fragments : queue.fragments = before ++ new :: after) (isTail :
        queue.fragmentsTail = if after.isEmpty = true then some new.skb else qp.fragmentsTail)
        (isMeat : queue.meat = meat + new.data.length) (isLen : queue.len = qp.len) :
        Queued received queue := by
      refine ⟨?_, ?_, ?_, ?_, ?_⟩
      · rw [fragments]
        exact newLaid
      · rw [fragments, isLen]
        exact allHeld
      · rw [isMeat, fragments]
        exact count
      · rw [isTail, fragments]
        exact tail
      · rw [fragments]
        exact distinct
    simp only at places
    split at places
    · rename_i full
      cases places
      exact ⟨inserted _ rfl rfl rfl rfl, fun _ _ => full.2.2.2⟩
    · cases places
      exact ⟨inserted _ rfl rfl rfl rfl, fun prev isResult => by
        cases isResult⟩

end

section
variable {result : QueueResult}

/-- The data of a packet up to the end that counts. -/
theorem held_packet
    {stop : Nat}
    (ending : Ending received packet qp stop)
    (nonempty : stop ≠ packet.offset) :
    Held (received ++ [packet]) qp.len
    ⟨packet.skb, packet.offset, packet.payload.take (stop - packet.offset)⟩ ∧
    (⟨packet.skb, packet.offset,
    packet.payload.take (stop - packet.offset)⟩ : Frag).stop = stop := by
  have reaches := ending.reaches
  have supplied := ending.supplied
  have ends : (⟨packet.skb, packet.offset,
      packet.payload.take (stop - packet.offset)⟩ : Frag).stop = stop := by
    rw [Frag.stop]
    simp only [length_take]
    omega
  refine ⟨⟨?_, ?_, ?_⟩, ends⟩
  · rw [ends]
    exact ending.inside
  · intro empty
    simp only at empty
    rw [Frag.stop] at ends
    simp only [empty, length_nil] at ends
    omega
  intro index byte isByte
  refine ⟨packet, by simp, Nat.le_add_right _ _, ?_⟩
  rw [getElem?_take] at isByte
  split at isByte
  · rw [Nat.add_sub_cancel_left]
    exact isByte
  · cases isByte

/-- `ip_frag_queue` keeps the form of the queue. -/
theorem Queued.ipFragQueue
    (queued : Queued received qp)
    (fresh : packet.skb ∉ qp.fragments.map (·.skb))
    (calls : ipFragQueue qp packet outcomes = (next, result)) :
    Queued (received ++ [packet]) next ∧
    ∀ prev, result = .reassemble prev → next.meat = next.len := by
  rw [IpFragment.ipFragQueue] at calls
  split at calls
  · rename_i refusedQueue error refused
    cases calls
    exact ⟨(queued.enter_error refused).more packet, fun prev isResult => by
      cases isResult⟩
  rename_i admittedQueue admits
  obtain ⟨admitted, _, fragments⟩ := queued.enter admits
  split at calls
  · rename_i refusedQueue error refused
    cases calls
    rw [determineEnd_error refused]
    exact ⟨admitted.more packet, fun prev isResult => by cases isResult⟩
  rename_i determinedQueue stop determines
  obtain ⟨ending, _, sameFragments⟩ := admitted.determineEnd determines
  have kept := ending.queued.more packet
  split at calls
  · cases calls
    exact ⟨kept, fun prev isResult => by cases isResult⟩
  rename_i nonempty
  split at calls
  · cases calls
    exact ⟨kept, fun prev isResult => by cases isResult⟩
  split at calls
  · cases calls
    exact ⟨kept, fun prev isResult => by cases isResult⟩
  obtain ⟨held, ends⟩ := held_packet ending nonempty
  refine kept.placeFrag held ends ?_ calls
  rw [sameFragments]
  rcases fragments with same | empty
  · rw [same]
    exact fresh
  · rw [empty]
    simp

/-- A queue with as much data as the datagram has all of it. -/
theorem Queued.whole
    (queued : Queued received qp)
    (full : qp.meat = qp.len) :
    (joined Frag.data qp.fragments).length = qp.len ∧ ∀ position < qp.len, ∃ packet ∈ received,
    ∃ byte, packet.offset ≤ position ∧ packet.payload[position - packet.offset]? = some byte ∧
    (joined Frag.data qp.fragments)[position]? = some byte := by
  have length : (joined Frag.data qp.fragments).length = qp.len := by
    have meat := queued.meat
    omega
  refine ⟨length, fun position below => ?_⟩
  obtain ⟨frag, member, reaches, inside, same⟩ :=
    queued.laid.getElem_joined (fun frag member => (queued.held frag member).inside)
      (Nat.zero_le _) (by omega) (Nat.zero_le position) below
  have index : position - frag.offset < frag.data.length := by
    rw [DataSegments.stop] at inside
    omega
  obtain ⟨packet, isReceived, carries, isByte⟩ :=
    (queued.held frag member).carried (position - frag.offset) _ (List.getElem?_eq_getElem index)
  rw [Nat.add_sub_cancel' reaches] at carries isByte
  rw [List.getElem?_eq_getElem index] at same
  exact ⟨packet, isReceived, _, carries, isByte, same⟩

end

structure Arrival where
  packet : Packet
  outcomes : Outcomes
  reasm : ReasmOutcomes
  deriving Repr, DecidableEq

variable {arrivals : List Arrival}

/-- A queue, and the packets that came in for it. -/
structure State where
  qp : Ipq
  received : List Packet
  deriving Repr, DecidableEq

/-- `ip_frag_queue` with its call of `ip_frag_reasm`. -/
def arrive (qp : Ipq) (arrival : Arrival) : Ipq :=
  match ipFragQueue qp arrival.packet arrival.outcomes with
  | (qp, .reassemble prev) => (ipFragReasm qp prev arrival.reasm).1
  | (qp, _) => qp

/-- A packet in a buffer that is not in the queue. -/
inductive Step : State → Arrival → State → Prop
  | arrive {state : State} {arrival : Arrival}
      (fresh : arrival.packet.skb ∉ state.qp.fragments.map (·.skb)) : Step state arrival
        ⟨arrive state.qp arrival, state.received ++ [arrival.packet]⟩

def emptyQueue : Ipq := ⟨false, false, false, 0, 0, [], none, 0⟩

theorem queued_empty : Queued [] emptyQueue := by
  refine ⟨trivial, fun frag member => ?_, rfl, rfl, nodup_nil⟩
  cases member

theorem ipFragQueue_complete
    {qp : Ipq}
    (complete : qp.complete = true)
    (packet : Packet)
    (outcomes : Outcomes) :
    ipFragQueue qp packet outcomes = (qp, .error .enoent) := by
  rw [ipFragQueue, enter, if_pos complete]

theorem complete_ipFragReasm
    (qp : Ipq)
    (prev : Option Nat)
    (reasm : ReasmOutcomes) :
    (ipFragReasm qp prev reasm).1.complete = true := by
  rw [ipFragReasm]
  repeat' split
  all_goals rfl

/-- The queue is well formed until it is complete. -/
theorem queued_of_run
    {state : State}
    (run : Run Step ⟨emptyQueue, []⟩ arrivals state)
    (isOpen : state.qp.complete = false) :
    Queued state.received state.qp := by
  revert isOpen
  refine @Run.always _ _ _ _ _ _ (fun state =>
      state.qp.complete = false → Queued state.received state.qp)
    (fun _ => queued_empty) ?_ run
  intro before arrival after holds taken incomplete
  cases taken with
  | arrive fresh =>
    cases wasComplete : before.qp.complete with
    | true =>
      have stays := ipFragQueue_complete wasComplete arrival.packet arrival.outcomes
      simp only [arrive, stays, wasComplete] at incomplete
      cases incomplete
    | false =>
      cases calls : ipFragQueue before.qp arrival.packet arrival.outcomes with
      | mk next result =>
        have kept := ((holds wasComplete).ipFragQueue fresh calls).1
        cases result with
        | reassemble prev =>
          simp only [arrive, calls, complete_ipFragReasm] at incomplete
          cases incomplete
        | inProgress | error error =>
          simp only [arrive, calls]
          exact kept

theorem payload_eq
    {qp : Ipq}
    {prev : Option Nat}
    {reasm : ReasmOutcomes}
    {payload : List Byte}
    (delivers : (ipFragReasm qp prev reasm).2 = .ok payload) :
    payload = joined Frag.data qp.fragments := by
  rw [ipFragReasm] at delivers
  repeat' split at delivers
  all_goals cases delivers
  rfl

/--
Every call keeps the queue well formed, and one that starts reassembly has the
whole datagram, each byte as received at its place.
-/
theorem reassembly_of_run
    {state : State}
    {packet : Packet}
    {outcomes : Outcomes}
    {next : Ipq}
    {result : QueueResult}
    (run : Run Step ⟨emptyQueue, []⟩ arrivals state)
    (fresh : packet.skb ∉ state.qp.fragments.map (·.skb))
    (calls : ipFragQueue state.qp packet outcomes = (next, result)) :
    (state.qp.complete = true → next = state.qp ∧ result = .error .enoent) ∧
    (state.qp.complete = false → Queued (state.received ++ [packet]) next) ∧
    ∀ prev, result = .reassemble prev → (joined Frag.data next.fragments).length = next.len ∧
    (∀ position < next.len, ∃ source ∈ state.received ++ [packet], ∃ byte,
    source.offset ≤ position ∧ source.payload[position - source.offset]? = some byte ∧
    (joined Frag.data next.fragments)[position]? = some byte) ∧ ∀ reasm payload,
    (ipFragReasm next prev reasm).2 = .ok payload → payload = joined Frag.data next.fragments := by
  cases isComplete : state.qp.complete with
  | true =>
    have refused := ipFragQueue_complete isComplete packet outcomes
    rw [calls, Prod.mk.injEq] at refused
    refine ⟨fun _ => refused, fun isFalse => by (cases isFalse), ?_⟩
    intro prev isResult
    rw [refused.2] at isResult
    cases isResult
  | false =>
    obtain ⟨kept, full⟩ := (queued_of_run run isComplete).ipFragQueue fresh calls
    refine ⟨fun isTrue => by (cases isTrue), fun _ => kept, ?_⟩
    intro prev isResult
    obtain ⟨length, bytes⟩ := kept.whole (full prev isResult)
    exact ⟨length, bytes, fun reasm payload => payload_eq⟩

/-- All allocations succeed. -/
def allSucceed : Outcomes := ⟨false, true, true, true, true, true⟩

/-- The second half of a datagram of 16 bytes. -/
def secondHalf : Packet := ⟨1, 0, 1, replicate 8 2⟩

/-- The first half, with one byte too much. -/
def firstHalf : Packet := ⟨2, 0, 0x2000, replicate 9 1⟩

/-- Two fragments that arrive in the wrong order. -/
theorem reassembly_of_run_two_halves :
    ∃ state next,
    Run Step ⟨emptyQueue, []⟩ [⟨secondHalf, allSucceed, ⟨true, true, 20⟩⟩] state ∧
    ipFragQueue state.qp firstHalf allSucceed = (next, .reassemble none) ∧
    (joined Frag.data next.fragments).length = next.len := by
  have run : Run Step ⟨emptyQueue, []⟩ ([] ++ [⟨secondHalf, allSucceed, ⟨true, true, 20⟩⟩]) _ :=
    .after .start (.arrive (by decide))
  let whole : Ipq :=
    ⟨true, true, false, 16, 16, [⟨2, 0, replicate 8 1⟩, ⟨1, 8, replicate 8 2⟩], some 1, 1⟩
  have calls : ipFragQueue (arrive emptyQueue
      ⟨secondHalf, allSucceed, ⟨true, true, 20⟩⟩) firstHalf allSucceed =
      (whole, .reassemble none) := by
    decide +kernel
  exact ⟨_, whole, run, calls, ((reassembly_of_run run (by decide +kernel) calls).2.2 none rfl).1⟩

end EchoKernel.IpFragment
