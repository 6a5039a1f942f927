import Mathlib.Data.Int.Notation

namespace EchoKernel.IpFragment

/-!
# Queues of IPv4 fragments

`ip_frag_queue` and `ip_frag_reasm` of `ip_fragment.c`. A buffer has an
address, an offset and data; allocations that may fail are inputs of the call.
-/

abbrev Byte := BitVec 8

/-- A fragment in the queue, with `FRAG_CB(skb)->offset`. -/
structure Frag where
  skb : Nat
  offset : Nat
  data : List Byte
  deriving Repr, DecidableEq

/-- The fields of `struct ipq` that the functions use. -/
structure Ipq where
  /-- `INET_FRAG_FIRST_IN`. -/
  firstIn : Bool
  /-- `INET_FRAG_LAST_IN`. -/
  lastIn : Bool
  /-- `INET_FRAG_COMPLETE`. -/
  complete : Bool
  len : Nat
  meat : Int
  fragments : List Frag
  fragmentsTail : Option Nat
  ecn : Nat
  deriving Repr, DecidableEq

/-- A packet that holds a fragment. -/
structure Packet where
  skb : Nat
  tos : Nat
  fragOff : BitVec 16
  payload : List Byte
  deriving Repr, DecidableEq

/-- What else decides how a call ends. -/
structure Outcomes where
  /-- `ip_frag_too_far`, from the counters of the peer. -/
  tooFar : Bool
  /-- `mod_timer` finds the timer of the queue active. -/
  timer : Bool
  /-- `pskb_pull` of the headers. -/
  pullHeader : Bool
  /-- `pskb_trim_rcsum`. -/
  trim : Bool
  /-- `pskb_pull` of an overlap with the one before. -/
  pullHead : Bool
  /-- `pskb_pull` of an overlap with the one behind. -/
  pullNext : Bool
  deriving Repr, DecidableEq

/-- Why a fragment is refused. -/
inductive FragError where
  | enoent
  | etimedout
  | einval
  | enomem
  | e2big
  deriving Repr, DecidableEq

section
variable (qp : Ipq) (tos : Nat) (packet : Packet) (outcomes : Outcomes)

/-- The offset of a packet in the datagram, in bytes. -/
def Packet.offset : Nat := (packet.fragOff &&& 0x1fff).toNat * 8

/-- Where the data of a packet ends in the datagram. -/
def Packet.stop : Nat := packet.offset + packet.payload.length

/-- Where it ends in whole chunks of 8 bytes. -/
def Packet.wholeStop : Nat := packet.stop / 8 * 8

/-- `IP_MF`. -/
def Packet.moreFragments : Bool := packet.fragOff.getLsbD 13

/-- `ip4_frag_ecn`. -/
def ip4FragEcn : Nat := 1 <<< (tos % 4)

def Frag.stop (frag : Frag) : Nat := frag.offset + frag.data.length

/-- What `ip_frag_reinit` leaves of a queue. -/
def ipFragReinit (qp : Ipq) : Ipq :=
  { qp with
    firstIn := false, lastIn := false, complete := false
    len := 0, meat := 0, fragments := [], fragmentsTail := none, ecn := 0 }

/-- `ipq_kill`. -/
def ipqKill : Ipq := { qp with complete := true }

/-- The tests before the fragment is looked at. -/
def enter : Except (Ipq × FragError) Ipq :=
  if qp.complete then .error (qp, .enoent)
  else if outcomes.tooFar ∧ qp.fragments ≠ [] then
    if outcomes.timer then .ok (ipFragReinit qp)
    else .error (ipqKill qp, .etimedout)
  else .ok qp

/-- A fragment's end, and what it says of the datagram. -/
def determineEnd : Except (Ipq × FragError) (Ipq × Nat) :=
  if packet.moreFragments = false then
    if packet.stop < qp.len ∨ (qp.lastIn ∧ packet.stop ≠ qp.len) then .error (qp, .einval)
    else .ok ({ qp with lastIn := true, len := packet.stop }, packet.stop)
  else if qp.len < packet.wholeStop then
    if qp.lastIn then .error (qp, .einval)
    else .ok ({ qp with len := packet.wholeStop }, packet.wholeStop)
  else .ok (qp, packet.wholeStop)

/-- The fragment that `fragments_tail` points to. -/
def tailFrag : Option Frag :=
  qp.fragmentsTail.bind fun tail => qp.fragments.find? fun frag => decide (frag.skb = tail)

/-- The fragments up to the new one, and those behind it. -/
def findPlace (offset : Nat) : List Frag × List Frag :=
  match tailFrag qp with
  | none => ([], [])
  | some tail =>
    if tail.offset < offset then
      (qp.fragments.takeWhile (fun frag => decide (frag.skb ≠ tail.skb)) ++ [tail], [])
    else
      (qp.fragments.takeWhile (fun frag => decide (frag.offset < offset)),
        qp.fragments.dropWhile fun frag => decide (frag.offset < offset))

/-- An overlap with the one before is cut from the new one. -/
def trimHead (before : List Frag) (frag : Frag) (stop : Nat) : Except FragError Frag :=
  match before.getLast? with
  | none => .ok frag
  | some prev =>
    if frag.offset < prev.stop then
      if stop ≤ prev.stop then .error .einval
      else if outcomes.pullHead = false then .error .enomem
      else
        .ok { frag with
          offset := prev.stop
          data := frag.data.drop (prev.stop - frag.offset) }
    else .ok frag

/-- What is left behind the new one; false if a pull fails. -/
def eatNext (outcomes : Outcomes) (stop : Nat) : List Frag → Int → List Frag × Int × Bool
  | [], meat => ([], meat, true)
  | next :: rest, meat =>
    if next.offset < stop then
      if stop - next.offset < next.data.length then
        if outcomes.pullNext = false then (next :: rest, meat, false)
        else
          ({ next with
              offset := stop
              data := next.data.drop (stop - next.offset) } :: rest,
            meat - (stop - next.offset : Nat), true)
      else eatNext outcomes stop rest (meat - next.data.length)
    else (next :: rest, meat, true)

/-- How `ip_frag_queue` ends; `reassemble` calls `ip_frag_reasm`. -/
inductive QueueResult where
  | error (error : FragError)
  | inProgress
  | reassemble (prev : Option Nat)
  deriving Repr, DecidableEq

/-- The new fragment is put into the chain. -/
def insertFrag (before after : List Frag) (meat : Int) (frag : Frag) : Ipq × QueueResult :=
  let queued :=
    { qp with
      fragments := before ++ frag :: after
      fragmentsTail := if after.isEmpty then some frag.skb else qp.fragmentsTail
      meat := meat + frag.data.length
      ecn := qp.ecn ||| ip4FragEcn tos
      firstIn := qp.firstIn || decide (frag.offset = 0) }
  if queued.firstIn ∧ queued.lastIn ∧ queued.complete = false ∧ queued.meat = queued.len then
    (queued, .reassemble (before.getLast?.map (·.skb)))
  else (queued, .inProgress)

/-- A fragment is cut and put into the chain. -/
def placeFrag (frag : Frag) (stop : Nat) : Ipq × QueueResult :=
  let (before, nexts) := findPlace qp frag.offset
  match trimHead outcomes before frag stop with
  | .error error => (qp, .error error)
  | .ok frag =>
    let (after, meat, ok) := eatNext outcomes stop nexts qp.meat
    if ok then insertFrag qp tos before after meat frag
    else ({ qp with fragments := before ++ after, meat := meat }, .error .enomem)

/-- `ip_frag_queue`, up to the call of `ip_frag_reasm`. -/
def ipFragQueue : Ipq × QueueResult :=
  match enter qp outcomes with
  | .error (qp, error) => (qp, .error error)
  | .ok qp =>
    match determineEnd qp packet with
    | .error (qp, error) => (qp, .error error)
    | .ok (qp, stop) =>
      if stop = packet.offset then (qp, .error .einval)
      else if outcomes.pullHeader = false then (qp, .error .enomem)
      else if outcomes.trim = false then (qp, .error .enomem)
      else
        placeFrag qp packet.tos outcomes ⟨packet.skb, packet.offset,
            packet.payload.take (stop - packet.offset)⟩ stop

/-- `ip_frag_ecn_table`; none for invalid combinations. -/
def ipFragEcnTable (ecn : Nat) : Option Nat :=
  if ecn % 2 = 1 ∧ ecn % 16 ≠ 1 then none
  else if 8 ≤ ecn % 16 ∧ ecn % 16 ≠ 8 then some 3
  else some 0

/-- What else decides how `ip_frag_reasm` ends. -/
structure ReasmOutcomes where
  /-- `skb_clone` of the new fragment. -/
  clone : Bool
  /-- `skb_unclone` and `alloc_skb` for the head. -/
  head : Bool
  /-- `ip_hdrlen` of the first fragment. -/
  ihlen : Nat
  deriving Repr, DecidableEq

/--
`ip_frag_reasm`: the payload of the datagram. The new fragment becomes the
buffer of the first one and its clone takes its place, so the chain's data
stays.
-/
def ipFragReasm (prev : Option Nat)
    (outcomes : ReasmOutcomes) : Ipq × Except FragError (List Byte) :=
  let qp := ipqKill qp
  if ipFragEcnTable qp.ecn = none then (qp, .error .einval)
  else if prev.isSome ∧ outcomes.clone = false then (qp, .error .enomem)
  else if 65535 < outcomes.ihlen + qp.len then (qp, .error .e2big)
  else if outcomes.head = false then (qp, .error .enomem)
  else ({ qp with fragments := [], fragmentsTail := none }, .ok (qp.fragments.flatMap (·.data)))

end

end EchoKernel.IpFragment
