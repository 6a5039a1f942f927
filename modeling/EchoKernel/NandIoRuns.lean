import EchoKernel.LabelledRun
import EchoKernel.NandIoPages

namespace EchoKernel.Nandx

open LabelledRun List NandxDesc

/-!
# Runs of the NAND core

Sequences of writes, reads, erases and synchronisations. Every page of an
accepted write reaches `write_page` once, in order and in batches of whole
multiples of `min_write_pages`, while no call drops or overwrites what is
pending.
-/

section

/-- A call of the core; `ret` is the chip's result. -/
inductive IoCall where
  | write (payload : Payload) (offset : Nat) (ret : Int)
  | read (data oob : Bool) (offset len : Nat) (buffers : Buffers) (ret : Int)
  | erase (offset len : Nat) (ret : Int)
  | sync (ret : Int)
  deriving Repr, DecidableEq

variable (core : CoreInfo)

/-- One call; none if it writes behind the array. -/
def IoCall.perform (nandx : NandxDesc) : IoCall → Option (NandxDesc × Int)
  | .write payload offset ret => nandxWrite core nandx payload offset ret
  | .read data oob offset len buffers ret => nandxRead core nandx data oob offset len buffers ret
  | .erase offset len ret => nandxErase core nandx offset len ret
  | .sync ret => nandxSync core nandx ret

/-- The pages that a call hands over. -/
def IoCall.offers : IoCall → List Page
  | .write payload offset _ =>
    if payload.refused core then []
    else
      match payload with
      | .data bytes oob => suppliedPages core bytes oob offset
      | .oobOnly bytes => suppliedOobPages core bytes offset
      | .nothing _ => []
  | _ => []

/-- A page of padding. -/
def Page.IsBlank (page : Page) : Prop :=
  page.data = blank core.pageSize ∧ page.oob = blank core.oobUpperSize

/-- The batches are the pages in order, each in one place, with padding behind those of a batch. -/
def Delivered (pages : List Page) (written : List (List Page)) : Prop :=
  ∃ parts : List (List Page × List Page), written = parts.map (fun part => part.1 ++ part.2) ∧
      parts.flatMap Prod.fst = pages ∧ (∀ part ∈ parts, ∀ page ∈ part.2, page.IsBlank core) ∧
      ∀ batch ∈ written, core.minWritePages ∣ batch.length

/-- A write leaves what is pending alone and fits. -/
def Payload.Safe (nandx : NandxDesc) (offset : Nat) : Payload → Prop
  | .data bytes _ =>
    (0 < splitHead offset bytes.length core.pageSize → ∀ op ∈ nandx.ops, op.data ≠ .head) ∧
      (0 < splitTail offset bytes.length core.pageSize → ∀ op ∈ nandx.ops, op.data ≠ .tail) ∧
      nandx.ops.length + pageCount core offset bytes.length ≤ core.opsLen
  | .oobOnly bytes =>
    (∀ op ∈ nandx.ops, op.data = .head → nandx.buffers.headData = blank core.pageSize) ∧
      (nandx.ops = [] ∨ (nandx.ops.length + bytes.length / core.oobUpperSize) %
          core.minWritePages ≠ 0) ∧
      nandx.ops.length + bytes.length / core.oobUpperSize ≤ core.opsLen
  | .nothing _ => True

/--
A safe call is refused, a write that leaves what is pending alone, a read or
an erase with nothing pending, or a synchronisation whose padding completes
the batch.
-/
def IoCall.Safe (nandx : NandxDesc) : IoCall → Prop
  | .write payload offset _ => payload.refused core = false → payload.Safe core nandx offset
  | .read data oob offset len _ _ =>
    readRefused core data oob len = false →
      nandx.ops = [] ∧ readCount core data offset len ≤ core.opsLen
  | .erase offset len _ => eraseRefused core offset len = false → nandx.ops = []
  | .sync _ =>
    nandx.ops.length % core.minWritePages ≠ 0 →
      2 * (nandx.ops.length % core.minWritePages) = core.minWritePages ∧
        (∀ op ∈ nandx.ops, op.data ≠ .tail) ∧
        nandx.ops.length + nandx.ops.length % core.minWritePages ≤ core.opsLen

/-- A safe call that returns. -/
def SafeIoStep (nandx : NandxDesc) (call : IoCall) (next : NandxDesc) : Prop :=
  call.Safe core nandx ∧ ∃ ret, call.perform core nandx = some (next, ret)

end

section
variable {core : CoreInfo} {nandx next : NandxDesc} {pages : List Page} {written : List (List Page)}

theorem delivered_nil : Delivered core [] [] := ⟨[], rfl, rfl, by simp, by simp⟩

/-- A batch of further pages with padding behind them. -/
theorem Delivered.append
    {pending padding : List Page}
    (delivered : Delivered core pages written)
    (isBlank : ∀ page ∈ padding, page.IsBlank core)
    (divides : core.minWritePages ∣ (pending ++ padding).length) :
    Delivered core (pages ++ pending) (written ++ [pending ++ padding]) := by
  obtain ⟨parts, isWritten, isPages, blanks, batches⟩ := delivered
  refine ⟨parts ++ [(pending, padding)], ?_, ?_, ?_, ?_⟩
  · rw [map_append, ← isWritten]
    rfl
  · rw [flatMap_append, isPages]
    simp
  · exact forall_mem_append.mpr ⟨blanks, forall_mem_singleton.mpr isBlank⟩
  · exact forall_mem_append.mpr ⟨batches, forall_mem_singleton.mpr divides⟩

/-- Operations see the same bytes in two states of the buffers. -/
structure KeptFor (ops : List NandOps) (before after : Buffers) : Prop where
  head : ∀ op ∈ ops, op.data = .head → after.headData = before.headData
  tail : ∀ op ∈ ops, op.data = .tail → after.tailData = before.tailData
  headOob : ∀ op ∈ ops, op.oob = .head → after.headOob = before.headOob
  noTailOob : ∀ op ∈ ops, op.oob ≠ .tail

theorem KeptFor.map_page
    {ops : List NandOps}
    {before after : Buffers}
    (kept : KeptFor ops before after) :
    ops.map (NandOps.page after) = ops.map (NandOps.page before) := by
  refine map_congr_left ?_
  intro op member
  have head := kept.head op member
  have tail := kept.tail op member
  have headOob := kept.headOob op member
  have noTailOob := kept.noTailOob op member
  obtain ⟨row, data, oob⟩ := op
  simp only [NandOps.page, Page.mk.injEq, true_and]
  constructor
  · cases data with
    | caller bytes => rfl
    | head => exact head rfl
    | tail => exact tail rfl
  · cases oob with
    | caller bytes => rfl
    | head => exact headOob rfl
    | tail => exact absurd rfl noTailOob

/-- The pages handed over are delivered or pending, in order. -/
structure Collected (core : CoreInfo) (offered : List Page) (nandx : NandxDesc) : Prop where
  pages : ∃ pages, Delivered core pages nandx.written ∧
        pages ++ nandx.ops.map (NandOps.page nandx.buffers) = offered
  mode : nandx.ops ≠ [] → nandx.mode = .write
  spare : ∀ op ∈ nandx.ops, op.oob = .head → nandx.buffers.headOob = blank core.oobUpperSize
  noTailOob : ∀ op ∈ nandx.ops, op.oob ≠ .tail

variable {offered : List Page}

theorem collected_nandxInit : Collected core [] (nandxInit core) :=
  ⟨⟨[], delivered_nil, rfl⟩, fun pending => absurd rfl pending,
    fun _ member => absurd member (by simp [nandxInit]),
    fun _ member => absurd member (by simp [nandxInit])⟩

theorem Collected.delivered
    (collected : Collected core offered nandx)
    (idle : nandx.ops = []) :
    Delivered core offered nandx.written := by
  obtain ⟨pages, delivered, isOffered⟩ := collected.pages
  rw [idle, map_nil, append_nil] at isOffered
  rwa [← isOffered]

/-- A state with nothing pending and everything delivered. -/
theorem collected_of_delivered
    (delivered : Delivered core offered nandx.written)
    (idle : nandx.ops = []) :
    Collected core offered nandx := by
  refine ⟨⟨offered, delivered, ?_⟩, ?_, ?_, ?_⟩
  · rw [idle, map_nil, append_nil]
  · exact fun pending => absurd idle pending
  · intro op member
    rw [idle] at member
    cases member
  · intro op member
    rw [idle] at member
    cases member

section
variable {buffers : Buffers} {ops : List NandOps} (collected : Collected core offered nandx)
  (kept : KeptFor nandx.ops nandx.buffers buffers)
include collected kept

/-- Further operations, with the buffers kept for pending ones. -/
theorem Collected.add
    (spare : ∀ op ∈ ops, op.oob = .head → buffers.headOob = blank core.oobUpperSize)
    (noTailOob : ∀ op ∈ ops, op.oob ≠ .tail) :
    Collected core (offered ++ ops.map (NandOps.page buffers))
    ⟨.write, nandx.ops ++ ops, buffers, nandx.written⟩ := by
  obtain ⟨pages, delivered, isOffered⟩ := collected.pages
  refine ⟨⟨pages, delivered, ?_⟩, fun _ => rfl, ?_, ?_⟩
  · rw [map_append, kept.map_page, ← append_assoc, isOffered]
  · refine forall_mem_append.mpr ⟨?_, spare⟩
    intro op before isHead
    exact (kept.headOob op before isHead).trans (collected.spare op before isHead)
  · exact forall_mem_append.mpr ⟨collected.noTailOob, noTailOob⟩

/-- A batch of all pending operations and padding. -/
theorem Collected.flush
    {padding : List NandOps}
    {mode : OpMode}
    (isBlank : ∀ op ∈ padding, (NandOps.page buffers op).IsBlank core)
    (isOps : ops = nandx.ops ++ padding)
    (divides : core.minWritePages ∣ ops.length) :
    Collected core offered
    (writePage ⟨nandx.mode, ops, buffers, nandx.written⟩ ops.length mode) := by
  obtain ⟨pages, delivered, isOffered⟩ := collected.pages
  refine collected_of_delivered ?_ rfl
  have batch := Delivered.append delivered (forall_mem_map.mpr isBlank)
    (by rwa [← map_append, length_map, ← isOps])
  rw [kept.map_page, isOffered, ← kept.map_page, ← map_append, ← isOps] at batch
  simpa only [writePage, take_length] using batch

end

theorem Collected.flushAll
    {mode : OpMode}
    (collected : Collected core offered nandx)
    (divides : core.minWritePages ∣ nandx.ops.length) :
    Collected core offered (nandx.writePage nandx.ops.length mode) :=
  @Collected.flush core nandx offered nandx.buffers nandx.ops collected
    ⟨fun _ _ _ => rfl, fun _ _ _ => rfl, fun _ _ _ => rfl, collected.noTailOob⟩ [] mode
    (by simp) (by simp) divides

end

section
variable {core : CoreInfo} {nandx next : NandxDesc} {offered : List Page}
variable {bytes : List (BitVec 8)} {oob : Option (List (BitVec 8))}
variable {offset : Nat} {ret : Int}

theorem oob_of_mem_writeOps
    {op : NandOps}
    (member : op ∈ writeOps core bytes oob offset) :
    ∃ index, op.oob = refOob core oob index := by
  rcases mem_append.mp member with front | last
  · rcases mem_append.mp front with first | middle
    · unfold headOps at first
      split at first
      · cases first
      · rw [mem_singleton.mp first]
        exact ⟨_, rfl⟩
    · obtain ⟨index, _, rfl⟩ := mem_map.mp middle
      exact ⟨_, rfl⟩
  · unfold tailOps at last
    split at last
    · cases last
    · rw [mem_singleton.mp last]
      exact ⟨_, rfl⟩

theorem refOob_ne_tail {index : Nat} : refOob core oob index ≠ .tail := by
  cases oob with
  | none | some bytes => simp [refOob]

theorem none_of_refOob_head
    {index : Nat}
    (isHead : refOob core oob index = .head) :
    oob = none := by
  cases oob with
  | none => rfl
  | some bytes => simp [refOob] at isHead

/-- What a write with data does to the buffers. -/
theorem keptFor_fill
    {ops : List NandOps}
    {buffers : Buffers}
    (noHead : 0 < splitHead offset bytes.length core.pageSize → ∀ op ∈ ops, op.data ≠ .head)
    (noTail : 0 < splitTail offset bytes.length core.pageSize → ∀ op ∈ ops, op.data ≠ .tail)
    (spare : ∀ op ∈ ops, op.oob = .head → buffers.headOob = blank core.oobUpperSize)
    (noTailOob : ∀ op ∈ ops, op.oob ≠ .tail) :
    KeptFor ops buffers (fillTail core (fillHead core buffers bytes oob offset) bytes offset) := by
  refine ⟨?_, ?_, ?_, noTailOob⟩
  · intro op member isHead
    unfold fillTail fillHead
    dsimp only
    split
    case isTrue | isFalse =>
      split
      · split <;> rfl
      · exact absurd isHead (noHead (by omega) op member)
  · intro op member isTail
    unfold fillTail fillHead
    dsimp only
    split
    case isTrue =>
      split
      · split <;> rfl
      · rfl
    case isFalse => exact absurd isTail (noTail (by omega) op member)
  · intro op member isHead
    have isBlank := spare op member isHead
    unfold fillTail fillHead
    dsimp only
    split
    all_goals
      split
      · split
        · exact isBlank.symm
        · rfl
      · exact isBlank.symm

theorem exists_collected_writePages
    (collected : Collected core offered nandx)
    (nonempty : 0 < bytes.length)
    (safe : (Payload.data bytes oob).Safe core nandx offset) :
    ∃ next result, writePages core nandx bytes oob offset ret = some (next, result) ∧
    Collected core (offered ++ suppliedPages core bytes oob offset) next := by
  obtain ⟨noHead, noTail, fits⟩ := safe
  generalize isBuffers : fillTail core (fillHead core nandx.buffers bytes oob offset) bytes
    offset = buffers
  have filled : Filled core buffers bytes oob offset := by
    rw [← isBuffers]
    exact filled_fillTail
  have kept : KeptFor nandx.ops nandx.buffers buffers := by
    rw [← isBuffers]
    exact keptFor_fill noHead noTail collected.spare collected.noTailOob
  have added :=
    @Collected.add core nandx offered buffers (writeOps core bytes oob offset) collected kept (by
        intro op member isHead
        obtain ⟨index, isRef⟩ := oob_of_mem_writeOps member
        exact filled.headOob (none_of_refOob_head (isRef.symm.trans isHead)))
      (by
        intro op member
        obtain ⟨index, isRef⟩ := oob_of_mem_writeOps member
        rw [isRef]
        exact refOob_ne_tail)
  rw [map_page_writeOps filled nonempty] at added
  have room : nandx.ops.length + (writeOps core bytes oob offset).length ≤ core.opsLen := by
    rwa [length_writeOps nonempty]
  simp only [writePages, isBuffers, prepare, if_pos room]
  split
  case isTrue => exact ⟨_, _, rfl, added⟩
  case isFalse whole =>
    refine ⟨_, _, rfl, ?_⟩
    exact added.flushAll (Nat.dvd_of_mod_eq_zero (not_not.mp whole))

theorem map_page_oobOps
    {buffers : Buffers}
    (isBlank : buffers.headData = blank core.pageSize) :
    (oobOps core bytes offset).map (NandOps.page buffers) = suppliedOobPages core bytes offset := by
  rw [oobOps, map_map]
  refine map_congr_left ?_
  intro index _
  simp only [Function.comp, NandOps.page, isBlank]
  rfl

section
variable (collected : Collected core offered nandx)
include collected

theorem exists_collected_writeSequent
    (safe : (Payload.oobOnly bytes).Safe core nandx offset) :
    ∃ next result, writeSequent core nandx bytes offset ret = some (next, result) ∧
    Collected core (offered ++ suppliedOobPages core bytes offset) next := by
  obtain ⟨blankHead, apart, fits⟩ := safe
  have count : (oobOps core bytes offset).length = bytes.length / core.oobUpperSize := by
    simp [oobOps]
  have callers : ∀ op ∈ oobOps core bytes offset, ∃ spare, op.oob = .caller spare := by
    exact forall_mem_map.mpr fun _ _ => ⟨_, rfl⟩
  have added :=
    @Collected.add core nandx offered { nandx.buffers with headData := blank core.pageSize }
      (oobOps core bytes offset) collected
      ⟨fun op member isHead => (blankHead op member isHead).symm,
        fun _ _ _ => rfl, fun _ _ _ => rfl, collected.noTailOob⟩ (by
        intro op member isHead
        obtain ⟨spare, isCaller⟩ := callers op member
        rw [isCaller] at isHead
        cases isHead)
      (by
        intro op member isTail
        obtain ⟨spare, isCaller⟩ := callers op member
        rw [isCaller] at isTail
        cases isTail)
  rw [map_page_oobOps rfl] at added
  rw [← count] at fits apart
  simp only [writeSequent, prepare, if_pos fits]
  split
  case isTrue => exact ⟨_, _, rfl, added⟩
  case isFalse whole =>
    rw [not_not, length_append] at whole
    have idle : nandx.ops = [] := apart.resolve_right (not_not.mpr whole)
    refine ⟨_, _, rfl, ?_⟩
    rw [idle, length_nil, Nat.zero_add] at whole
    rw [idle] at added ⊢
    exact added.flushAll (Nat.dvd_of_mod_eq_zero whole)

theorem exists_collected_nandxWrite
    {payload : Payload}
    (safe : (IoCall.write payload offset ret).Safe core nandx) :
    ∃ next result,
    nandxWrite core nandx payload offset ret = some (next, result) ∧
    Collected core (offered ++ (IoCall.write payload offset ret).offers core) next := by
  cases refused : payload.refused core with
  | true =>
    simp only [nandxWrite, IoCall.offers, refused, if_true, append_nil]
    exact ⟨_, _, rfl, collected⟩
  | false =>
    have fits := safe refused
    simp only [nandxWrite, IoCall.offers, refused]
    cases payload with
    | data bytes oob =>
      have nonempty : 0 < bytes.length := by
        simp [Payload.refused, transferAccepted, lengthAccepted] at refused
        exact length_pos_of_ne_nil refused.1.1
      exact exists_collected_writePages collected nonempty fits
    | oobOnly bytes => exact exists_collected_writeSequent collected fits
    | nothing len => simp [Payload.refused, transferAccepted] at refused

theorem Collected.reset
    {buffers : Buffers}
    (idle : nandx.ops = []) :
    Collected core offered ⟨.idle, [], buffers, nandx.written⟩ :=
  collected_of_delivered (collected.delivered idle) rfl

theorem exists_collected_nandxRead
    {data oob : Bool}
    {len : Nat}
    {buffers : Buffers}
    (safe : (IoCall.read data oob offset len buffers ret).Safe core nandx) :
    ∃ next result,
    nandxRead core nandx data oob offset len buffers ret = some (next, result) ∧
    Collected core offered next := by
  cases refused : readRefused core data oob len with
  | true =>
    simp only [nandxRead, refused]
    exact ⟨_, _, rfl, collected⟩
  | false =>
    obtain ⟨idle, fits⟩ := safe refused
    simp only [nandxRead, refused, if_pos fits]
    exact ⟨_, _, rfl, collected.reset idle⟩

theorem exists_collected_nandxErase
    {len : Nat}
    (safe : (IoCall.erase offset len ret).Safe core nandx) :
    ∃ next result,
    nandxErase core nandx offset len ret = some (next, result) ∧ Collected core offered next := by
  cases refused : eraseRefused core offset len with
  | true =>
    simp only [nandxErase, refused]
    exact ⟨_, _, rfl, collected⟩
  | false =>
    simp only [nandxErase, refused]
    exact ⟨_, _, rfl, collected.reset (safe refused)⟩

end

theorem dvd_padded
    {count multiple : Nat}
    (half : 2 * (count % multiple) = multiple) :
    multiple ∣ count + count % multiple := by
  have division := Nat.div_add_mod count multiple
  refine ⟨count / multiple + 1, ?_⟩
  rw [Nat.mul_add]
  omega

/-- A safe synchronisation leaves nothing pending. -/
theorem exists_collected_nandxSync
    (collected : Collected core offered nandx)
    (safe : (IoCall.sync ret).Safe core nandx) :
    ∃ next result, nandxSync core nandx ret =
    some (next, result) ∧ Collected core offered next ∧ next.ops = [] := by
  by_cases idle : nandx.ops = []
  · rw [nandxSync, if_pos idle]
    exact ⟨_, _, rfl, collected, idle⟩
  rw [nandxSync, if_neg idle, collected.mode idle]
  dsimp only
  split
  case isTrue whole =>
    exact ⟨_, _, rfl, collected.flushAll (Nat.dvd_of_mod_eq_zero whole), rfl⟩
  case isFalse short =>
    obtain ⟨half, noTail, fits⟩ := safe short
    have count : (paddingOps nandx.lastRow (nandx.ops.length % core.minWritePages)).length =
        nandx.ops.length % core.minWritePages := by
      simp [paddingOps]
    have padded := @Collected.flush core nandx offered
      { nandx.buffers with
        tailData := blank core.pageSize
        tailOob := blank core.oobUpperSize }
      _ collected
      ⟨fun _ _ _ => rfl, fun op member isTail => absurd isTail (noTail op member),
        fun _ _ _ => rfl, collected.noTailOob⟩
      (paddingOps nandx.lastRow (nandx.ops.length % core.minWritePages)) .idle
      (forall_mem_map.mpr fun _ _ => ⟨rfl, rfl⟩)
      rfl
      (by
        rw [length_append, count]
        exact dvd_padded half)
    rw [prepare, if_pos (by rwa [count])]
    exact ⟨_, _, rfl, padded, rfl⟩

/-- A safe call delivers or keeps its pages. -/
theorem exists_collected_perform
    {call : IoCall}
    (collected : Collected core offered nandx)
    (safe : call.Safe core nandx) :
    ∃ next result, call.perform core nandx = some (next, result) ∧
    Collected core (offered ++ call.offers core) next := by
  cases call with
  | write payload offset ret => exact exists_collected_nandxWrite collected safe
  | read data oob offset len buffers ret =>
    rw [show offered ++ IoCall.offers core _ = offered from append_nil _]
    exact exists_collected_nandxRead collected safe
  | erase offset len ret =>
    rw [show offered ++ IoCall.offers core _ = offered from append_nil _]
    exact exists_collected_nandxErase collected safe
  | sync ret =>
    rw [show offered ++ IoCall.offers core _ = offered from append_nil _]
    obtain ⟨next, result, returns, after, _⟩ := exists_collected_nandxSync collected safe
    exact ⟨next, result, returns, after⟩

end

variable {core : CoreInfo} {nandx : NandxDesc} {calls : List IoCall}

/-- Pages of safe runs are delivered or pending. -/
theorem collected_of_run
    (run : Run (SafeIoStep core) (nandxInit core) calls nandx) :
    Collected core (calls.flatMap (IoCall.offers core)) nandx := by
  induction run with
  | start => exact collected_nandxInit
  | after run taken inductionHypothesis =>
    obtain ⟨safe, ret, returns⟩ := taken
    obtain ⟨next, result, performs, collected⟩ := exists_collected_perform inductionHypothesis safe
    rw [returns, Option.some.injEq, Prod.mk.injEq] at performs
    rw [flatMap_append, flatMap_cons, flatMap_nil, append_nil, performs.1]
    exact collected

/--
In a run of safe calls no call writes behind the array, and after a final
synchronisation every page of an accepted write was passed to `write_page`
once.
-/
theorem delivered_of_run
    (run : Run (SafeIoStep core) (nandxInit core) calls nandx) :
    (∀ call : IoCall, call.Safe core nandx → (call.perform core nandx).isSome) ∧ ∀ ret,
    (IoCall.sync ret).Safe core nandx → ∃ next result, nandxSync core nandx ret =
    some (next, result) ∧ Delivered core (calls.flatMap (IoCall.offers core)) next.written := by
  have collected := collected_of_run run
  constructor
  · intro call safe
    obtain ⟨next, result, returns, _⟩ := exists_collected_perform collected safe
    rw [returns]
    rfl
  · intro ret safe
    obtain ⟨next, result, returns, after, idle⟩ := exists_collected_nandxSync collected safe
    exact ⟨next, result, returns, after.delivered idle⟩

/-- A chip with pages of four bytes, written in pairs. -/
def twoPageCore : CoreInfo := ⟨4, 1, 8, 64, 8, 2, by decide, Nat.one_pos, by decide, by decide⟩

/-- A write of one whole page. -/
def pageWrite : IoCall := .write (.data [1, 2, 3, 4] none) 0 0

/-- The state with the page pending. -/
def pendingPage : NandxDesc :=
  ⟨.write, [⟨0, .caller [1, 2, 3, 4], .head⟩], ⟨blank 4, blank 1, blank 4, blank 1⟩, []⟩

/-- A read drops the page of an accepted write. -/
theorem not_delivered_pendingPage :
    pageWrite.perform twoPageCore (nandxInit twoPageCore) =
    some (pendingPage, 1) ∧ ∃ next last,
    (IoCall.read true false 0 4 pendingPage.buffers 0).perform twoPageCore pendingPage =
    some (next, 0) ∧ (IoCall.sync 0).perform twoPageCore next = some (last, 0) ∧
    ¬ Delivered twoPageCore (pageWrite.offers twoPageCore) last.written := by
  refine ⟨by decide, _, _, rfl, rfl, ?_⟩
  rintro ⟨parts, isWritten, isPages, _⟩
  have isNil : parts = [] := map_eq_nil_iff.mp isWritten.symm
  rw [isNil] at isPages
  revert isPages
  decide

theorem delivered_of_run_pendingPage :
    ∃ next result, nandxSync twoPageCore pendingPage 0 =
    some (next, result) ∧ Delivered twoPageCore (pageWrite.offers twoPageCore) next.written := by
  have safe : pageWrite.Safe twoPageCore (nandxInit twoPageCore) :=
    fun _ => ⟨by decide, by decide, by decide⟩
  have run : Run (SafeIoStep twoPageCore) (nandxInit twoPageCore) [pageWrite] pendingPage :=
    .after .start ⟨safe, 1, by decide⟩
  exact (delivered_of_run run).2 0 fun _ => ⟨by decide, by decide, by decide⟩

end EchoKernel.Nandx
