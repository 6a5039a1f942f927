import EchoKernel.Kfifo
import EchoKernel.LabelledRun

namespace EchoKernel.KernelFifo

open CircularWindow LabelledRun BitVec List Content

/-!
# Record queues as queues of records

A record queue holds its records in sequence, each behind its length. A length
that does not fit into its bytes loses its upper bits, and what follows is
read out of step.
-/

variable {fifo : Kfifo} {order : Nat}

section
variable {recsize n : BitVec 32} {bytes buf rest : List (BitVec 8)}

/-- The bytes that hold the length of a record. -/
def header (recsize n : BitVec 32) : List (BitVec 8) :=
  if 1 < recsize then [n.setWidth 8, (n >>> 8).setWidth 8]
  else [n.setWidth 8]

/-- A record with its length. -/
def frame (recsize : BitVec 32) (record : List (BitVec 8)) : List (BitVec 8) :=
  header recsize (BitVec.ofNat 32 record.length) ++ record

/-- The sizes of a length. -/
def IsRecsize (recsize : BitVec 32) : Prop := recsize = 1 ∨ recsize = 2

theorem length_header
    (isRecsize : IsRecsize recsize) :
    (header recsize n).length = recsize.toNat := by
  rcases isRecsize with rfl | rfl
  · rfl
  · rfl

theorem length_frame
    (isRecsize : IsRecsize recsize) :
    (frame recsize buf).length = recsize.toNat + buf.length := by
  rw [frame, length_append, length_header isRecsize]

theorem Sized.poke_eq
    (sized : Sized fifo order)
    (val : BitVec 32) :
    kfifoPoke fifo.data fifo.inIndex fifo.mask val = (fifo.extended [val.setWidth 8]).data := by
  have inside := sized.mod_lt fifo.inIndex
  rw [kfifoPoke, sized.toNat_and, Kfifo.extended, writeWrapped,
    if_pos (by rw [length_singleton]; omega)]

/-- A length's bytes are written one after the other. -/
def Kfifo.poked (fifo : Kfifo) (recsize n : BitVec 32) : Kfifo :=
  if 1 < recsize then (fifo.extended [n.setWidth 8]).extended [(n >>> 8).setWidth 8]
  else fifo.extended [n.setWidth 8]

/-- The length is written behind the content; the index stays. -/
theorem Sized.pokeN_eq
    (sized : Sized fifo order) :
    kfifoPokeN fifo n recsize = { fifo.poked recsize n with inIndex := fifo.inIndex } := by
  have bounds := sized.bounds
  have isLength := sized.isLength
  have sizedFirst :=
    @Sized.extended fifo order [n.setWidth 8] sized (by rw [length_singleton]; omega)
  rw [kfifoPokeN, Kfifo.poked, sized.poke_eq]
  split
  · have second := sizedFirst.poke_eq (n >>> 8)
    change kfifoPoke (fifo.extended [n.setWidth 8]).data (fifo.inIndex + 1)
      fifo.mask (n >>> 8) = _ at second
    rw [second]
    rfl
  · rfl

theorem Content.poked
    (content : Content fifo bytes)
    (sized : Sized fifo order)
    (isRecsize : IsRecsize recsize)
    (room : bytes.length + recsize.toNat ≤ fifo.data.length) :
    Sized (fifo.poked recsize n) order ∧
    Content (fifo.poked recsize n) (bytes ++ header recsize n) ∧
    (fifo.poked recsize n).inIndex = fifo.inIndex + recsize := by
  have isLength := sized.isLength
  rcases isRecsize with rfl | rfl
  · change bytes.length + 1 ≤ fifo.data.length at room
    exact ⟨sized.extended (by rw [length_singleton]; omega), content.extended sized room, rfl⟩
  change bytes.length + 2 ≤ fifo.data.length at room
  have sizedFirst :=
    @Sized.extended fifo order [n.setWidth 8] sized (by rw [length_singleton]; omega)
  have contentFirst := @extended fifo order bytes [n.setWidth 8] content sized
    (by rw [length_singleton]; omega)
  have isLengthFirst := sizedFirst.isLength
  refine ⟨sizedFirst.extended (by rw [length_singleton]; omega), ?_, ?_⟩
  · have contentSecond :=
      @extended _ order _ [(n >>> 8).setWidth 8] contentFirst sizedFirst (by
        rw [length_append, length_singleton, length_singleton]
        omega)
    rw [List.append_assoc] at contentSecond
    exact contentSecond
  · change fifo.inIndex + 1 + 1 = fifo.inIndex + 2
    rw [BitVec.add_assoc]
    rfl

/-- The bytes are written behind their length. -/
theorem Sized.copyIn_eq
    {stage : Kfifo}
    (sized : Sized stage order)
    (start : BitVec 32)
    (fits : buf.length ≤ stage.data.length) :
    kfifoCopyIn { stage with inIndex := start } buf
        (BitVec.ofNat 32 buf.length) stage.inIndex =
      { stage.extended buf with inIndex := start } := by
  have bounds := sized.bounds
  have isLength := sized.isLength
  have isLen : (BitVec.ofNat 32 buf.length).toNat = buf.length := by
    rw [toNat_ofNat]
    omega
  have sizedStart : Sized { stage with inIndex := start } order := { sized with }
  have isData := @Sized.data_copyIn _ order (BitVec.ofNat 32 buf.length) stage.inIndex buf
    sizedStart isLen.symm
  rw [kfifoCopyIn] at isData ⊢
  dsimp only at isData ⊢
  rw [isData]
  rfl

/-- A record that fits is written with its length. -/
theorem Content.inR
    (content : Content fifo bytes)
    (sized : Sized fifo order)
    (isRecsize : IsRecsize recsize)
    (room : bytes.length + (recsize.toNat + buf.length) ≤ fifo.data.length) :
    ∃ next,
    kfifoInR fifo buf recsize = (next, BitVec.ofNat 32 buf.length) ∧ Sized next order ∧
    Content next (bytes ++ frame recsize buf) := by
  have bounds := sized.bounds
  have isLength := sized.isLength
  have isSum : (BitVec.ofNat 32 buf.length + recsize).toNat = buf.length + recsize.toNat := by
    rw [toNat_add, toNat_ofNat]
    omega
  have accepted : ¬kfifoUnused fifo < BitVec.ofNat 32 buf.length + recsize := by
    rw [lt_def, content.toNat_unused sized]
    omega
  obtain ⟨sizedPoked, contentPoked, isIndex⟩ := poked content sized isRecsize (by omega)
  have isLengthPoked := sizedPoked.isLength
  refine ⟨_, ?_, sizedPoked.extended (by omega : buf.length ≤ _), ?_⟩
  · rw [kfifoInR]
    rw [if_neg accepted, sized.pokeN_eq]
    dsimp only
    rw [← isIndex, sizedPoked.copyIn_eq fifo.inIndex (by omega)]
    rw [Prod.mk.injEq]
    refine ⟨?_, rfl⟩
    rw [Kfifo.extended, Kfifo.mk.injEq]
    refine ⟨?_, rfl, rfl, rfl, rfl⟩
    rw [isIndex, BitVec.add_assoc, BitVec.add_comm recsize]
  · have contentNext :=
      @extended _ order _ buf contentPoked sizedPoked (by
        rw [length_append, length_header isRecsize]
        omega)
    rw [List.append_assoc] at contentNext
    exact contentNext

theorem Content.peek_eq
    (content : Content fifo bytes)
    (sized : Sized fifo order)
    {before : Nat}
    (inside : before < bytes.length) :
    kfifoPeek fifo.data (fifo.outIndex + BitVec.ofNat 32 before) fifo.mask = bytes[before] := by
  have isWindow := @window_eq fifo order bytes content sized before 1 inside
  have position := sized.mod_lt (fifo.outIndex + BitVec.ofNat 32 before)
  rw [window, range_one, map_singleton, Nat.add_zero, wrap,
    if_pos position, drop_eq_getElem_cons inside, take_succ_cons, cons.injEq] at isWindow
  rw [kfifoPeek, sized.toNat_and]
  exact isWindow.1

/-- A length that fits into its bytes is read back. -/
theorem Content.peekN_eq
    {count : Nat}
    (content : Content fifo (header recsize (BitVec.ofNat 32 count) ++ rest))
    (sized : Sized fifo order)
    (isRecsize : IsRecsize recsize)
    (small : count < 256 ^ recsize.toNat) :
    kfifoPeekN fifo recsize = BitVec.ofNat 32 count := by
  have positive : 0 < recsize.toNat := by
    rcases isRecsize with rfl | rfl
    · decide
    · decide
  have first := peek_eq content sized (by
    rw [length_append, length_header isRecsize]
    exact Nat.lt_add_right _ positive)
  rw [BitVec.add_zero] at first
  rw [kfifoPeekN, first]
  rcases isRecsize with rfl | rfl
  · change count < 256 at small
    refine eq_of_toNat_eq ?_
    change (((BitVec.ofNat 32 count).setWidth 8).setWidth 32).toNat = _
    rw [toNat_setWidth, toNat_setWidth, toNat_ofNat]
    omega
  change count < 256 ^ 2 at small
  have second := @peek_eq _ order _ content sized 1 (by
    rw [length_append, length_header (.inr rfl)]
    exact Nat.lt_add_right _ (by decide))
  change kfifoPeek fifo.data (fifo.outIndex + 1) fifo.mask = _ at second
  rw [second]
  refine eq_of_toNat_eq ?_
  change (((BitVec.ofNat 32 count).setWidth 8).setWidth 32 |||
    ((BitVec.ofNat 32 count >>> 8).setWidth 8).setWidth 32 <<< 8).toNat = _
  have low : (((BitVec.ofNat 32 count).setWidth 8).setWidth 32).toNat = count % 256 := by
    rw [toNat_setWidth, toNat_setWidth, toNat_ofNat]
    omega
  have high : (((BitVec.ofNat 32 count >>> 8).setWidth 8).setWidth 32 <<< 8).toNat =
      (count / 256) <<< 8 := by
    rw [toNat_shiftLeft, toNat_setWidth, toNat_setWidth, toNat_ushiftRight, toNat_ofNat,
      Nat.shiftLeft_eq]
    omega
  rw [toNat_or, low, high, Nat.or_comm,
    ← Nat.shiftLeft_add_eq_or_of_lt (by omega : count % 256 < 2 ^ 8),
    toNat_ofNat]
  omega

end

section
variable {recsize len : BitVec 32} {queue : List (List (BitVec 8))} {buf record : List (BitVec 8)}

/-- The records of a queue, each with its length. -/
def frames (recsize : BitVec 32) (queue : List (List (BitVec 8))) : List (BitVec 8) :=
  queue.flatMap (frame recsize)

/-- A record queue holds a queue of records. -/
structure Holds (recsize : BitVec 32) (order : Nat) (fifo : Kfifo)
    (queue : List (List (BitVec 8))) : Prop where
  sized : Sized fifo order
  content : Content fifo (frames recsize queue)
  small : ∀ record ∈ queue, record.length < 256 ^ recsize.toNat

theorem holds_nil
    (sized : Sized fifo order)
    (isEmpty : fifo.inIndex = fifo.outIndex) :
    Holds recsize order fifo [] := by
  refine ⟨sized, ⟨?_, Nat.zero_le _, rfl⟩, by simp⟩
  rw [isEmpty, BitVec.sub_self]
  rfl

theorem Holds.isEmpty_iff
    (holds : Holds recsize order fifo queue)
    (isRecsize : IsRecsize recsize) :
    fifo.inIndex = fifo.outIndex ↔ queue = [] := by
  have isCount := holds.content.isCount
  constructor
  · intro same
    rw [same, BitVec.sub_self] at isCount
    cases queue with
    | nil => rfl
    | cons record queue =>
      rw [frames, flatMap_cons, length_append, length_frame isRecsize] at isCount
      rcases isRecsize with rfl | rfl
      · change 0 = 1 + _ + _ at isCount
        omega
      · change 0 = 2 + _ + _ at isCount
        omega
  · rintro rfl
    have isIn := holds.content.inIndex_eq
    change fifo.inIndex = fifo.outIndex + 0#32 at isIn
    rw [isIn, BitVec.add_zero]

/-- A record that fits is appended. -/
theorem Holds.inR
    (holds : Holds recsize order fifo queue)
    (isRecsize : IsRecsize recsize)
    (small : buf.length < 256 ^ recsize.toNat)
    (accepted : ¬kfifoUnused fifo < BitVec.ofNat 32 buf.length + recsize) :
    ∃ next,
    kfifoInR fifo buf recsize = (next, BitVec.ofNat 32 buf.length) ∧
    Holds recsize order next (queue ++ [buf]) := by
  have isUnused := holds.content.toNat_unused holds.sized
  have fits := holds.content.fits
  have few : recsize.toNat ≤ 2 ∧ 256 ^ recsize.toNat ≤ 256 ^ 2 := by
    rcases isRecsize with rfl | rfl
    · decide
    · decide
  have isSum : (BitVec.ofNat 32 buf.length + recsize).toNat = buf.length + recsize.toNat := by
    rw [toNat_add, toNat_ofNat]
    omega
  rw [lt_def, isUnused] at accepted
  obtain ⟨next, isNext, sized, content⟩ :=
    @Content.inR fifo order recsize _ buf holds.content holds.sized isRecsize (by omega)
  refine ⟨next, isNext, sized, ?_, ?_⟩
  · rw [frames, flatMap_append, flatMap_singleton]
    exact content
  intro record member
  rw [mem_append, mem_singleton] at member
  rcases member with old | rfl
  · exact holds.small record old
  · exact small

variable (holds : Holds recsize order fifo (record :: queue)) (isRecsize : IsRecsize recsize)
include holds isRecsize

/-- The first record is removed whole. -/
theorem Holds.advanced :
    Holds recsize order { fifo with
        outIndex := fifo.outIndex + (BitVec.ofNat 32 record.length + recsize) }
      queue := by
  have isIndex : BitVec.ofNat 32 record.length + recsize =
      BitVec.ofNat 32 (frame recsize record).length := by
    rw [length_frame isRecsize, ofNat_add, BitVec.add_comm, ofNat_toNat, setWidth_eq]
  have sized := holds.sized
  rw [isIndex]
  exact ⟨{ sized with }, holds.content.advanced sized,
    fun other member => holds.small other (mem_cons_of_mem _ member)⟩

theorem Holds.peekN_eq : kfifoPeekN fifo recsize = BitVec.ofNat 32 record.length := by
  have content := holds.content
  rw [frames, List.flatMap_cons, frame, List.append_assoc] at content
  exact content.peekN_eq holds.sized isRecsize (holds.small record mem_cons_self)

/-- The first record is copied, as far as asked for. -/
theorem Holds.outR :
    ∃ next, kfifoOutR fifo len recsize =
    (next, record.take len.toNat, BitVec.ofNat 32 (min len.toNat record.length)) ∧
    Holds recsize order next queue := by
  have notEmpty : fifo.inIndex ≠ fifo.outIndex := by
    rw [Ne, holds.isEmpty_iff isRecsize]
    simp
  have sized := holds.sized
  have content := holds.content
  have fits := content.fits
  have isLength := @length_frame recsize record isRecsize
  have bounds := sized.bounds
  have dataLength := sized.isLength
  rw [frames, flatMap_cons] at content fits
  rw [length_append] at fits
  have isRecord : (BitVec.ofNat 32 record.length).toNat = record.length := by
    rw [toNat_ofNat]
    omega
  have isMin : (if BitVec.ofNat 32 record.length < len then
      BitVec.ofNat 32 record.length else len) = BitVec.ofNat 32 (min len.toNat record.length) := by
    refine eq_of_toNat_eq ?_
    split
    case isTrue less =>
      rw [lt_def] at less
      rw [isRecord, toNat_ofNat]
      omega
    case isFalse atMost =>
      rw [lt_def] at atMost
      rw [toNat_ofNat]
      omega
  have isMinNat : (BitVec.ofNat 32 (min len.toNat record.length)).toNat =
      min len.toNat record.length := by
    rw [toNat_ofNat]
    omega
  have isCopied : kfifoCopyOut fifo (BitVec.ofNat 32 (min len.toNat record.length))
      (fifo.outIndex + recsize) = record.take len.toNat := by
    have isWindow :=
      @window_eq fifo order _ content sized recsize.toNat (min len.toNat record.length)
        (by rw [length_append]; omega)
    rw [ofNat_toNat, setWidth_eq] at isWindow
    rw [sized.copyOut_eq (by omega), isMinNat, isWindow, frame, List.append_assoc]
    rw [drop_left' (length_header isRecsize), take_append_of_le_length (by omega)]
    rw [← take_take, take_length]
  refine ⟨_, ?_, holds.advanced isRecsize⟩
  rw [kfifoOutR, if_neg notEmpty, kfifoOutCopyR, holds.peekN_eq isRecsize]
  rw [isMin, isCopied]

end

variable {final : Kfifo} {recsize : BitVec 32} {queue : List (List (BitVec 8))}

inductive Call where
  | put (buf : List (BitVec 8))
  | get (len : BitVec 32)
  | skip
deriving Repr, DecidableEq

/-- What a call returns, and the bytes for its caller. -/
structure Answer where
  count : BitVec 32
  bytes : List (BitVec 8)
deriving Repr, DecidableEq

/-- The calls with their answers. -/
inductive Step (recsize : BitVec 32) : Kfifo → Call × Answer → Kfifo → Prop where
  | put (fifo : Kfifo) (buf : List (BitVec 8)) (notEmpty : 1 ≤ buf.length)
      (isLength : buf.length < 2 ^ 32) :
      Step recsize fifo (.put buf, ⟨(kfifoInR fifo buf recsize).2, []⟩)
        (kfifoInR fifo buf recsize).1
  | get (fifo : Kfifo) (len : BitVec 32) : Step recsize fifo (.get len,
          ⟨(kfifoOutR fifo len recsize).2.2, (kfifoOutR fifo len recsize).2.1⟩)
        (kfifoOutR fifo len recsize).1
  | skip (fifo : Kfifo) (notEmpty : fifo.inIndex ≠ fifo.outIndex) :
      Step recsize fifo (.skip, ⟨0, []⟩) (kfifoSkipR fifo recsize)

/-- What the calls do to a queue of records. -/
inductive QueueStep : List (List (BitVec 8)) → Call × Answer → List (List (BitVec 8)) → Prop where
  | refuse (queue : List (List (BitVec 8))) (buf : List (BitVec 8)) :
      QueueStep queue (.put buf, ⟨0, []⟩) queue
  | append (queue : List (List (BitVec 8))) (buf : List (BitVec 8)) :
      QueueStep queue (.put buf, ⟨BitVec.ofNat 32 buf.length, []⟩) (queue ++ [buf])
  | getNothing (len : BitVec 32) : QueueStep [] (.get len, ⟨0, []⟩) []
  | get (record : List (BitVec 8)) (queue : List (List (BitVec 8))) (len : BitVec 32) :
      QueueStep (record :: queue) (.get len, ⟨BitVec.ofNat 32 (min len.toNat record.length),
            record.take len.toNat⟩) queue
  | skip (record : List (BitVec 8)) (queue : List (List (BitVec 8))) :
      QueueStep (record :: queue) (.skip, ⟨0, []⟩) queue

/-- A record is refused, or its length fits its bytes. -/
def Safe (recsize : BitVec 32) (fifo : Kfifo) : Call → Prop
  | .put buf =>
    buf.length < 256 ^ recsize.toNat ∨ kfifoUnused fifo < BitVec.ofNat 32 buf.length + recsize
  | .get _ => True
  | .skip => True

/-- A step whose record, if any, has a fitting length. -/
def SafeStep (recsize : BitVec 32) (fifo : Kfifo) (label : Call × Answer) (next : Kfifo) : Prop :=
  Step recsize fifo label next ∧ Safe recsize fifo label.1

/-- Both queues take a step; a call that adds nothing changes nothing. -/
structure JointStep (recsize : BitVec 32) (before : Kfifo × List (List (BitVec 8)))
    (label : Call × Answer) (after : Kfifo × List (List (BitVec 8))) : Prop where
  code : Step recsize before.1 label after.1
  records : QueueStep before.2 label after.2
  unchanged : ∀ buf, label = (.put buf, ⟨0, []⟩) → after = before

theorem ofNat_length_ne_zero
    {buf : List (BitVec 8)}
    (notEmpty : 1 ≤ buf.length)
    (isLength : buf.length < 2 ^ 32) :
    BitVec.ofNat 32 buf.length ≠ 0 := by
  intro isZero
  have isZeroNat := congrArg BitVec.toNat isZero
  rw [toNat_ofNat] at isZeroNat
  change _ = 0 at isZeroNat
  omega

/-- A safe step is a step of the queue of records. -/
theorem Holds.step
    {label : Call × Answer}
    {next : Kfifo}
    (holds : Holds recsize order fifo queue)
    (isRecsize : IsRecsize recsize)
    (safe : SafeStep recsize fifo label next) :
    ∃ queue',
    JointStep recsize (fifo, queue) label (next, queue') ∧ Holds recsize order next queue' := by
  obtain ⟨step, isSafe⟩ := safe
  cases step with
  | put buf notEmpty isLength =>
    by_cases refused : kfifoUnused fifo < BitVec.ofNat 32 buf.length + recsize
    · have isRefused : kfifoInR fifo buf recsize = (fifo, 0) := by
        rw [kfifoInR, if_pos refused]
      have step := @Step.put recsize fifo buf notEmpty isLength
      rw [isRefused] at step ⊢
      exact ⟨queue, ⟨step, .refuse queue buf, fun _ _ => rfl⟩, holds⟩
    obtain ⟨next, isNext, holdsNext⟩ := holds.inR isRecsize (isSafe.resolve_right refused) refused
    have step := @Step.put recsize fifo buf notEmpty isLength
    rw [isNext] at step ⊢
    refine ⟨_, ⟨step, .append queue buf, ?_⟩, holdsNext⟩
    intro other same
    have isZero := congrArg (fun label => label.2.count) same
    exact absurd isZero (ofNat_length_ne_zero notEmpty isLength)
  | get len =>
    have step := @Step.get recsize fifo len
    cases queue with
    | nil =>
      have isEmpty := (holds.isEmpty_iff isRecsize).mpr rfl
      have isNothing : kfifoOutR fifo len recsize = (fifo, [], 0) := by
        rw [kfifoOutR, if_pos isEmpty]
      rw [isNothing] at step ⊢
      refine ⟨[], ⟨step, .getNothing len, ?_⟩, holds⟩
      intro buf same
      exact absurd (Prod.mk.inj same).1 (by simp)
    | cons record queue =>
      obtain ⟨next, isNext, holdsNext⟩ := Holds.outR holds isRecsize
      rw [isNext] at step ⊢
      refine ⟨queue, ⟨step, .get record queue len, ?_⟩, holdsNext⟩
      intro buf same
      exact absurd (Prod.mk.inj same).1 (by simp)
  | skip notEmpty =>
    cases queue with
    | nil => exact absurd ((holds.isEmpty_iff isRecsize).mpr rfl) notEmpty
    | cons record queue =>
      refine ⟨queue, ⟨.skip fifo notEmpty, .skip record queue, ?_⟩, ?_⟩
      · intro buf same
        exact absurd (Prod.mk.inj same).1 (by simp)
      · rw [kfifoSkipR, holds.peekN_eq isRecsize]
        exact holds.advanced isRecsize

/--
A run whose stored records have lengths that fit is a run of the queue of
records with the same answers.
-/
theorem records_of_run
    {labels : List (Call × Answer)}
    (isRecsize : IsRecsize recsize)
    (sized : Sized fifo order)
    (isEmpty : fifo.inIndex = fifo.outIndex)
    (run : Run (SafeStep recsize) fifo labels final) :
    ∃ queue,
    Run (JointStep recsize) (fifo, []) labels (final, queue) ∧ Holds recsize order final queue := by
  induction run with
  | start => exact ⟨[], .start, holds_nil sized isEmpty⟩
  | after run taken inductionHypothesis =>
    obtain ⟨queue, joint, holds⟩ := inductionHypothesis
    obtain ⟨queue', step, holdsNext⟩ := holds.step isRecsize taken
    exact ⟨queue', joint.after step, holdsNext⟩

/-- A queue of eight bytes with indices about to wrap. -/
def nearWrap : Kfifo :=
  { inIndex := BitVec.ofNat 32 (2 ^ 32 - 2)
    outIndex := BitVec.ofNat 32 (2 ^ 32 - 2)
    mask := 7
    esize := 1
    data := replicate 8 0 }

theorem records_of_run_nearWrap :
    Sized nearWrap 3 ∧ ∃ queue, Run (JointStep 2) (nearWrap, [])
    [(.put [5, 6, 7], ⟨3, []⟩), (.get 2, ⟨2, [5, 6]⟩)]
    ((kfifoOutR (kfifoInR nearWrap [5, 6, 7] 2).1 2 2).1, queue) ∧
    Holds 2 3 (kfifoOutR (kfifoInR nearWrap [5, 6, 7] 2).1 2 2).1 queue := by
  have sized : Sized nearWrap 3 := ⟨by decide, by decide, by decide, by decide, by decide⟩
  have first : SafeStep 2 nearWrap (.put [5, 6, 7], ⟨3, []⟩) (kfifoInR nearWrap [5, 6, 7] 2).1 :=
    ⟨.put nearWrap [5, 6, 7] (by decide) (by decide), .inl (by decide)⟩
  have second : SafeStep 2 (kfifoInR nearWrap [5, 6, 7] 2).1 (.get 2, ⟨2, [5, 6]⟩)
      (kfifoOutR (kfifoInR nearWrap [5, 6, 7] 2).1 2 2).1 :=
    ⟨.get (kfifoInR nearWrap [5, 6, 7] 2).1 2, trivial⟩
  exact ⟨sized, records_of_run (.inr rfl) sized rfl ((Run.start.after first).after second)⟩

def halfKilobyte : Kfifo :=
  { inIndex := 0
    outIndex := 0
    mask := 511
    esize := 1
    data := replicate 512 0 }

/-- A record's length of 256 is stored as zero. -/
theorem not_records_longRecord :
    Sized halfKilobyte 9 ∧
    (kfifoInR halfKilobyte (replicate 256 1) 1).2 = 256 ∧
    (kfifoOutR (kfifoInR halfKilobyte (replicate 256 1) 1).1 512 1).2 = ([], 0) := by
  refine ⟨⟨by decide, length_replicate, by decide, by decide, by decide⟩, ?_, ?_⟩
  · decide +kernel
  · decide +kernel

end EchoKernel.KernelFifo
