import EchoKernel.PrintkLogShape

namespace EchoKernel.Printk

open List Function

/-!
# Runs of `log_store`

A reader that follows `log_next` sees the stored records in order, while every
record fits into the size computed for it.
-/

open ArrayWrites LabelledRun

section
variable {memory : Nat → Byte} {idx size low high marker : Nat}
variable {record : Record} {records : List Record} {log : LogBuf}

/-- What a reader takes from a record. -/
def Seen.content (seen : Seen) : Record := ⟨seen.text, seen.dict⟩

/-- Records that share no byte. -/
def Seen.Apart (first second : Seen) : Prop :=
  first.idx + first.len ≤ second.idx ∨ second.idx + second.len ≤ first.idx

theorem Placed.seenAt
    (placed : Placed memory idx size record) :
    seenAt memory idx = ⟨idx, size, record.text, record.dict⟩ := by
  have positive := placed.positive
  have here : logFromIdx memory idx = idx := by rw [logFromIdx, placed.len, if_neg (by omega)]
  rw [Printk.seenAt, here, placed.len, logText, logDict, placed.textLen,
    placed.dictLen, placed.text, placed.dict]

/-- A walk over records that lie behind each other. -/
theorem Linear.walkFrom
    (more : Nat)
    (linear : Linear memory low records high) :
    ∃ seen,
    Printk.walkFrom memory (records.length + more) low = seen ++ Printk.walkFrom memory more high ∧
    seen.map Seen.content = records ∧ seen.Pairwise Seen.Apart ∧ ∀ each ∈ seen, low ≤ each.idx ∧
    each.idx + each.len ≤ high := by
  induction records generalizing low with
  | nil =>
    refine ⟨[], ?_, rfl, .nil, fun _ member => nomatch member⟩
    rw [show low = high from linear, length_nil, Nat.zero_add, nil_append]
  | cons record rest inductionHypothesis =>
    obtain ⟨size, placed, others⟩ := linear
    obtain ⟨seen, walks, same, apart, inside⟩ := inductionHypothesis others
    have order := others.le
    refine ⟨⟨low, size, record.text, record.dict⟩ :: seen, ?_, ?_,
      pairwise_cons.mpr ⟨?_, apart⟩, ?_⟩
    · rw [length_cons, Nat.succ_add, Printk.walkFrom, placed.seenAt,
        placed.logNext, walks, cons_append]
    · rw [map_cons, same]
      rfl
    · exact fun each member => Or.inl (inside each member).1
    intro each member
    rcases mem_cons.mp member with rfl | later
    · exact ⟨le_rfl, order⟩
    · have bounds := inside each later
      exact ⟨by omega, bounds.2⟩

theorem logNext_of_marker
    (marks : msgLen memory marker = 0) :
    logNext memory marker = logNext memory 0 := by
  rw [logNext, if_pos marks, logNext]
  split
  · rfl
  · rw [Nat.zero_add]

/-- A walk from the marker is one from the start. -/
theorem walkFrom_of_marker
    (marks : msgLen memory marker = 0)
    (count : Nat) :
    walkFrom memory count marker = walkFrom memory count 0 := by
  cases count with
  | zero => rfl
  | succ count =>
    have same : logFromIdx memory marker = logFromIdx memory 0 := by
      rw [logFromIdx, if_pos marks, logFromIdx]
      split <;> rfl
    rw [walkFrom, walkFrom, logNext_of_marker marks, seenAt, same, seenAt]

theorem Linear.iterate_logNext
    (linear : Linear memory low records high) :
    (logNext memory)^[records.length] low = high := by
  induction records generalizing low with
  | nil => exact linear
  | cons record rest inductionHypothesis =>
    obtain ⟨size, placed, others⟩ := linear
    rw [length_cons, iterate_succ_apply, placed.logNext]
    exact inductionHypothesis others

/-- Following `log_next` leads to the next index. -/
theorem Shape.iterate_logNext
    (shape : Shape log records) :
    (logNext log.logBuf)^[records.length] log.logFirstIdx = log.logNextIdx := by
  cases shape with
  | straight linear _ => exact linear.iterate_logNext
  | @wrapped old recent marker upper marks _ lower nonempty _ =>
    rw [length_append, Nat.add_comm, iterate_add_apply,
      upper.iterate_logNext, ← lower.iterate_logNext]
    cases recent with
    | nil => exact absurd rfl nonempty
    | cons record rest =>
      rw [length_cons, iterate_succ_apply, iterate_succ_apply, logNext_of_marker marks]

theorem Shape.walkFrom
    (shape : Shape log records) :
    ∃ seen,
    Printk.walkFrom log.logBuf records.length log.logFirstIdx = seen ∧ seen.map Seen.content =
    records ∧ seen.Pairwise Seen.Apart ∧ ∀ each ∈ seen, each.idx + each.len ≤ log.logBufLen := by
  cases shape with
  | straight linear space =>
    obtain ⟨seen, walks, same, apart, inside⟩ := linear.walkFrom 0
    rw [Printk.walkFrom, append_nil] at walks
    refine ⟨seen, walks, same, apart, fun each member => ?_⟩
    have bounds := inside each member
    omega
  | @wrapped old recent marker upper marks space lower _ gap =>
    obtain ⟨seen, walks, same, apart, inside⟩ := upper.walkFrom recent.length
    obtain ⟨later, continues, sameLater, apartLater, insideLater⟩ := lower.walkFrom 0
    have order := upper.le
    rw [Nat.add_zero, Printk.walkFrom, append_nil] at continues
    rw [walkFrom_of_marker marks, continues] at walks
    refine ⟨seen ++ later, ?_, ?_, pairwise_append.mpr ⟨apart, apartLater, ?_⟩, ?_⟩
    · rw [length_append, walks]
    · rw [map_append, same, sameLater]
    · intro first isFirst second isSecond
      have boundsFirst := inside first isFirst
      have boundsSecond := insideLater second isSecond
      exact Or.inr (by omega)
    intro each member
    rcases mem_append.mp member with isOld | isRecent
    · have bounds := inside each isOld
      omega
    · have bounds := insideLater each isRecent
      omega

end

section
variable {log : LogBuf} {call : StoreCall} {records : List Record}

/-- The size for the whole message can be stored, or the cut text takes the prefix in. -/
def StoreFits (log : LogBuf) (call : StoreCall) : Prop :=
  let size := msgUsedSize (call.text.length + call.tbuf.length) call.dict.length
  let cutLen := min call.text.length (log.logBufLen / maxLogTakePart)
  if size + headerSize ≤ room log then size < 2 ^ 16
  else
    call.tbuf = [] ∨ cutLen = logLineMax ∨
      room log < msgUsedSize (cutLen + truncMsg.length) 0 + headerSize

instance : Decidable (StoreFits log call) := by
  unfold StoreFits
  infer_instance

theorem StoreFits.isU16
    (fits : StoreFits log call)
    (space : (plainLayout call).size + headerSize ≤ room log) :
    (plainLayout call).size < 2 ^ 16 :=
  (if_pos space).mp fits

theorem StoreFits.cut
    (fits : StoreFits log call)
    (noSpace : ¬ (plainLayout call).size + headerSize ≤ room log) :
    call.tbuf = [] ∨
    min call.text.length (log.logBufLen / maxLogTakePart) = logLineMax ∨
    room log < (truncateMsg log call).size + headerSize :=
  (if_neg noSpace).mp fits

theorem length_lineText_le
    (layout : Layout) :
    (lineText call layout).length ≤ call.text.length := by
  rw [lineText]
  split <;> exact length_take_le' _ _

/--
The prefix and the line are not longer than the cut text if that has the
length of a line or there is no prefix.
-/
theorem length_lineText_add_le
    {layout : Layout}
    (stampFits : call.tbuf = [] ∨ layout.textLen = logLineMax)
    (short : layout.textLen ≤ logLineMax) :
    call.tbuf.length + (lineText call layout).length ≤ layout.textLen := by
  have tbufFits := call.tbufFits
  rw [lineText]
  split
  · rename_i tooLong
    have line := length_take_le (logLineMax - call.tbuf.length) call.text
    rcases stampFits with none | full
    · rw [none, length_nil] at tooLong
      omega
    · rw [logLineMax] at full line ⊢
      omega
  · have line := length_take_le layout.textLen call.text
    rcases stampFits with none | full
    · rw [none, length_nil, Nat.zero_add]
      exact line
    · omega

/-- The whole message fits into its size. -/
theorem fitting_plainLayout
    (isU16 : (plainLayout call).size < 2 ^ 16) :
    Fitting call (plainLayout call) := by
  refine ⟨?_, isU16, le_rfl⟩
  have line := @length_lineText_le call (plainLayout call)
  have size : (plainLayout call).size = headerSize + (call.text.length + call.tbuf.length) +
    (plainLayout call).dictLen + (plainLayout call).padLen := rfl
  have noTrunc : (plainLayout call).trunc.length = 0 := rfl
  rw [length_recordText]
  omega

/-- A cut message fits if the prefix does. -/
theorem fitting_truncateMsg
    (stampFits : call.tbuf = [] ∨
      min call.text.length (log.logBufLen / maxLogTakePart) = logLineMax) :
    Fitting call (truncateMsg log call) := by
  have textFits := call.textFits
  have short : (truncateMsg log call).textLen ≤ logLineMax := (Nat.min_le_left _ _).trans textFits
  have line := length_lineText_add_le stampFits short
  have size : (truncateMsg log call).size = headerSize +
    ((truncateMsg log call).textLen + truncMsg.length) + 0 + (truncateMsg log call).padLen := rfl
  have padding : (truncateMsg log call).padLen < logAlign := Nat.mod_lt _ (by decide)
  have noDict : (truncateMsg log call).dictLen = 0 := rfl
  have trunc : (truncateMsg log call).trunc = truncMsg := rfl
  refine ⟨?_, ?_, ?_⟩
  · rw [length_recordText, trunc]
    omega
  · rw [size]
    simp only [logLineMax, headerSize, logAlign, truncMsg,
      length_cons, length_nil] at short padding ⊢
    omega
  · exact Nat.zero_le _

/-- The whole message is stored where there is room. -/
theorem reserve_of_space
    (space : (logMakeFreeSpace log (plainLayout call).size).2 = true) :
    reserve log call =
    ((logMakeFreeSpace log (plainLayout call).size).1, some (plainLayout call)) := by
  rw [reserve]
  generalize logMakeFreeSpace log (plainLayout call).size = made at space ⊢
  obtain ⟨after, done⟩ := made
  cases space
  rfl

/-- Otherwise the cut message is stored or dropped. -/
theorem reserve_of_no_space (noSpace : (logMakeFreeSpace log (plainLayout call).size).2 = false) :
    let after := (logMakeFreeSpace log (plainLayout call).size).1
    let cut := truncateMsg after call
    reserve log call = ((logMakeFreeSpace after cut.size).1,
        if (logMakeFreeSpace after cut.size).2 then some cut else none) := by
  rw [reserve]
  generalize logMakeFreeSpace log (plainLayout call).size = made at noSpace ⊢
  obtain ⟨after, done⟩ := made
  cases noSpace
  dsimp only
  generalize logMakeFreeSpace after (truncateMsg after call).size = again
  obtain ⟨last, done⟩ := again
  cases done <;> rfl

/-- What `log_store` stores, and where there is space. -/
theorem exists_reserve
    (shaped : Shaped log records)
    (fits : StoreFits log call) :
    ∃ left,
    Dropped log (reserve log call).1 records left ∧ ∀ layout, (reserve log call).2 = some layout →
    Fitting call layout ∧
    logbufHasSpace (reserve log call).1 layout.size (decide (left = [])) = true ∧
    (layout = plainLayout call ∨ layout = truncateMsg log call) := by
  obtain ⟨left, dropped, result, hasSpace⟩ := exists_logMakeFreeSpace (plainLayout call).size shaped
  by_cases space : (plainLayout call).size + headerSize ≤ room log
  · have isU16 := fits.isU16 space
    have made := hasSpace.mpr space
    rw [reserve_of_space made]
    refine ⟨left, dropped, fun layout isLayout => ?_⟩
    cases isLayout
    exact ⟨fitting_plainLayout isU16, result.symm.trans made, Or.inl rfl⟩
  have noSpace : (logMakeFreeSpace log (plainLayout call).size).2 = false :=
    Bool.eq_false_iff.mpr fun made => space (hasSpace.mp made)
  rw [reserve_of_no_space noSpace]
  generalize (logMakeFreeSpace log (plainLayout call).size).1 = after at dropped
  have sameCut : truncateMsg after call = truncateMsg log call := by
    rw [truncateMsg, dropped.length, truncateMsg]
  obtain ⟨fewer, droppedMore, resultMore, hasSpaceMore⟩ :=
    exists_logMakeFreeSpace (truncateMsg after call).size dropped.shaped
  refine ⟨fewer, dropped.trans droppedMore, fun layout isLayout => ?_⟩
  split at isLayout
  · rename_i made
    cases isLayout
    have roomy := hasSpaceMore.mp made
    rw [dropped.room, sameCut] at roomy
    rw [sameCut] at resultMore made ⊢
    refine ⟨fitting_truncateMsg ?_, resultMore.symm.trans made, Or.inr rfl⟩
    rcases fits.cut space with none | full | tight
    · exact Or.inl none
    · exact Or.inr full
    · exact absurd roomy (Nat.not_le_of_lt tight)
  · cases isLayout

end

/-- The log buffer, and all records ever stored in it. -/
structure State where
  log : LogBuf
  stored : List Record

/-- The log buffer before the first message. -/
def initial (logBufLen : Nat) (logBuf : Nat → Byte) : State :=
  ⟨⟨logBufLen, logBuf, 0, 0, 0, 0, 0, 0⟩, []⟩

/--
What is to be kept of a message: its line, cut to the length of a line, or, when
the message is too long for the buffer, a part of its text and the mark.
-/
def keptMessage (logBufLen : Nat) (call : StoreCall) (whole : Bool) : Record :=
  if whole then ⟨(call.tbuf ++ call.text).take logLineMax, call.dict⟩
  else ⟨(call.tbuf ++ call.text.take (logBufLen / maxLogTakePart)).take logLineMax ++ truncMsg, []⟩

/-- A call of `log_store`; the message is recorded as the caller gave it. -/
def storeStep (state : State) (call : StoreCall) : State :=
  ⟨logStore state.log call, match (reserve state.log call).2 with
    | some layout =>
      state.stored ++ [keptMessage state.log.logBufLen call (layout = plainLayout call)]
    | none => state.stored⟩

/-- A call of `log_store` whose message fits. -/
def FittingStep (state : State) (call : StoreCall) (next : State) : Prop :=
  StoreFits state.log call ∧ next = storeStep state call

/-- A call writes only its record and a marker. -/
def WritesInside (log : LogBuf) (call : StoreCall) : Prop :=
  ∀ layout, (reserve log call).2 = some layout →
    ∀ write ∈ storeWrites (reserve log call).1 call layout, ∀ cell, write.Covers cell →
        let idx := recordIdx (reserve log call).1 layout
        cell < log.logBufLen ∧
        (idx ≤ cell ∧ cell < idx + layout.size ∨ wraps (reserve log call).1 layout = true ∧
            log.logNextIdx ≤ cell ∧ cell < log.logNextIdx + headerSize)

/-- A reader sees the stored records not dropped, in order. -/
structure Readable (state : State) : Prop where
  order : state.log.logFirstSeq ≤ state.log.logNextSeq
  total : state.stored.length = state.log.logNextSeq
  records : (walk state.log).map Seen.content = state.stored.drop state.log.logFirstSeq
  ends : (logNext state.log.logBuf)^[state.log.logNextSeq - state.log.logFirstSeq]
      state.log.logFirstIdx = state.log.logNextIdx
  apart : (walk state.log).Pairwise Seen.Apart
  inside : ∀ seen ∈ walk state.log, seen.idx + seen.len ≤ state.log.logBufLen

/-- The buffer's records are the last ones stored. -/
structure Invariant (state : State) : Prop where
  shaped : ∃ records, Shaped state.log records ∧ records <:+ state.stored
  total : state.stored.length = state.log.logNextSeq

variable {state : State} {call : StoreCall}

/-- The line that is written is the caller's, cut to the length of a line. -/
theorem tbuf_append_lineText
    (layout : Layout) :
    call.tbuf ++ lineText call layout =
    (call.tbuf ++ call.text.take layout.textLen).take logLineMax := by
  have short : call.tbuf.length ≤ logLineMax := call.tbufFits.le.trans (by decide)
  rw [take_append, take_of_length_le short, take_take, lineText]
  split
  case isTrue isLong => rw [Nat.min_eq_left (by omega)]
  case isFalse isShort => rw [Nat.min_eq_right (by omega)]

/-- A whole message. -/
theorem record_plainLayout :
    (⟨recordText call (plainLayout call), recordDict call (plainLayout call)⟩ : Record) =
      ⟨(call.tbuf ++ call.text).take logLineMax, call.dict⟩ := by
  rw [recordText, tbuf_append_lineText]
  simp [plainLayout, recordDict]

/-- A cut message. -/
theorem record_truncateMsg
    (log : LogBuf) :
    (⟨recordText call (truncateMsg log call), recordDict call (truncateMsg log call)⟩ : Record) =
      ⟨(call.tbuf ++ call.text.take (log.logBufLen / maxLogTakePart)).take logLineMax ++ truncMsg,
        []⟩ := by
  have cut : call.text.take (min call.text.length (log.logBufLen / maxLogTakePart)) =
      call.text.take (log.logBufLen / maxLogTakePart) := by
    rw [← take_take, take_of_length_le (length_take_le' _ _)]
  rw [recordText, tbuf_append_lineText]
  simp [truncateMsg, recordDict, cut]

/-- The record that is written is the message to be kept. -/
theorem record_eq_keptMessage
    {log : LogBuf}
    {layout : Layout}
    (isLayout : layout = plainLayout call ∨ layout = truncateMsg log call) :
    (⟨recordText call layout, recordDict call layout⟩ : Record) =
      keptMessage log.logBufLen call (layout = plainLayout call) := by
  rw [keptMessage]
  rcases isLayout with rfl | rfl
  · rw [if_pos (decide_eq_true rfl), record_plainLayout]
  · have notPlain : truncateMsg log call ≠ plainLayout call := by
      intro same
      have marked : truncMsg = [] := congrArg Layout.trunc same
      exact absurd marked (by decide)
    rw [if_neg (by rw [decide_eq_true_eq]; exact notPlain), record_truncateMsg]

theorem invariant_initial
    (logBufLen : Nat)
    (logBuf : Nat → Byte) :
    Invariant (initial logBufLen logBuf) :=
  ⟨⟨[], ⟨.straight rfl (Or.inl rfl), rfl⟩, suffix_refl _⟩, rfl⟩

theorem Invariant.storeStep
    (invariant : Invariant state)
    (fits : StoreFits state.log call) :
    Invariant (storeStep state call) := by
  obtain ⟨⟨records, shaped, isSuffix⟩, total⟩ := invariant
  obtain ⟨left, dropped, stores⟩ := exists_reserve shaped fits
  have order := dropped.isSuffix.trans isSuffix
  rw [Printk.storeStep, logStore]
  generalize reserve state.log call = reserved at dropped stores ⊢
  obtain ⟨log, stored⟩ := reserved
  cases stored with
  | none => exact ⟨⟨left, dropped.shaped, order⟩, total.trans dropped.nextSeq.symm⟩
  | some layout =>
    obtain ⟨fitting, space, isLayout⟩ := stores layout rfl
    obtain ⟨lost, isWhole⟩ := order
    have sameSeq : log.logNextSeq = state.log.logNextSeq := dropped.nextSeq
    refine ⟨⟨_, dropped.shaped.insertRecord fitting space, lost, ?_⟩, ?_⟩
    · rw [← isWhole, record_eq_keptMessage isLayout]
      exact (append_assoc _ _ _).symm
    · change (state.stored ++ [_]).length = log.logNextSeq + 1
      rw [length_append, total, sameSeq, length_singleton]

/-- A log buffer with the invariant can be read. -/
theorem Invariant.readable (invariant : Invariant state) : Readable state := by
  obtain ⟨⟨records, shaped, isSuffix⟩, total⟩ := invariant
  have count := shaped.count
  have many : state.log.logNextSeq - state.log.logFirstSeq = records.length := by omega
  have isRest : records = state.stored.drop state.log.logFirstSeq := by
    have drops := suffix_iff_eq_drop.mp isSuffix
    rw [total, count, Nat.add_sub_cancel] at drops
    exact drops
  obtain ⟨seen, walks, same, apart, inside⟩ := shaped.shape.walkFrom
  have isSeen : walk state.log = seen := by rw [walk, many, walks]
  refine ⟨by omega, total, ?_, ?_, ?_, ?_⟩
  · rw [isSeen, same, ← isRest]
  · rw [many]
    exact shaped.shape.iterate_logNext
  · rw [isSeen]
    exact apart
  · rw [isSeen]
    exact inside

theorem Shape.next_le
    {log : LogBuf}
    {records : List Record}
    (shape : Shape log records) :
    log.logNextIdx = 0 ∨ log.logNextIdx + headerSize ≤ log.logBufLen := by
  cases shape with
  | straight _ space => exact space
  | wrapped upper _ space _ _ gap =>
    have order := upper.le
    exact Or.inr (by omega)

/-- A fitting message is written inside the buffer. -/
theorem Invariant.writesInside
    (invariant : Invariant state)
    (fits : StoreFits state.log call) :
    WritesInside state.log call := by
  obtain ⟨⟨records, shaped, isSuffix⟩, total⟩ := invariant
  obtain ⟨left, dropped, stores⟩ := exists_reserve shaped fits
  intro layout isLayout write member cell covers
  obtain ⟨fitting, space, _⟩ := stores layout isLayout
  have roomy := dropped.shaped.shape.le_room of_decide_eq_true space
  have next := shaped.shape.next_le
  rw [room, dropped.length, dropped.nextIdx] at roomy
  rcases mem_append.mp member with inMarker | inRecord
  · rw [markerWrites] at inMarker
    split at inMarker
    · rename_i wrap
      cases mem_singleton.mp inMarker
      rw [Write.Covers, length_replicate, dropped.nextIdx] at covers
      exact ⟨by omega, Or.inr ⟨wrap, covers⟩⟩
    · cases inMarker
  · have within := fitting.recordWrites_inside inRecord covers
    by_cases wrap : wraps (reserve state.log call).1 layout = true
    · have atStart : recordIdx (reserve state.log call).1 layout = 0 := if_pos wrap
      omega
    obtain ⟨atNext, fitsEnd⟩ := recordIdx_le wrap
    rw [dropped.length] at fitsEnd
    omega

/--
After every run of fitting messages the records can be read in order, and the
next one is written inside its record.
-/
theorem readable_of_run
    {logBufLen : Nat}
    {logBuf : Nat → Byte}
    {calls : List StoreCall}
    {final : State}
    (run : Run FittingStep (initial logBufLen logBuf) calls final) :
    Readable final ∧ ∀ call, StoreFits final.log call → WritesInside final.log call := by
  have invariant : Invariant final := by
    refine run.always (invariant_initial logBufLen logBuf) ?_
    rintro state call _ before ⟨fits, rfl⟩
    exact before.storeStep fits
  exact ⟨invariant.readable, fun call fits => invariant.writesInside fits⟩

def shortCall : StoreCall where
  facility := 0
  level := 6
  flags := 2
  tsNsec := 5
  localClock := 0
  tbuf := []
  dict := []
  text := [0x68, 0x69]
  textFits := by decide
  dictIsU16 := by decide
  tbufFits := by decide

/-- In 64 bytes the third message drops the first two. -/
theorem readable_of_run_three_messages :
    let first := storeStep (initial 64 fun _ => 0) shortCall
    let second := storeStep first shortCall
    let third := storeStep second shortCall
    third.log.logFirstSeq = 2 ∧ third.log.logNextIdx = 20 ∧ Readable third :=
  ⟨by decide +kernel, by decide +kernel,
    (readable_of_run (.after (.after (.after .start ⟨by decide +kernel, rfl⟩)
        ⟨by decide +kernel, rfl⟩) ⟨by decide +kernel, rfl⟩)).1⟩

/-- A short text with a prefix and a dictionary. -/
def longDict (length : Nat) (isU16 : length < 2 ^ 16) : StoreCall where
  facility := 0
  level := 6
  flags := 2
  tsNsec := 5
  localClock := 0
  tbuf := replicate 20 0x20
  dict := replicate length 0x41
  text := replicate 10 0x42
  textFits := by decide
  dictIsU16 := by rw [length_replicate]; exact isU16
  tbufFits := by decide

/--
In 4096 bytes a dictionary of 5000 bytes is cut to a record of 40 bytes, and
its text ends at byte 57. In 512 KiB one of 65535 bytes makes a record of
65584 bytes with a length of 48.
-/
theorem record_longer_than_size :
    let small := (initial 4096 fun _ => 0).log
    let large := (initial 524288 fun _ => 0).log
    let layout : Layout := ⟨40, 10, 0, 3, truncMsg⟩
    ((reserve small (longDict 5000 (by decide))).2 = some layout ∧ wraps small layout = false ∧
      ∃ write ∈ storeWrites small (longDict 5000 (by decide)) layout, write.Covers 56) ∧
    (plainLayout (longDict 65535 (by decide))).size = 65584 ∧
      (logStore large (longDict 65535 (by decide))).logNextIdx = 48 := by
  refine ⟨⟨by decide +kernel, by decide, (46, truncMsg), by decide +kernel,
    by decide, by decide⟩, ?_⟩
  decide +kernel

end EchoKernel.Printk
