import EchoKernel.PrintkLogRecords

namespace EchoKernel.Printk

open List

/-!
# The shape of the log buffer

The records lie between the first and the next index, or run up to a marker
and go on at the start of the buffer. Dropping old records and storing a
fitting one keep this shape.
-/

open ArrayWrites

section

/-- Where the records of the log buffer are, oldest first. -/
inductive Shape (log : LogBuf) : List Record → Prop
  | straight {records : List Record} (linear :
        Linear log.logBuf log.logFirstIdx records log.logNextIdx) (space :
        log.logNextIdx = 0 ∨ log.logNextIdx + headerSize ≤ log.logBufLen) : Shape log records
  | wrapped {old recent : List Record} {marker : Nat}
      (upper : Linear log.logBuf log.logFirstIdx old marker) (marks : msgLen log.logBuf marker = 0)
      (space : marker + headerSize ≤ log.logBufLen)
      (lower : Linear log.logBuf 0 recent log.logNextIdx) (nonempty : recent ≠ [])
      (gap : log.logNextIdx + headerSize ≤ log.logFirstIdx) : Shape log (old ++ recent)

/-- The buffer's records, with sequence numbers. -/
structure Shaped (log : LogBuf) (records : List Record) : Prop where
  shape : Shape log records
  count : log.logNextSeq = log.logFirstSeq + records.length

variable {log : LogBuf} {record : Record} {records : List Record} {msgSize : Nat}

/-- The largest space that an empty buffer has. -/
def room (log : LogBuf) : Nat := max (log.logBufLen - log.logNextIdx) log.logNextIdx

/-- The log buffer without its oldest record. -/
def dropFirst (log : LogBuf) : LogBuf :=
  { log with
    logFirstIdx := logNext log.logBuf log.logFirstIdx
    logFirstSeq := log.logFirstSeq + 1 }

theorem Placed.logNext
    {memory : Nat → Byte}
    {idx size : Nat}
    (placed : Placed memory idx size record) :
    logNext memory idx = idx + size := by
  have positive := placed.positive
  rw [Printk.logNext, placed.len, if_neg (by omega)]

/-- The shape stays when the oldest record is dropped. -/
theorem Shape.dropFirst
    (shape : Shape log (record :: records)) :
    Shape (dropFirst log) records := by
  generalize whole : record :: records = all at shape
  cases shape with
  | straight linear space =>
    subst whole
    obtain ⟨size, placed, others⟩ := linear
    refine .straight ?_ space
    rw [← placed.logNext] at others
    exact others
  | @wrapped old recent marker upper marks space lower nonempty gap =>
    cases old with
    | nil =>
      -- The first index is at the marker.
      subst whole
      obtain ⟨size, placed, others⟩ := lower
      have atMarker : log.logFirstIdx = marker := upper
      have jumps : logNext log.logBuf log.logFirstIdx = 0 + size := by
        rw [logNext, atMarker, marks, if_pos rfl, placed.len, Nat.zero_add]
      refine .straight ?_ (Or.inr ?_)
      · rw [← jumps] at others
        exact others
      · change log.logNextIdx + headerSize ≤ log.logBufLen
        omega
    | cons first old =>
      obtain ⟨rfl, rfl⟩ := whole
      obtain ⟨size, placed, others⟩ := upper
      have moves := placed.logNext
      rw [← moves] at others
      refine .wrapped others marks space lower nonempty ?_
      change log.logNextIdx + headerSize ≤ logNext log.logBuf log.logFirstIdx
      omega

theorem Shaped.dropFirst
    (shaped : Shaped log (record :: records)) :
    Shaped (dropFirst log) records := by
  refine ⟨shaped.shape.dropFirst, ?_⟩
  have count := shaped.count
  rw [length_cons] at count
  change log.logNextSeq = log.logFirstSeq + 1 + records.length
  omega

/-- Space is found only where the empty buffer has it. -/
theorem Shape.le_room
    {empty : Bool}
    (shape : Shape log records)
    (isEmpty : empty = true → records = [])
    (space : logbufHasSpace log msgSize empty = true) :
    msgSize + headerSize ≤ room log := by
  rw [logbufHasSpace, decide_eq_true_eq] at space
  rw [room]
  cases shape with
  | straight linear _ =>
    have order := linear.le
    split at space <;> omega
  | wrapped upper _ _ lower nonempty gap =>
    have order := upper.le
    have hasRecords : empty ≠ true := fun isTrue =>
      nonempty (append_eq_nil_iff.mp (isEmpty isTrue)).2
    have behind : ¬ (log.logFirstIdx < log.logNextIdx ∨ empty = true) := by
      rintro (ahead | isTrue)
      · omega
      · exact hasRecords isTrue
    rw [if_neg behind] at space
    omega

/-- What dropping old records does. -/
structure Dropped (before after : LogBuf) (records left : List Record) : Prop where
  shaped : Shaped after left
  isSuffix : left <:+ records
  buffer : after.logBuf = before.logBuf
  length : after.logBufLen = before.logBufLen
  nextIdx : after.logNextIdx = before.logNextIdx
  nextSeq : after.logNextSeq = before.logNextSeq

variable {before middle after : LogBuf} {left fewer : List Record}

theorem Dropped.trans
    (first : Dropped before middle records left)
    (second : Dropped middle after left fewer) :
    Dropped before after records fewer :=
  ⟨second.shaped, second.isSuffix.trans first.isSuffix,
    second.buffer.trans first.buffer, second.length.trans first.length,
    second.nextIdx.trans first.nextIdx, second.nextSeq.trans first.nextSeq⟩

theorem Dropped.room (dropped : Dropped before after records left) : room after = room before := by
  rw [Printk.room, dropped.length, dropped.nextIdx, Printk.room]

/-- The loop ends with space, or with an empty buffer. -/
theorem exists_dropOld
    (msgSize : Nat)
    (shaped : Shaped log records) :
    ∃ left,
    Dropped log (dropOld msgSize records.length log) records left ∧
    (left = [] ∨ logbufHasSpace (dropOld msgSize records.length log) msgSize false = true) := by
  induction records generalizing log with
  | nil => exact ⟨[], ⟨shaped, suffix_refl _, rfl, rfl, rfl, rfl⟩, Or.inl rfl⟩
  | cons record rest inductionHypothesis =>
    rw [length_cons, dropOld]
    split
    · rename_i space
      exact ⟨record :: rest, ⟨shaped, suffix_refl _, rfl, rfl, rfl, rfl⟩, Or.inr space⟩
    obtain ⟨left, dropped, ends⟩ := inductionHypothesis shaped.dropFirst
    exact ⟨left, ⟨dropped.shaped, dropped.isSuffix.trans (suffix_cons _ _),
      dropped.buffer, dropped.length, dropped.nextIdx, dropped.nextSeq⟩, ends⟩

/-- The clearing reader's position does not matter. -/
theorem Dropped.clear
    (dropped : Dropped before after records left)
    (clearSeq clearIdx : Nat) :
    Dropped before { after with clearSeq := clearSeq, clearIdx := clearIdx } records left := by
  refine ⟨⟨?_, dropped.shaped.count⟩, dropped.isSuffix, dropped.buffer,
    dropped.length, dropped.nextIdx, dropped.nextSeq⟩
  cases dropped.shaped.shape with
  | straight linear space => exact .straight linear space
  | wrapped upper marks space lower nonempty gap =>
    exact .wrapped upper marks space lower nonempty gap

theorem Shaped.isEmpty_iff
    (shaped : Shaped log records) :
    log.logFirstSeq = log.logNextSeq ↔ records = [] := by
  rw [shaped.count, ← length_eq_zero_iff]
  omega

/-- The empty buffer has all of its space. -/
theorem hasSpace_of_empty
    (shaped : Shaped log [])
    (fits : msgSize + headerSize ≤ room log) :
    logbufHasSpace log msgSize true = true := by
  rw [logbufHasSpace, decide_eq_true_eq, if_pos (Or.inr rfl)]
  generalize none : ([] : List Record) = records at shaped
  cases shaped.shape with
  | straight linear space =>
    subst none
    have same : log.logFirstIdx = log.logNextIdx := linear
    rw [same]
    exact fits
  | wrapped _ _ _ _ nonempty _ =>
    exact absurd (append_eq_nil_iff.mp none.symm).2 nonempty

theorem exists_logMakeFreeSpace
    (msgSize : Nat)
    (shaped : Shaped log records) :
    ∃ left,
    Dropped log (logMakeFreeSpace log msgSize).1 records left ∧ (logMakeFreeSpace log msgSize).2 =
    logbufHasSpace (logMakeFreeSpace log msgSize).1 msgSize (decide (left = [])) ∧
    ((logMakeFreeSpace log msgSize).2 = true ↔ msgSize + headerSize ≤ room log) := by
  have many : log.logNextSeq - log.logFirstSeq = records.length := by
    rw [shaped.count, Nat.add_sub_cancel_left]
  obtain ⟨left, dropped, ends⟩ := exists_dropOld msgSize shaped
  have cleared : Dropped log (logMakeFreeSpace log msgSize).1 records left := by
    rw [logMakeFreeSpace, many]
    split
    · exact dropped.clear _ _
    · exact dropped
  have result : (logMakeFreeSpace log msgSize).2 =
      logbufHasSpace (logMakeFreeSpace log msgSize).1 msgSize (decide (left = [])) := by
    rw [decide_eq_decide.mpr cleared.shaped.isEmpty_iff.symm]
    rfl
  refine ⟨left, cleared, result, ?_⟩
  rw [result, ← cleared.room]
  constructor
  · exact cleared.shaped.shape.le_room of_decide_eq_true
  intro fits
  by_cases none : left = []
  · subst none
    exact hasSpace_of_empty cleared.shaped fits
  have space := ends.resolve_left none
  rw [decide_eq_false none, logMakeFreeSpace, many]
  split
  · exact space
  · exact space

end

variable {log : LogBuf} {records : List Record} {call : StoreCall} {layout : Layout}

theorem recordIdx_le
    (fits : ¬ wraps log layout = true) :
    recordIdx log layout = log.logNextIdx ∧
    log.logNextIdx + layout.size + headerSize ≤ log.logBufLen := by
  refine ⟨if_neg fits, ?_⟩
  rw [wraps, decide_eq_true_eq] at fits
  omega

section
variable (fitting : Fitting call layout)
include fitting

/-- Cells outside record and marker are not written. -/
theorem Fitting.storeAll_storeWrites
    {cell : Nat}
    (notRecord : ¬ (recordIdx log layout ≤ cell ∧ cell < recordIdx log layout + layout.size))
    (notMarker : wraps log layout = true →
      ¬ (log.logNextIdx ≤ cell ∧ cell < log.logNextIdx + headerSize)) :
    storeAll log.logBuf (storeWrites log call layout) cell = log.logBuf cell := by
  refine storeAll_of_not_covers fun write member covers => ?_
  rcases mem_append.mp member with inMarker | inRecord
  · rw [markerWrites] at inMarker
    split at inMarker
    · rename_i wrap
      cases mem_singleton.mp inMarker
      exact notMarker wrap covers
    · cases inMarker
  · exact notRecord (fitting.recordWrites_inside inRecord covers)

/-- The header of the marker after it has been stored. -/
theorem Fitting.msgLen_marker
    (wrap : wraps log layout = true)
    (above : layout.size ≤ log.logNextIdx) :
    msgLen (storeAll log.logBuf (storeWrites log call layout)) log.logNextIdx = 0 := by
  have atStart : recordIdx log layout = 0 := if_pos wrap
  have zero (cell : Nat) (reaches : log.logNextIdx ≤ cell)
      (inside : cell < log.logNextIdx + headerSize) :
      storeAll log.logBuf (storeWrites log call layout) cell = 0 := by
    rw [storeWrites, storeAll_append, markerWrites, if_pos wrap]
    rw [storeAll_of_not_covers fun write member covers => ?_]
    · change store log.logBuf _ cell = 0
      rw [store, if_pos reaches, getD_replicate _ (by omega)]
    · have within := fitting.recordWrites_inside member covers
      omega
  rw [msgLen, @field_congr _ (fun _ => 0)]
  · rfl
  · intro cell reaches inside
    exact zero cell (by omega) (by rw [headerSize]; omega)

theorem Fitting.placed_insertRecord
    (log : LogBuf) :
    Placed (insertRecord log call layout).logBuf (recordIdx log layout)
    layout.size ⟨recordText call layout, recordDict call layout⟩ :=
  fitting.placed

theorem Fitting.logNextIdx_insertRecord
    (log : LogBuf) :
    (insertRecord log call layout).logNextIdx = recordIdx log layout + layout.size :=
  congrArg _ (fitting.placed_insertRecord log).len

/-- A record behind all others. -/
theorem Shape.insert_straight
    (linear : Linear log.logBuf log.logFirstIdx records log.logNextIdx)
    (noWrap : ¬ wraps log layout = true) :
    Shape (insertRecord log call layout)
    (records ++ [⟨recordText call layout, recordDict call layout⟩]) := by
  obtain ⟨atNext, space⟩ := recordIdx_le noWrap
  have placed := fitting.placed_insertRecord log
  have next := fitting.logNextIdx_insertRecord log
  rw [atNext] at placed next
  refine .straight (linear_append (linear.congr ?_) ⟨_, placed, next.symm⟩) (Or.inr ?_)
  · intro cell reaches inside
    refine fitting.storeAll_storeWrites ?_ fun wrap => absurd wrap noWrap
    omega
  · rw [next]
    exact space

/-- A record at the buffer's start, with a marker behind the others. -/
theorem Shape.insert_wrap
    (linear : Linear log.logBuf log.logFirstIdx records log.logNextIdx)
    (space : log.logNextIdx + headerSize ≤ log.logBufLen)
    (wrap : wraps log layout = true)
    (below : layout.size + headerSize ≤ log.logFirstIdx) :
    Shape (insertRecord log call layout)
    (records ++ [⟨recordText call layout, recordDict call layout⟩]) := by
  have order := linear.le
  have atStart : recordIdx log layout = 0 := if_pos wrap
  have placed := fitting.placed_insertRecord log
  have next := fitting.logNextIdx_insertRecord log
  rw [atStart] at placed next
  refine .wrapped (linear.congr ?_)
    (fitting.msgLen_marker wrap (by omega)) space ⟨_, placed, next.symm⟩ (cons_ne_nil _ _) ?_
  · intro cell reaches inside
    refine fitting.storeAll_storeWrites ?_ fun _ => ?_
    · omega
    · omega
  · rw [next]
    change 0 + layout.size + headerSize ≤ log.logFirstIdx
    omega

/-- A record between the newer and the older ones. -/
theorem Shape.insert_between
    {old recent : List Record}
    {marker : Nat}
    (upper : Linear log.logBuf log.logFirstIdx old marker)
    (marks : msgLen log.logBuf marker = 0)
    (space : marker + headerSize ≤ log.logBufLen)
    (lower : Linear log.logBuf 0 recent log.logNextIdx)
    (below : log.logNextIdx + layout.size + headerSize ≤ log.logFirstIdx) :
    Shape (insertRecord log call layout) (old ++ recent ++
    [⟨recordText call layout, recordDict call layout⟩]) := by
  have order := upper.le
  have noWrap : ¬ wraps log layout = true := by
    rw [wraps, decide_eq_true_eq]
    omega
  obtain ⟨atNext, _⟩ := recordIdx_le noWrap
  have placed := fitting.placed_insertRecord log
  have next := fitting.logNextIdx_insertRecord log
  rw [atNext] at placed next
  have kept (cell : Nat) (outside :
      ¬ (log.logNextIdx ≤ cell ∧ cell < log.logNextIdx + layout.size)) :
      (insertRecord log call layout).logBuf cell = log.logBuf cell := by
    refine fitting.storeAll_storeWrites ?_ fun wrap => absurd wrap noWrap
    rw [atNext]
    exact outside
  rw [append_assoc]
  refine .wrapped (upper.congr fun cell _ _ => kept cell (by omega)) ?_ space
    (linear_append (lower.congr fun cell _ _ => kept cell (by omega))
      ⟨_, placed, next.symm⟩) (by simp) ?_
  · rw [← marks]
    exact field_congr fun cell _ _ => kept cell (by omega)
  · rw [next]
    exact below

end

/-- Storing a fitting record keeps the shape. -/
theorem Shaped.insertRecord
    (shaped : Shaped log records)
    (fitting : Fitting call layout)
    (space : logbufHasSpace log layout.size (decide (records = [])) = true) :
    Shaped (insertRecord log call layout)
    (records ++ [⟨recordText call layout, recordDict call layout⟩]) := by
  refine ⟨?_, ?_⟩
  · rw [logbufHasSpace, decide_eq_true_eq] at space
    cases shaped.shape with
    | straight linear atEnd =>
      by_cases wrap : wraps log layout = true
      · have ahead : log.logFirstIdx < log.logNextIdx ∨ records = [] :=
          (em (records = [])).symm.imp_left linear.lt
        have order := linear.le
        have tooLong := wrap
        rw [wraps, decide_eq_true_eq] at tooLong
        rw [if_pos (ahead.imp_right decide_eq_true)] at space
        exact .insert_wrap fitting linear (by omega) wrap (by omega)
      · exact .insert_straight fitting linear wrap
    | @wrapped old recent _ upper marks atEnd lower nonempty gap =>
      have hasRecords : ¬ old ++ recent = [] := fun none =>
        nonempty (append_eq_nil_iff.mp none).2
      have behind : ¬ (log.logFirstIdx < log.logNextIdx ∨ decide (old ++ recent = []) = true) := by
        rintro (ahead | none)
        · omega
        · exact hasRecords (of_decide_eq_true none)
      rw [if_neg behind] at space
      exact .insert_between fitting upper marks atEnd lower (by omega)
  · have count := shaped.count
    change log.logNextSeq + 1 = log.logFirstSeq + _
    rw [length_append, length_singleton]
    omega

end EchoKernel.Printk
