import EchoKernel.AudioRingbufSpec
import EchoKernel.LabelledRun

namespace EchoKernel.DmaRegion

open CircularWindow LabelledRun Ringbuf List

/-!
# Regions of the audio DMA memory

`audio_region_write_from_linear`, `audio_region_read_to_linear` and
`audio_region_drop` of `audio_ipi_dma.c`. Indices move by cache lines, copies
have the caller's count. Pointers are not null.
-/

section

/-- `struct audio_region_t`, with the memory at its offset. -/
structure AudioRegion where
  memory : List (BitVec 8)
  readIdx : ℕ
  writeIdx : ℕ
  size : ℕ
  deriving Repr, DecidableEq

/-- One `memcpy`: its place in the region and in the linear buffer, and its length. -/
structure Copy where
  region : ℕ
  linear : ℕ
  length : ℕ
  deriving Repr, DecidableEq

/-- `DO_BYTE_ALIGN` with `ADSP_CACHE_ALIGN_MASK`. -/
def doByteAlign (count : ℕ) : ℕ := (count + 127) % 2 ^ 32 / 128 * 128

/-- A difference of `uint32_t`. -/
def sub32 (first second : ℕ) : ℕ := (first + 2 ^ 32 - second) % 2 ^ 32

def enodev : Int := 19

def eoverflow : Int := 75

def enomem : Int := 12

variable (region : AudioRegion)

/-- Indices that are not in the region are reduced. -/
def normalise : AudioRegion :=
  { region with
    readIdx := if region.size ≤ region.readIdx then region.readIdx % region.size else region.readIdx
    writeIdx :=
      if region.size ≤ region.writeIdx then region.writeIdx % region.size else region.writeIdx }

/-- `audio_region_data_count` of reduced indices. -/
def audioRegionDataCount : ℕ :=
  if region.readIdx ≤ region.writeIdx then region.writeIdx - region.readIdx
  else region.size - (region.readIdx - region.writeIdx)

/-- `audio_region_free_space`. -/
def audioRegionFreeSpace : ℕ :=
  let count := region.size - audioRegionDataCount region
  if 16 ≤ count then count - 16 else 0

section
variable (count : ℕ)

/-- The copies of `audio_region_write_from_linear`. -/
def writeCopies : List Copy :=
  let w2e := region.size - region.writeIdx
  if region.readIdx ≤ region.writeIdx ∧ w2e < doByteAlign count then
    [⟨region.writeIdx, 0, w2e⟩, ⟨0, w2e, sub32 count w2e⟩]
  else [⟨region.writeIdx, 0, count⟩]

/-- The write index after `audio_region_write_from_linear`. -/
def writeAfter : ℕ :=
  if region.readIdx ≤ region.writeIdx then
    let w2e := region.size - region.writeIdx
    if doByteAlign count ≤ w2e then
      if region.writeIdx + doByteAlign count = region.size then 0
      else region.writeIdx + doByteAlign count
    else doByteAlign count - w2e
  else region.writeIdx + doByteAlign count

/-- `audio_region_write_from_linear`; the count is that of bytes. -/
def audioRegionWriteFromLinear (linear : List (BitVec 8)) : AudioRegion × Int :=
  if region.size = 0 then (region, -enodev)
  else
    let region := normalise region
    if audioRegionFreeSpace region < doByteAlign linear.length then (region, -eoverflow)
    else
      ({ region with
          memory := (writeCopies region linear.length).foldl (fun memory copy =>
            splice memory copy.region (slice linear copy.linear copy.length)) region.memory
          writeIdx := writeAfter region linear.length }, 0)

/-- The copies of `audio_region_read_to_linear`. -/
def readCopies : List Copy :=
  let r2e := region.size - region.readIdx
  if region.writeIdx < region.readIdx ∧ r2e < doByteAlign count then
    [⟨region.readIdx, 0, r2e⟩, ⟨0, r2e, sub32 count r2e⟩]
  else [⟨region.readIdx, 0, count⟩]

/-- The read index after `audio_region_read_to_linear` and `audio_region_drop`. -/
def readAfter : ℕ :=
  if region.readIdx ≤ region.writeIdx then region.readIdx + doByteAlign count
  else
    let r2e := region.size - region.readIdx
    if doByteAlign count ≤ r2e then
      if region.readIdx + doByteAlign count = region.size then 0
      else region.readIdx + doByteAlign count
    else doByteAlign count - r2e

/-- `audio_region_read_to_linear`, with the bytes for the linear buffer. -/
def audioRegionReadToLinear : AudioRegion × Int × List (BitVec 8) :=
  if region.size = 0 then (region, -enodev, [])
  else
    let region := normalise region
    if audioRegionDataCount region < doByteAlign count then (region, -enomem, [])
    else
      ({ region with readIdx := readAfter region count }, 0,
        (readCopies region count).flatMap fun copy => slice region.memory copy.region copy.length)

/-- `audio_region_drop`. -/
def audioRegionDrop : AudioRegion × Int :=
  if region.size = 0 then (region, -enodev)
  else
    let region := normalise region
    if audioRegionDataCount region < doByteAlign count then (region, -enomem)
    else ({ region with readIdx := readAfter region count }, 0)

end

end

section
variable {region : AudioRegion} {count : ℕ} {linear : List (BitVec 8)}

def AudioRegion.ring (region : AudioRegion) : AudioRingbuf :=
  ⟨true, region.memory, region.readIdx, region.writeIdx, region.size⟩

/-- The indices are those of cache lines in the region. -/
structure Lines (region : AudioRegion) : Prop where
  valid : Valid region.ring
  size : region.size % 128 = 0
  read : region.readIdx % 128 = 0
  write : region.writeIdx % 128 = 0

theorem Lines.normalise_eq (lines : Lines region) : normalise region = region := by
  have read : region.readIdx < region.size := lines.valid.readInside
  have write : region.writeIdx < region.size := lines.valid.writeInside
  rw [normalise, if_neg (by omega), if_neg (by omega)]

theorem Lines.size_ne_zero (lines : Lines region) : region.size ≠ 0 := by
  have read : region.readIdx < region.size := lines.valid.readInside
  omega

theorem Lines.dataCount_eq
    (lines : Lines region) :
    audioRegionDataCount region = region.ring.count :=
  lines.valid.count_eq.symm

theorem doByteAlign_bounds
    (small : count + 127 < 2 ^ 32) :
    doByteAlign count % 128 = 0 ∧ count ≤ doByteAlign count ∧ doByteAlign count < count + 128 := by
  rw [doByteAlign]
  omega

theorem sub32_eq
    {first second : ℕ}
    (less : second ≤ first)
    (small : first < 2 ^ 32) :
    sub32 first second = first - second := by
  rw [sub32]
  omega

/-- Room for whole lines leaves the two indices apart. -/
theorem Lines.room
    (lines : Lines region)
    (fits : doByteAlign count ≤ audioRegionFreeSpace region) :
    region.ring.count + doByteAlign count < region.ring.size := by
  have less := lines.valid.count_lt
  have isSize : region.ring.size = region.size := rfl
  rw [audioRegionFreeSpace, lines.dataCount_eq] at fits
  split at fits
  · omega
  · omega

/-- Every copy is in the region and in the caller's bytes. -/
def CopiesInside (region : AudioRegion) (count : ℕ) (copies : List Copy) : Prop :=
  ∀ copy ∈ copies, copy.region + copy.length ≤ region.size ∧ copy.linear + copy.length ≤ count

theorem Lines.writeAfter_eq
    (lines : Lines region)
    (fits : doByteAlign count ≤ audioRegionFreeSpace region) :
    writeAfter region count = wrap region.size (region.writeIdx + doByteAlign count) := by
  have room := lines.room fits
  have write : region.writeIdx < region.size := lines.valid.writeInside
  have read : region.readIdx < region.size := lines.valid.readInside
  have isSize : region.ring.size = region.size := rfl
  rw [← lines.dataCount_eq, audioRegionDataCount] at room
  simp only [writeAfter, wrap]
  all_goals grind

/-- A write stores its bytes behind the others; the index moves by whole lines. -/
theorem Lines.write_eq
    (lines : Lines region)
    (small : linear.length + 127 < 2 ^ 32)
    (fits : doByteAlign linear.length ≤ audioRegionFreeSpace region) :
    CopiesInside region linear.length (writeCopies region linear.length) ∧
      audioRegionWriteFromLinear region linear = ({ region with
            memory := writeWrapped region.memory region.writeIdx linear
            writeIdx := wrap region.size (region.writeIdx + doByteAlign linear.length) }, 0) := by
  obtain ⟨isLine, least, most⟩ := doByteAlign_bounds small
  have room := lines.room fits
  have sizeLine := lines.size
  have writeLine := lines.write
  have write : region.writeIdx < region.size := lines.valid.writeInside
  have read : region.readIdx < region.size := lines.valid.readInside
  have sized : region.memory.length = region.size := lines.valid.sized
  have isSize : region.ring.size = region.size := rfl
  rw [← lines.dataCount_eq, audioRegionDataCount] at room
  rw [audioRegionWriteFromLinear, if_neg lines.size_ne_zero, lines.normalise_eq,
    if_neg (Nat.not_lt.mpr fits), lines.writeAfter_eq fits, writeWrapped, sized]
  unfold writeCopies CopiesInside
  by_cases wraps : region.readIdx ≤ region.writeIdx ∧
    region.size - region.writeIdx < doByteAlign linear.length
  · -- Both lengths are lines, so the bytes reach beyond the end as well.
    rw [if_pos wraps, if_neg (by omega), sub32_eq (by omega) (by omega)]
    refine ⟨?_, ?_⟩
    · simp only [mem_cons, not_mem_nil, or_false]
      rintro copy (rfl | rfl)
      · dsimp only
        omega
      · dsimp only
        omega
    · rw [foldl_cons, foldl_cons, foldl_nil, slice, drop_zero, slice,
        take_of_length_le (l := linear.drop _) (length_drop ▸ Nat.le_refl _)]
  · split at room
    case isTrue | isFalse =>
      rw [if_neg wraps, if_pos (by omega)]
      refine ⟨?_, ?_⟩
      · simp only [mem_singleton, forall_eq]
        omega
      · rw [foldl_cons, foldl_nil, slice, drop_zero, take_length]

theorem wrap_mod
    {size index : ℕ}
    (sizeLine : size % 128 = 0)
    (indexLine : index % 128 = 0) :
    wrap size index % 128 = 0 := by
  unfold wrap
  split
  · exact indexLine
  · omega

theorem Lines.written
    (lines : Lines region)
    (small : linear.length + 127 < 2 ^ 32)
    (fits : doByteAlign linear.length ≤ audioRegionFreeSpace region) :
    Lines (audioRegionWriteFromLinear region linear).1 ∧ ∃ pad,
    (audioRegionWriteFromLinear region linear).1.ring.contents =
    region.ring.contents ++ linear ++ pad ∧
    linear.length + pad.length = doByteAlign linear.length := by
  obtain ⟨isLine, least, most⟩ := doByteAlign_bounds small
  have room := lines.room fits
  have write : region.writeIdx < region.size := lines.valid.writeInside
  have sized : region.memory.length = region.size := lines.valid.sized
  have isSize : region.ring.size = region.size := rfl
  have isWrite := lines.valid.write_eq
  rw [(lines.write_eq small fits).2]
  have valid : Valid (AudioRegion.mk (writeWrapped region.memory region.writeIdx linear)
      region.readIdx (wrap region.size (region.writeIdx + doByteAlign linear.length))
      region.size).ring := by
    refine ⟨rfl, ?_, lines.valid.readInside, ?_⟩
    · exact (length_writeWrapped (by omega) (by omega)).trans sized
    change wrap _ _ < region.size
    unfold wrap
    split
    · omega
    · omega
  have read : region.readIdx < region.size := lines.valid.readInside
  have counted := count_of_write valid room (by
    change wrap _ _ = wrap region.size (region.readIdx + _)
    have isWrite : region.writeIdx = wrap region.size (region.readIdx + _) := isWrite
    rw [isWrite]
    unfold wrap
    repeat' split
    all_goals omega)
  have isContents : (AudioRegion.mk (writeWrapped region.memory region.writeIdx linear)
      region.readIdx (wrap region.size (region.writeIdx + doByteAlign linear.length))
      region.size).ring.contents = window (writeWrapped region.memory region.writeIdx linear)
      region.readIdx (region.ring.count + doByteAlign linear.length) := by
    rw [AudioRingbuf.contents, counted]
    rfl
  have front : (window (writeWrapped region.memory region.writeIdx linear) region.readIdx
      (region.ring.count + doByteAlign linear.length)).take (region.ring.count + linear.length) =
      region.ring.contents ++ linear := by
    rw [take_window (by omega)]
    exact window_append (by omega) (by omega) (by rw [sized]; exact isWrite) (by omega)
  rw [isContents]
  refine ⟨⟨valid, lines.size, lines.read, wrap_mod lines.size ?_⟩,
    drop (region.ring.count + linear.length) _, by rw [← front, take_append_drop], ?_⟩
  · have writeLine := lines.write
    omega
  · rw [length_drop, length_window]
    omega

section
variable (lines : Lines region) (small : count + 127 < 2 ^ 32)
  (available : doByteAlign count ≤ audioRegionDataCount region)
include lines small available

theorem Lines.readCopies_spec :
    CopiesInside region count (readCopies region count) ∧
    ((readCopies region count).flatMap fun copy => slice region.memory copy.region copy.length) =
    region.ring.bytesToLinear count := by
  obtain ⟨isLine, least, most⟩ := doByteAlign_bounds small
  have sizeLine := lines.size
  have readLine := lines.read
  have write : region.writeIdx < region.size := lines.valid.writeInside
  have read : region.readIdx < region.size := lines.valid.readInside
  rw [audioRegionDataCount] at available
  unfold readCopies CopiesInside AudioRingbuf.bytesToLinear
  by_cases wraps : region.writeIdx < region.readIdx ∧
    region.size - region.readIdx < doByteAlign count
  · have past : ¬ count ≤ region.ring.size - region.ring.read := by
      change ¬ count ≤ region.size - region.readIdx
      omega
    have unordered : ¬ region.ring.read ≤ region.ring.write := Nat.not_le.mpr wraps.1
    rw [if_pos wraps, sub32_eq (by omega) (by omega), if_neg unordered, if_neg past]
    rw [if_neg (Nat.not_le.mpr wraps.1)] at available
    refine ⟨?_, by rw [flatMap_cons, flatMap_singleton]; rfl⟩
    simp only [mem_cons, not_mem_nil, or_false]
    rintro copy (rfl | rfl)
    · dsimp only
      omega
    · dsimp only
      omega
  · have single : (if region.ring.read ≤ region.ring.write then
        slice region.ring.memory region.ring.read count
      else if count ≤ region.ring.size - region.ring.read then
        slice region.ring.memory region.ring.read count
      else slice region.ring.memory region.ring.read (region.ring.size - region.ring.read) ++
        slice region.ring.memory 0 (count - (region.ring.size - region.ring.read))) =
          slice region.memory region.readIdx count := by
      split
      · rfl
      rename_i unordered
      have unordered : ¬ region.readIdx ≤ region.writeIdx := unordered
      exact if_pos (show count ≤ region.size - region.readIdx by omega)
    rw [if_neg wraps, single]
    refine ⟨?_, flatMap_singleton ..⟩
    simp only [mem_singleton, forall_eq]
    split at available
    · omega
    · omega

/-- A read gives the oldest bytes and takes whole lines. -/
theorem Lines.read_spec :
    ∃ next,
    audioRegionReadToLinear region count = (next, 0, region.ring.contents.take count) ∧
    audioRegionDrop region count = (next, 0) ∧ Lines next ∧
    next.ring.contents = region.ring.contents.drop (doByteAlign count) := by
  obtain ⟨isLine, least, -⟩ := doByteAlign_bounds small
  have few : doByteAlign count ≤ region.ring.count := lines.dataCount_eq ▸ available
  have isAfter : readAfter region count = region.ring.readAfter (doByteAlign count) := rfl
  obtain ⟨valid, contents⟩ := lines.valid.taken few
  have bytes := (lines.readCopies_spec small available).2
  rw [lines.valid.bytesToLinear_eq (Nat.le_trans least few)] at bytes
  rw [audioRegionReadToLinear, audioRegionDrop, if_neg lines.size_ne_zero,
    if_neg lines.size_ne_zero, lines.normalise_eq, if_neg (Nat.not_lt.mpr available),
    if_neg (Nat.not_lt.mpr available), isAfter, lines.valid.readAfter_eq few, bytes]
  refine ⟨_, rfl, rfl, ⟨valid, lines.size, wrap_mod lines.size ?_, lines.write⟩, contents⟩
  have readLine := lines.read
  change (region.readIdx + doByteAlign count) % 128 = 0
  omega

end

end

variable {region next : AudioRegion}

inductive Call where
  | write (linear : List (BitVec 8))
  | read (count : ℕ)
  | drop (count : ℕ)
  deriving Repr, DecidableEq

def Call.count : Call → ℕ
  | .write linear => linear.length
  | .read count | .drop count => count

def Call.perform (region : AudioRegion) : Call → AudioRegion
  | .write linear => (audioRegionWriteFromLinear region linear).1
  | .read count => (audioRegionReadToLinear region count).1
  | .drop count => (audioRegionDrop region count).1

/-- A call whose count can be rounded to a cache line. -/
def SafeStep (region : AudioRegion) (call : Call) (next : AudioRegion) : Prop :=
  next = call.perform region ∧ call.count + 127 < 2 ^ 32

/-- Copies stay inside, and bytes come out in the order of the writes. -/
structure Fifo (region : AudioRegion) : Prop where
  written : ∀ linear next, linear.length + 127 < 2 ^ 32 →
    audioRegionWriteFromLinear region linear = (next, 0) →
      CopiesInside region linear.length (writeCopies region linear.length) ∧
        ∃ pad, next.ring.contents = region.ring.contents ++ linear ++ pad ∧
          linear.length + pad.length = doByteAlign linear.length
  taken : ∀ count next bytes, count + 127 < 2 ^ 32 →
    audioRegionReadToLinear region count = (next, 0, bytes) →
      CopiesInside region count (readCopies region count) ∧
        bytes = region.ring.contents.take count ∧
        next.ring.contents = region.ring.contents.drop (doByteAlign count)
  again : ∀ linear next, linear.length + 127 < 2 ^ 32 → region.ring.contents = [] →
    audioRegionWriteFromLinear region linear = (next, 0) →
      (audioRegionReadToLinear next linear.length).2 = (0, linear)

theorem Lines.fits_of_written
    {linear : List (BitVec 8)}
    (lines : Lines region)
    (writes : audioRegionWriteFromLinear region linear = (next, 0)) :
    doByteAlign linear.length ≤ audioRegionFreeSpace region := by
  by_contra full
  rw [audioRegionWriteFromLinear, if_neg lines.size_ne_zero, lines.normalise_eq,
    if_pos (Nat.lt_of_not_le full)] at writes
  exact absurd (Prod.mk.inj writes).2 (by decide)

theorem Lines.fifo (lines : Lines region) : Fifo region := by
  refine ⟨fun linear next small writes => ?_, fun count next bytes small reads => ?_,
    fun linear next small empty writes => ?_⟩
  · have fits := lines.fits_of_written writes
    have written := (lines.written small fits).2
    rw [writes] at written
    exact ⟨(lines.write_eq small fits).1, written⟩
  · have available : doByteAlign count ≤ audioRegionDataCount region := by
      by_contra missing
      rw [audioRegionReadToLinear, if_neg lines.size_ne_zero, lines.normalise_eq,
        if_pos (Nat.lt_of_not_le missing)] at reads
      exact absurd (Prod.mk.inj (Prod.mk.inj reads).2).1 (by decide)
    obtain ⟨after, isRead, -, -, contents⟩ := lines.read_spec small available
    rw [isRead] at reads
    obtain ⟨rfl, same⟩ := Prod.mk.inj reads
    exact ⟨(lines.readCopies_spec small available).1, (Prod.mk.inj same).2.symm, contents⟩
  · have fits := lines.fits_of_written writes
    obtain ⟨nextLines, pad, contents, length⟩ := lines.written small fits
    rw [writes] at nextLines contents
    rw [empty, nil_append] at contents
    have available : doByteAlign linear.length ≤ audioRegionDataCount next := Nat.le_of_eq (by
      rw [nextLines.dataCount_eq, ← length_contents, contents, length_append, length])
    obtain ⟨after, isRead, -⟩ := nextLines.read_spec small available
    rw [isRead, contents, take_left']
    rfl

theorem Lines.safeStep
    {call : Call}
    (lines : Lines region)
    (step : SafeStep region call next) :
    Lines next := by
  obtain ⟨rfl, small⟩ := step
  cases call with
  | write linear =>
    by_cases fits : doByteAlign linear.length ≤ audioRegionFreeSpace region
    · exact (lines.written small fits).1
    rw [Call.perform, audioRegionWriteFromLinear, if_neg lines.size_ne_zero, lines.normalise_eq,
      if_pos (Nat.lt_of_not_le fits)]
    exact lines
  | read count =>
    have small : count + 127 < 2 ^ 32 := small
    by_cases available : doByteAlign count ≤ audioRegionDataCount region
    · obtain ⟨after, isRead, -, afterLines, -⟩ := lines.read_spec small available
      rw [Call.perform, isRead]
      exact afterLines
    · rw [Call.perform, audioRegionReadToLinear, if_neg lines.size_ne_zero, lines.normalise_eq,
        if_pos (Nat.lt_of_not_le available)]
      exact lines
  | drop count =>
    have small : count + 127 < 2 ^ 32 := small
    by_cases available : doByteAlign count ≤ audioRegionDataCount region
    · obtain ⟨after, -, isDrop, afterLines, -⟩ := lines.read_spec small available
      rw [Call.perform, isDrop]
      exact afterLines
    · rw [Call.perform, audioRegionDrop, if_neg lines.size_ne_zero, lines.normalise_eq,
        if_pos (Nat.lt_of_not_le available)]
      exact lines

/-- Regions of whole cache lines are queues of bytes. -/
theorem fifo_of_run
    {memory : List (BitVec 8)}
    {calls : List Call}
    (lines : memory.length % 128 = 0)
    (some : 0 < memory.length)
    (run : Run SafeStep ⟨memory, 0, 0, memory.length⟩ calls region) :
    Fifo region := by
  have start : Lines ⟨memory, 0, 0, memory.length⟩ := ⟨⟨rfl, rfl, some, some⟩, lines, rfl, rfl⟩
  exact (run.always start fun _ _ _ before step => Lines.safeStep before step).fifo

/-- The memory of three cache lines. -/
def threeLines : List (BitVec 8) := replicate 384 0

/-- The region after two lines were written and read. -/
def atLastLine : AudioRegion :=
  Call.perform (Call.perform ⟨threeLines, 0, 0, threeLines.length⟩ (.write (replicate 130 1)))
    (.read 130)

/-- Two hundred bytes. -/
def twoHundred : List (BitVec 8) := replicate 100 2 ++ replicate 100 3

/-- A write of 200 bytes at the last line wraps, and a read returns them. -/
theorem fifo_of_run_wraps :
    writeCopies atLastLine 200 = [⟨256, 0, 128⟩, ⟨0, 128, 72⟩] ∧
      readCopies (Call.perform atLastLine (.write twoHundred)) 200 =
        [⟨256, 0, 128⟩, ⟨0, 128, 72⟩] ∧
      Fifo (Call.perform atLastLine (.write twoHundred)) ∧
      (audioRegionReadToLinear (Call.perform atLastLine (.write twoHundred)) 200).2 =
        (0, twoHundred) := by
  have isLength : twoHundred.length = 200 := by decide +kernel
  have whole : threeLines.length % 128 = 0 := by decide +kernel
  have positive : 0 < threeLines.length := by decide +kernel
  have run : Run SafeStep ⟨threeLines, 0, 0, threeLines.length⟩ _ atLastLine :=
    (Run.start.after ⟨rfl, by simp [Call.count]⟩).after ⟨rfl, by decide⟩
  have before := fifo_of_run whole positive run
  have small : (Call.write twoHundred).count + 127 < 2 ^ 32 := by decide +kernel
  have after := fifo_of_run whole positive (run.after ⟨rfl, small⟩)
  have succeeds : (audioRegionWriteFromLinear atLastLine twoHundred).2 = 0 := by decide +kernel
  have writes : audioRegionWriteFromLinear atLastLine twoHundred =
      (Call.perform atLastLine (.write twoHundred), 0) := by
    rw [Call.perform, ← succeeds]
  have again := before.again twoHundred _ small (by decide +kernel) writes
  rw [isLength] at again
  exact ⟨by decide +kernel, by decide +kernel, after, again⟩

/--
In a region of 200 bytes a write of ten bytes at the second line copies 72 and
then a negative number; a count near the limit becomes nothing.
-/
theorem copies_behind_linear :
    let region := Call.perform (Call.perform ⟨replicate 200 0, 0, 0, 200⟩ (.write [7])) (.drop 1)
    doByteAlign 10 ≤ audioRegionFreeSpace region ∧
      writeCopies region 10 = [⟨128, 0, 72⟩, ⟨0, 72, 2 ^ 32 - 62⟩] ∧
      doByteAlign (2 ^ 32 - 1) = 0 := by
  decide

end EchoKernel.DmaRegion
