import EchoKernel.AudioRingbufDeque
import EchoKernel.LabelledRun

namespace EchoKernel.Ringbuf

open LabelledRun Function Option AudioRingbuf

/-!
# Ring buffers when memory runs out

All calls of `audio_ringbuf.h`, with a `vmalloc` that may fail.
`audio_ringbuf_copy_from_ringbuf_all` and `audio_ringbuf_write_zero` are calls
of those here.
-/

namespace AudioRingbuf

variable (alloc : Option Vmalloc) (rb : AudioRingbuf)

/-- The size that `dynamic_change_ring_buf_size` asks for. -/
def changeSize (writeSize : Nat) : Option Nat :=
  if writeSize = 0 then none
  else if rb.noInit then some (u32 (2 * writeSize + maxSizeOfOneFrame))
  else if rb.freeSpace < writeSize ∨ u32 (8 * (rb.count + writeSize)) < rb.freeSpace then
    some (u32 (2 * (rb.count + writeSize) + maxSizeOfOneFrame))
  else none

/-- The new buffer; `base` is null without memory and for size zero. -/
def newRingbuf (size : Nat) : AudioRingbuf :=
  match alloc with
  | some vmalloc => if size = 0 then ⟨false, [], 0, 0, size⟩ else fresh vmalloc size
  | none => ⟨false, [], 0, 0, size⟩

/-- `dynamic_change_ring_buf_size`; the old memory is freed last. -/
def changed (writeSize : Nat) : AudioRingbuf :=
  match rb.changeSize writeSize with
  | none => rb
  | some size =>
    if rb.noInit then newRingbuf alloc size
    else
      copyFromRingbufImpl (fun isNew => if isNew then newRingbuf alloc size else rb) true false
        rb.count true

/-- With memory this is `dynamic_change_ring_buf_size` as it is without failures. -/
theorem changed_eq_dynamicChangeRingBufSize
    {vmalloc : Vmalloc}
    {writeSize : Nat}
    (positive : ∀ size, rb.changeSize writeSize = some size → size ≠ 0) :
    rb.changed (some vmalloc) writeSize = rb.dynamicChangeRingBufSize vmalloc writeSize := by
  have allocated : ∀ size, rb.changeSize writeSize = some size →
      newRingbuf (some vmalloc) size = fresh vmalloc size :=
    fun size asks => if_neg (positive size asks)
  unfold changed dynamicChangeRingBufSize
  by_cases nothing : writeSize = 0
  · have asks : rb.changeSize writeSize = none := if_pos nothing
    rw [asks, if_pos nothing]
  rw [if_neg nothing]
  by_cases noInit : rb.noInit = true
  · have asks : rb.changeSize writeSize = some (u32 (2 * writeSize + maxSizeOfOneFrame)) :=
      (if_neg nothing).trans (if_pos noInit)
    rw [asks, if_pos noInit]
    exact (if_pos noInit).trans (allocated _ asks)
  rw [if_neg noInit]
  by_cases change : rb.freeSpace < writeSize ∨ u32 (8 * (rb.count + writeSize)) < rb.freeSpace
  · have asks : rb.changeSize writeSize =
        some (u32 (2 * (rb.count + writeSize) + maxSizeOfOneFrame)) :=
      (if_neg nothing).trans ((if_neg noInit).trans (if_pos change))
    rw [asks, if_pos change, ← allocated _ asks]
    exact if_neg noInit
  · have asks : rb.changeSize writeSize = none :=
      (if_neg nothing).trans ((if_neg noInit).trans (if_neg change))
    rw [asks, if_neg change]

/-- The read pointer after `audio_ringbuf_rollback`, from `base`. -/
def rollback (count : Nat) : Int :=
  if count = 0 then rb.read
  else if rb.freeSpace < count then rb.read
  else if rb.read ≤ rb.write then
    if count ≤ rb.read then rb.read - count
    else if 0 < rb.read then rb.size - (count - rb.read)
    else rb.size - count
  else rb.read - count

end AudioRingbuf

/-- The calls; buffers are named by keys. -/
inductive PublicCall where
  | copyToLinear (rb : Nat) (hasLinear : Bool) (count : Nat)
  | copyFromLinear (rb : Nat) (linear : Option (List (BitVec 8)))
  | copyFromLinearImpl (rb : Nat) (linear : Option (List (BitVec 8)))
  | copyFromRingbuf (des src count : Nat)
  | copyFromRingbufImpl (des src count : Nat)
  | writeValue (rb : Nat) (value : BitVec 8) (count : Nat)
  | dropData (rb count : Nat)
  | dropAll (rb : Nat)
  | compensateValue (rb : Nat) (value : BitVec 8) (count : Nat)
  | compensateValueImpl (rb : Nat) (value : BitVec 8) (count : Nat)
  | rollback (rb count : Nat)
  | dynamicChange (rb writeSize : Nat)
  deriving Repr, DecidableEq

namespace PublicCall

/-- The buffers that a call uses. -/
def keys : PublicCall → List Nat
  | .copyFromRingbuf des src _ | .copyFromRingbufImpl des src _ => [des, src]
  | .copyToLinear rb _ _ | .copyFromLinear rb _ | .copyFromLinearImpl rb _ | .writeValue rb _ _
  | .dropData rb _ | .dropAll rb | .compensateValue rb _ _ | .compensateValueImpl rb _ _
  | .rollback rb _ | .dynamicChange rb _ => [rb]

section
variable (store : Nat → AudioRingbuf)

/-- The buffer and count that a call gives to `dynamic_change_ring_buf_size`. -/
def request : PublicCall → Option (Nat × Nat)
  | .copyFromLinear rb linear => linear.map fun bytes => (rb, bytes.length)
  | .copyFromRingbuf des src count =>
    if (store src).noInit || decide ((store src).count < count) then none else some (des, count)
  | .writeValue rb _ count | .compensateValue rb _ count => some (rb, count)
  | .dynamicChange rb writeSize => some (rb, writeSize)
  | _ => none

/-- The buffers after `dynamic_change_ring_buf_size`. -/
def grow (alloc : Option Vmalloc) (store : Nat → AudioRingbuf) (call : PublicCall) :
    Nat → AudioRingbuf :=
  match call.request store with
  | none => store
  | some (key, writeSize) => update store key ((store key).changed alloc writeSize)

/-- The rest of a call; `memset` writes like `memcpy` of equal bytes. -/
def finish : PublicCall → Nat → AudioRingbuf
  | .copyToLinear rb hasLinear count => update store rb ((store rb).copyToLinear hasLinear count).1
  | .copyFromLinear rb linear | .copyFromLinearImpl rb linear =>
    update store rb ((store rb).copyFromLinearImpl linear)
  | .copyFromRingbuf des src count | .copyFromRingbufImpl des src count =>
    Ringbuf.copyFromRingbufImpl store des src count
  | .writeValue rb value count =>
    update store rb ((store rb).copyFromLinearImpl (some (List.replicate count value)))
  | .dropData rb count => update store rb ((store rb).dropData count)
  | .dropAll rb => update store rb { store rb with read := 0, write := 0 }
  | .compensateValue rb value count | .compensateValueImpl rb value count =>
    update store rb ((store rb).compensateValueImpl value count)
  | .rollback rb count =>
    update store rb { store rb with read := ((store rb).rollback count).toNat }
  | .dynamicChange _ _ => store

/-- The call leaves a pointer that is not in the memory: null, before it or behind it. -/
def strays : PublicCall → Bool
  | .dropAll rb => (store rb).hasBase
  | .rollback rb count =>
    (store rb).hasBase && !decide (0 ≤ (store rb).rollback count ∧
      (store rb).rollback count < (store rb).size)
  | _ => false

end

end PublicCall

/-- The buffers, and those with a pointer outside. -/
structure Buffers where
  rbs : Nat → AudioRingbuf
  stray : Nat → Bool

/-- A call; its effect through a pointer outside the memory is not described. -/
def Buffers.perform (buffers : Buffers) (alloc : Option Vmalloc) (call : PublicCall) :
    Option Buffers :=
  if call.keys.any buffers.stray then none
  else some ⟨call.finish (call.grow alloc buffers.rbs),
    fun key => buffers.stray key || (call.keys.contains key && call.strays buffers.rbs)⟩

section
variable {rb : AudioRingbuf} {alloc : Option Vmalloc} {store : Nat → AudioRingbuf} {count : Nat}

/-- A buffer with memory has its pointers in it. -/
def Inside (rb : AudioRingbuf) : Prop := rb.hasBase = true → Valid rb

theorem Inside.valid (inside : Inside rb) (init : rb.noInit = false) : Valid rb := by
  refine inside ?_
  cases hasBase : rb.hasBase with
  | true => rfl
  | false => simp [AudioRingbuf.noInit, hasBase] at init

theorem freeSpace_of_noInit (noInit : rb.noInit = true) : rb.freeSpace = 0 := by
  rw [freeSpace, if_pos noInit]

theorem count_of_noInit (noInit : rb.noInit = true) : rb.count = 0 := by
  rw [AudioRingbuf.count, if_pos noInit]

theorem size_copyFromLinearImpl
    (linear : Option (List (BitVec 8))) :
    (rb.copyFromLinearImpl linear).size = rb.size := by
  unfold AudioRingbuf.copyFromLinearImpl append
  grind

section
variable (inside : Inside rb)
include inside

theorem Inside.copyFromLinearImpl
    (linear : Option (List (BitVec 8))) :
    Inside (rb.copyFromLinearImpl linear) := by
  unfold AudioRingbuf.copyFromLinearImpl
  split
  · exact inside
  split
  · exact inside
  split
  · exact inside
  split
  · exact inside
  rename_i bytes some init fits
  have valid := inside.valid (Bool.eq_false_iff.mpr init)
  have room := valid.room_of_freeSpace (Nat.not_lt.mp fits) (Nat.pos_of_ne_zero some)
  exact fun _ => (valid.appended (by omega)).1

theorem Inside.compensateValueImpl
    (value : BitVec 8) :
    Inside (rb.compensateValueImpl value count) := by
  by_cases refused : count = 0 ∨ rb.noInit = true ∨ rb.freeSpace < count
  · have same : rb.compensateValueImpl value count = rb := by
      unfold AudioRingbuf.compensateValueImpl
      grind
    rw [same]
    exact inside
  · have valid := inside.valid (by grind)
    exact fun _ => (valid.compensated (by omega) (by omega)).1

theorem Inside.taken
    (init : rb.noInit = false)
    (few : count ≤ rb.count) :
    Inside { rb with read := rb.readAfter count } := by
  have valid := inside.valid init
  rw [valid.readAfter_eq few]
  exact fun _ => (valid.taken few).1

theorem Inside.dropData : Inside (rb.dropData count) := by
  unfold AudioRingbuf.dropData
  split
  · exact inside
  split
  · exact inside
  rename_i some few
  refine inside.taken ?_ (Nat.not_lt.mp few)
  by_contra noInit
  rw [Bool.not_eq_false] at noInit
  rw [count_of_noInit noInit] at few
  omega

theorem Inside.copyToLinear (hasLinear : Bool) : Inside (rb.copyToLinear hasLinear count).1 := by
  unfold AudioRingbuf.copyToLinear
  split
  · exact inside
  split
  · exact inside
  split
  · exact inside
  split
  · exact inside
  · rename_i init few
    exact inside.taken (Bool.eq_false_iff.mpr init) (Nat.not_lt.mp few)

end

theorem Valid.rollback
    (valid : Valid rb) :
    0 ≤ rb.rollback count ∧ rb.rollback count < rb.size := by
  have readInside := valid.readInside
  unfold AudioRingbuf.rollback
  by_cases refused : count = 0 ∨ rb.freeSpace < count
  · omega
  have room := @Valid.room_of_freeSpace rb count valid (by omega) (by omega)
  rw [valid.count_eq] at room
  all_goals split at room
  all_goals omega

theorem Inside.rollback
    (inside : Inside rb) :
    Inside { rb with read := (rb.rollback count).toNat } := by
  intro hasBase
  have valid := inside hasBase
  have bounds := @Valid.rollback rb count valid
  exact ⟨hasBase, valid.sized, by dsimp only; omega, valid.writeInside⟩

theorem inside_newRingbuf (size : Nat) : Inside (AudioRingbuf.newRingbuf alloc size) := by
  unfold AudioRingbuf.newRingbuf
  split
  · split
    · exact fun hasBase => nomatch hasBase
    · rename_i positive
      exact fun _ => (represents_fresh (Nat.pos_of_ne_zero positive)).valid
  · exact fun hasBase => nomatch hasBase

section
variable {κ : Type*} [DecidableEq κ] {rbs : κ → AudioRingbuf}

theorem inside_update
    {key : κ}
    {next : AudioRingbuf}
    (inside : ∀ key, Inside (rbs key))
    (nextInside : Inside next)
    (other : κ) :
    Inside (update rbs key next other) := by
  by_cases same : other = key
  · rw [same, update_self]
    exact nextInside
  · rw [update_of_ne same]
    exact inside other

theorem size_copyBytes
    (des key : κ)
    (bytes : List (BitVec 8)) :
    (copyBytes rbs des bytes key).size = (rbs key).size := by
  by_cases same : key = des
  · rw [same, copyBytes, update_self, size_copyFromLinearImpl]
  · rw [copyBytes, update_of_ne same]

section
variable (inside : ∀ key, Inside (rbs key))
include inside

theorem inside_setRead
    {src : κ}
    {read : Nat}
    (bound : read < (rbs src).size) :
    ∀ key, Inside (setRead rbs src read key) :=
  inside_update inside fun hasBase =>
    let valid := inside src hasBase
    ⟨hasBase, valid.sized, bound, valid.writeInside⟩

theorem inside_copyBytes
    {des : κ}
    {bytes : List (BitVec 8)} :
    ∀ key, Inside (copyBytes rbs des bytes key) :=
  inside_update inside ((inside des).copyFromLinearImpl _)

/-- Bytes copied between buffers leave both buffers' pointers inside. -/
theorem inside_copyFromRingbufImpl
    {des src : κ} :
    ∀ key, Inside (copyFromRingbufImpl rbs des src count key) := by
  unfold copyFromRingbufImpl
  dsimp only
  split
  · exact inside
  split
  · exact inside
  rename_i some init
  have valid := (inside src).valid (Bool.eq_false_iff.mpr init)
  have writeInside := valid.writeInside
  have few := valid.count_lt
  have isCount := valid.count_eq
  split
  · exact inside
  split
  · exact inside
  split
  · rename_i ordered
    rw [if_pos ordered] at isCount
    exact inside_setRead (inside_copyBytes inside) (by rw [size_copyBytes]; omega)
  split
  · refine inside_setRead (inside_copyBytes inside) ?_
    rw [size_copyBytes]
    split
    · omega
    · omega
  · refine inside_setRead (inside_copyBytes (inside_copyBytes inside)) ?_
    rw [size_copyBytes, size_copyBytes]
    omega

end

end

theorem Inside.changed (inside : Inside rb) : Inside (rb.changed alloc count) := by
  unfold AudioRingbuf.changed
  split
  · exact inside
  split
  · exact inside_newRingbuf _
  refine inside_copyFromRingbufImpl (fun isNew => ?_) true
  cases isNew with
  | true => exact inside_newRingbuf _
  | false => exact inside

end

variable {store : Nat → AudioRingbuf} {alloc : Option Vmalloc} {call : PublicCall}
variable {buffers next : Buffers}

/-- The call asks for memory and gets none. -/
def PublicCall.Fails (call : PublicCall) (alloc : Option Vmalloc) (store : Nat → AudioRingbuf)
    (key : Nat) : Prop :=
  ∃ writeSize size, call.request store = some (key, writeSize) ∧
    (store key).changeSize writeSize = some size ∧
    (AudioRingbuf.newRingbuf alloc size).hasBase = false

/-- No allocated buffer is dropped as a whole, and buffers with bytes have memory. -/
def PublicCall.Safe (call : PublicCall) (alloc : Option Vmalloc) (store : Nat → AudioRingbuf) :
    Prop :=
  (∀ rb, call = .dropAll rb → (store rb).hasBase = false) ∧
    ∀ key, call.Fails alloc store key → (store key).count = 0

def Step (buffers : Buffers) (label : Option Vmalloc × PublicCall) (next : Buffers) : Prop :=
  buffers.perform label.1 label.2 = some next

/-- A safe call. -/
def SafeStep (buffers : Buffers) (label : Option Vmalloc × PublicCall) (next : Buffers) : Prop :=
  Step buffers label next ∧ label.2.Safe label.1 buffers.rbs

/-- All pointers of buffers with memory are in it. -/
structure AllInside (buffers : Buffers) : Prop where
  inside : ∀ key, Inside (buffers.rbs key)
  stray : ∀ key, buffers.stray key = false

section
variable (inside : ∀ key, Inside (store key))
include inside

theorem inside_grow : ∀ key, Inside (call.grow alloc store key) := by
  rcases isRequest : call.request store with _ | ⟨key, writeSize⟩
  · simp only [PublicCall.grow, isRequest]
    exact inside
  · simp only [PublicCall.grow, isRequest]
    exact inside_update inside (inside key).changed

theorem inside_finish
    (safe : ∀ rb, call = .dropAll rb → (store rb).hasBase = false) :
    ∀ key, Inside (call.finish store key) := by
  cases call with
  | copyToLinear rb hasLinear count => exact inside_update inside ((inside rb).copyToLinear _)
  | copyFromLinear rb linear | copyFromLinearImpl rb linear | writeValue rb value count =>
    exact inside_update inside ((inside rb).copyFromLinearImpl _)
  | copyFromRingbuf des src count | copyFromRingbufImpl des src count =>
    exact inside_copyFromRingbufImpl inside
  | dropData rb count => exact inside_update inside (inside rb).dropData
  | dropAll rb =>
    refine inside_update inside fun hasBase => ?_
    rw [safe rb rfl] at hasBase
    exact nomatch hasBase
  | compensateValue rb value count | compensateValueImpl rb value count =>
    exact inside_update inside ((inside rb).compensateValueImpl value)
  | rollback rb count => exact inside_update inside (inside rb).rollback
  | dynamicChange rb writeSize => exact inside

theorem strays_of_safe (safe : call.Safe alloc store) : call.strays store = false := by
  cases call with
  | dropAll rb => exact safe.1 rb rfl
  | rollback rb count =>
    rw [PublicCall.strays]
    cases hasBase : (store rb).hasBase with
    | false => rfl
    | true => simp [Valid.rollback (inside rb hasBase)]
  | _ => rfl

end

theorem AllInside.safeStep
    {label : Option Vmalloc × PublicCall}
    (all : AllInside buffers)
    (step : SafeStep buffers label next) :
    AllInside next := by
  obtain ⟨step, safe⟩ := step
  rw [Step, Buffers.perform] at step
  split at step
  · exact nomatch step
  obtain rfl := some.inj step
  refine ⟨inside_finish (inside_grow all.inside) fun rb isDrop => ?_, fun key => ?_⟩
  · have grown : label.2.grow label.1 buffers.rbs = buffers.rbs := by
      rw [isDrop]
      rfl
    rw [grown]
    exact safe.1 rb isDrop
  · simp [all.stray key, strays_of_safe all.inside safe]

theorem contents_of_noInit {rb : AudioRingbuf} (empty : rb.count = 0) : rb.contents = [] := by
  rw [← List.length_eq_zero_iff, length_contents, empty]

/-- Without memory an empty buffer gets a null pointer. -/
theorem changed_of_fails
    {rb : AudioRingbuf}
    {writeSize size : Nat}
    (empty : rb.count = 0)
    (asks : rb.changeSize writeSize = some size) :
    rb.changed alloc writeSize = AudioRingbuf.newRingbuf alloc size := by
  unfold AudioRingbuf.changed
  rw [asks]
  dsimp only
  split
  · rfl
  · rw [empty, copyFromRingbufImpl]
    rfl

/-- A buffer that asked for memory in vain is left alone. -/
theorem finish_of_noInit
    {key writeSize : Nat}
    {before : Nat → AudioRingbuf}
    (asks : call.request before = some (key, writeSize))
    (noInit : (store key).noInit = true) :
    call.finish store = store := by
  have free := freeSpace_of_noInit noInit
  have linear (bytes : Option (List (BitVec 8))) :
      (store key).copyFromLinearImpl bytes = store key := by
    cases bytes with
    | none => rfl
    | some bytes => simp [AudioRingbuf.copyFromLinearImpl, noInit, ite_self]
  have value (value : BitVec 8) (count : Nat) :
      (store key).compensateValueImpl value count = store key := by
    simp [AudioRingbuf.compensateValueImpl, noInit, ite_self]
  cases call with
  | copyFromLinear rb bytes =>
    obtain ⟨_, _, same⟩ := map_eq_some_iff.mp asks
    obtain rfl := (Prod.mk.inj same).1
    rw [PublicCall.finish, linear, update_eq_self]
  | copyFromRingbuf des src count =>
    rw [PublicCall.request] at asks
    split at asks
    · cases asks
    obtain rfl := (Prod.mk.inj (some.inj asks)).1
    rw [PublicCall.finish, Ringbuf.copyFromRingbufImpl, free]
    rcases Nat.eq_zero_or_pos count with rfl | positive
    · rw [if_pos rfl]
    · simp [positive, ite_self]
  | writeValue rb byte count =>
    obtain rfl := (Prod.mk.inj (some.inj asks)).1
    rw [PublicCall.finish, linear, update_eq_self]
  | compensateValue rb byte count =>
    obtain rfl := (Prod.mk.inj (some.inj asks)).1
    rw [PublicCall.finish, value, update_eq_self]
  | dynamicChange rb size => rfl
  | _ => cases asks

/-- Bytes stay readable when a safe call gets no memory. -/
theorem contents_of_fails
    {label : Option Vmalloc × PublicCall}
    {key : Nat}
    (step : SafeStep buffers label next)
    (fails : label.2.Fails label.1 buffers.rbs key)
    (other : Nat) :
    (next.rbs other).contents = (buffers.rbs other).contents := by
  obtain ⟨step, safe⟩ := step
  have empty := safe.2 key fails
  obtain ⟨writeSize, size, isRequest, asks, null⟩ := fails
  have noInit : (AudioRingbuf.newRingbuf label.1 size).noInit = true := by
    simp [AudioRingbuf.noInit, null]
  have grown : label.2.grow label.1 buffers.rbs =
      update buffers.rbs key (AudioRingbuf.newRingbuf label.1 size) := by
    simp only [PublicCall.grow, isRequest, changed_of_fails empty asks]
  rw [Step, Buffers.perform] at step
  split at step
  · cases step
  obtain rfl := some.inj step
  dsimp only
  rw [grown, finish_of_noInit isRequest (by rw [update_self]; exact noInit)]
  by_cases same : other = key
  · rw [same, update_self, contents_of_noInit (count_of_noInit noInit), contents_of_noInit empty]
  · rw [update_of_ne same]

/-- In safe runs pointers stay in the memory, and bytes outlive a lack of memory. -/
theorem allInside_of_run
    {initial : Buffers}
    {labels : List (Option Vmalloc × PublicCall)}
    (initialised : AllInside initial)
    (run : Run SafeStep initial labels buffers) :
    AllInside buffers ∧
    ∀ label next, SafeStep buffers label next →
      ∀ key, label.2.Fails label.1 buffers.rbs key →
        ∀ other, (next.rbs other).contents = (buffers.rbs other).contents :=
  ⟨run.always initialised fun _ _ _ all step => all.safeStep step,
    fun _ _ step _ fails => contents_of_fails step fails⟩

/-- Buffers without memory. -/
def zeroBuffers : Buffers := ⟨fun _ => ⟨false, [], 0, 0, 0⟩, fun _ => false⟩

/-- The buffers after two bytes are written to the first one. -/
def filledBuffers : Buffers :=
  (zeroBuffers.perform (some zeroVmalloc) (.writeValue 0 7 2)).getD zeroBuffers

/-- A buffer with two bytes, when there is no memory for another one. -/
theorem allInside_of_run_write :
    Run SafeStep zeroBuffers [(some zeroVmalloc, .writeValue 0 7 2)] filledBuffers ∧
    (filledBuffers.rbs 0).contents = [7, 7] ∧ AllInside filledBuffers ∧
    PublicCall.Fails (.writeValue 1 8 40) none filledBuffers.rbs 1 ∧
    ∃ next, SafeStep filledBuffers (none, .writeValue 1 8 40) next ∧
      (next.rbs 0).contents = [7, 7] := by
  have step : SafeStep zeroBuffers (some zeroVmalloc, .writeValue 0 7 2) filledBuffers :=
    ⟨rfl, nofun, fun _ _ => rfl⟩
  have run : Run SafeStep zeroBuffers [(some zeroVmalloc, .writeValue 0 7 2)] filledBuffers :=
    Run.start.after step
  obtain ⟨allInside, kept⟩ :=
    allInside_of_run ⟨fun _ hasBase => absurd hasBase Bool.false_ne_true, fun _ => rfl⟩ run
  have isFilled : (filledBuffers.rbs 0).contents = [7, 7] := by decide +kernel
  have fails : PublicCall.Fails (.writeValue 1 8 40) none filledBuffers.rbs 1 :=
    ⟨40, _, rfl, rfl, rfl⟩
  obtain ⟨next, lacks⟩ : ∃ next, SafeStep filledBuffers (none, .writeValue 1 8 40) next := by
    refine ⟨_, rfl, nofun, ?_⟩
    rintro key ⟨writeSize, size, isRequest, _⟩
    cases isRequest
    rfl
  exact ⟨run, isFilled, allInside, fails, next, lacks, (kept _ _ lacks 1 fails 0).trans isFilled⟩

/-- `audio_ringbuf_drop_all` leaves null pointers; without memory bytes are lost. -/
theorem stray_after_dropAll :
    ((zeroBuffers.perform (some zeroVmalloc) (.writeValue 0 7 2)).bind fun buffers =>
        buffers.perform none (.dropAll 0)).map (fun buffers => buffers.stray 0) = some true ∧
      ((zeroBuffers.perform (some zeroVmalloc) (.writeValue 0 7 2)).bind fun buffers =>
        buffers.perform none (.writeValue 0 8 40)).map (fun buffers => (buffers.rbs 0).contents) =
        some [] := by
  decide

end EchoKernel.Ringbuf
