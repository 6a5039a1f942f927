import EchoKernel.CircularWindow
import Mathlib.Logic.Function.Basic

namespace EchoKernel.Ringbuf

open CircularWindow Function List

/-!
# Ring buffers of the audio framework

`audio_ringbuf.c`. Pointers are offsets from `base`, and the memory is what
`vmalloc` returned. Buffers are named by keys, as one function gets two, which
may be the same.
-/

/-- `struct audio_ringbuf_t`; `hasBase` says that `base` is not null. -/
structure AudioRingbuf where
  hasBase : Bool
  memory : List (BitVec 8)
  read : Nat
  write : Nat
  size : Nat
  deriving Repr, DecidableEq

def maxSizeOfOneFrame : Nat := 16

/-- Arithmetic of `uint32_t`. -/
def u32 (value : Nat) : Nat := value % 2 ^ 32

namespace AudioRingbuf

variable (rb : AudioRingbuf)

/-- The check `!rb->base || !rb->size`. -/
def noInit : Bool := !rb.hasBase || rb.size == 0

/-- `audio_ringbuf_count`. -/
def count : Nat :=
  if rb.noInit then 0
  else if rb.read ≤ rb.write then rb.write - rb.read
  else if rb.read - rb.write < rb.size then rb.size - (rb.read - rb.write)
  else 0

/-- `audio_ringbuf_free_space`. -/
def freeSpace : Nat :=
  if rb.noInit then 0
  else
    let free := if rb.count < rb.size then rb.size - rb.count else 0
    if maxSizeOfOneFrame < free then free - maxSizeOfOneFrame else 0

/-- The read pointer behind a number of bytes. -/
def readAfter (count : Nat) : Nat :=
  if rb.read ≤ rb.write then rb.read + count
  else if count ≤ rb.size - rb.read then if rb.read + count = rb.size then 0 else rb.read + count
  else count - (rb.size - rb.read)

/-- The bytes of `audio_ringbuf_copy_to_linear`. -/
def bytesToLinear (count : Nat) : List (BitVec 8) :=
  if rb.read ≤ rb.write then slice rb.memory rb.read count
  else if count ≤ rb.size - rb.read then slice rb.memory rb.read count
  else
    slice rb.memory rb.read (rb.size - rb.read) ++ slice rb.memory 0 (count - (rb.size - rb.read))

/--
`audio_ringbuf_copy_to_linear`, with the bytes copied to the linear buffer
when it is written.
-/
def copyToLinear (hasLinear : Bool) (count : Nat) : AudioRingbuf × Option (List (BitVec 8)) :=
  if count = 0 then (rb, none)
  else if hasLinear = false then (rb, none)
  else if rb.noInit then (rb, none)
  else if rb.count < count then (rb, none)
  else ({ rb with read := rb.readAfter count }, some (rb.bytesToLinear count))

/-- Bytes are written behind the write pointer, which moves on. -/
def append (bytes : List (BitVec 8)) : AudioRingbuf :=
  if rb.read ≤ rb.write then
    let w2e := rb.size - rb.write
    if bytes.length ≤ w2e then
      { rb with
        memory := splice rb.memory rb.write bytes
        write :=
          if rb.write + bytes.length = rb.size then 0
          else rb.write + bytes.length }
    else
      { rb with
        memory := splice (splice rb.memory rb.write (bytes.take w2e)) 0 (bytes.drop w2e)
        write := bytes.length - w2e }
  else
    { rb with
      memory := splice rb.memory rb.write bytes
      write := rb.write + bytes.length }

/-- `audio_ringbuf_copy_from_linear_impl`; the count is that of bytes. -/
def copyFromLinearImpl (linear : Option (List (BitVec 8))) : AudioRingbuf :=
  match linear with
  | none => rb
  | some bytes =>
    if bytes.length = 0 then rb
    else if rb.noInit then rb
    else if rb.freeSpace < bytes.length then rb
    else rb.append bytes

end AudioRingbuf

section
variable {κ : Type*} [DecidableEq κ]

section
variable (store : κ → AudioRingbuf)

/-- `audio_ringbuf_copy_from_linear_impl` of a named buffer. -/
def copyBytes (des : κ) (bytes : List (BitVec 8)) : κ → AudioRingbuf :=
  update store des ((store des).copyFromLinearImpl (some bytes))

/-- The read pointer of a named buffer is set. -/
def setRead (src : κ) (read : Nat) : κ → AudioRingbuf :=
  update store src { store src with read := read }

/-- `audio_ringbuf_copy_from_ringbuf_impl`. -/
def copyFromRingbufImpl (des src : κ) (count : Nat) : κ → AudioRingbuf :=
  let rb := store src
  if count = 0 then store
  else if rb.noInit then store
  else if rb.count < count then store
  else if (store des).freeSpace < count then store
  else if rb.read ≤ rb.write then
    setRead (copyBytes store des (slice rb.memory rb.read count)) src (rb.read + count)
  else
    let r2e := rb.size - rb.read
    if count ≤ r2e then
      setRead (copyBytes store des (slice rb.memory rb.read count)) src
        (if rb.read + count = rb.size then 0 else rb.read + count)
    else
      let first := copyBytes store des (slice rb.memory rb.read r2e)
      setRead (copyBytes first des (slice (first src).memory 0 (count - r2e))) src (count - r2e)

end

end

/-- `vmalloc` gives as many bytes as it is asked for. -/
structure Vmalloc where
  bytes : Nat → List (BitVec 8)
  length : ∀ size, (bytes size).length = size

namespace AudioRingbuf

variable (rb : AudioRingbuf) (vmalloc : Vmalloc)

/-- A buffer with new memory. -/
def fresh (size : Nat) : AudioRingbuf := ⟨true, vmalloc.bytes size, 0, 0, size⟩

/-- `dynamic_change_ring_buf_size`, with memory. -/
def dynamicChangeRingBufSize (writeSize : Nat) : AudioRingbuf :=
  if writeSize = 0 then rb
  else if rb.noInit then fresh vmalloc (u32 (2 * writeSize + maxSizeOfOneFrame))
  else
    let dataCount := rb.count
    let freeSpace := rb.freeSpace
    if freeSpace < writeSize ∨ u32 (8 * (dataCount + writeSize)) < freeSpace then
      let newRingbuf := fresh vmalloc (u32 (2 * (dataCount + writeSize) + maxSizeOfOneFrame))
      copyFromRingbufImpl (fun isNew => if isNew then newRingbuf else rb) true false dataCount true
    else rb

/-- `audio_ringbuf_copy_from_linear`. -/
def copyFromLinear (linear : Option (List (BitVec 8))) : AudioRingbuf :=
  match linear with
  | none => rb
  | some bytes =>
    if bytes.length = 0 then rb
    else (rb.dynamicChangeRingBufSize vmalloc bytes.length).copyFromLinearImpl linear

/-- `audio_ringbuf_write_value`. -/
def writeValue (value : BitVec 8) (count : Nat) : AudioRingbuf :=
  if count = 0 then rb
  else
    let rb := rb.dynamicChangeRingBufSize vmalloc count
    if rb.noInit then rb
    else if rb.freeSpace < count then rb
    else rb.append (replicate count value)

/-- `audio_ringbuf_drop_data`. -/
def dropData (count : Nat) : AudioRingbuf :=
  if count = 0 then rb
  else if rb.count < count then rb
  else { rb with read := rb.readAfter count }

/-- `audio_ringbuf_compensate_value_impl`. -/
def compensateValueImpl (value : BitVec 8) (count : Nat) : AudioRingbuf :=
  if count = 0 then rb
  else if rb.noInit then rb
  else if rb.freeSpace < count then rb
  else if rb.read ≤ rb.write then
    let b2r := rb.read
    if count ≤ b2r then
      { rb with
        read := rb.read - count
        memory := splice rb.memory (rb.read - count) (replicate count value) }
    else if 0 < b2r then
      let leftData := count - b2r
      { rb with
        read := rb.size - leftData
        memory :=
          splice (splice rb.memory 0 (replicate b2r value))
            (rb.size - leftData) (replicate leftData value) }
    else
      { rb with
        read := rb.size - count
        memory := splice rb.memory (rb.size - count) (replicate count value) }
  else
    { rb with
      read := rb.read - count
      memory := splice rb.memory (rb.read - count) (replicate count value) }

/-- `audio_ringbuf_compensate_value`. -/
def compensateValue (value : BitVec 8) (count : Nat) : AudioRingbuf :=
  if count = 0 then rb
  else (rb.dynamicChangeRingBufSize vmalloc count).compensateValueImpl value count

end AudioRingbuf

/-- `audio_ringbuf_copy_from_ringbuf`. -/
def copyFromRingbuf {κ : Type*} [DecidableEq κ] (vmalloc : Vmalloc) (store : κ → AudioRingbuf)
    (des src : κ) (count : Nat) : κ → AudioRingbuf :=
  if count = 0 then store
  else if (store src).noInit then store
  else if (store src).count < count then store
  else
    copyFromRingbufImpl (update store des
        ((store des).dynamicChangeRingBufSize vmalloc count)) des src count

end EchoKernel.Ringbuf
