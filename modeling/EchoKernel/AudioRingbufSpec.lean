import EchoKernel.AudioRingbuf

namespace EchoKernel.Ringbuf

open CircularWindow List AudioRingbuf

/-!
# What the operations of a ring buffer do

A valid buffer holds a window of its memory. Bytes are added at both ends of
the window and taken from its front.
-/

/-- Both pointers are inside of the memory. -/
structure Valid (rb : AudioRingbuf) : Prop where
  hasBase : rb.hasBase = true
  sized : rb.memory.length = rb.size
  readInside : rb.read < rb.size
  writeInside : rb.write < rb.size

/-- The bytes of a buffer, the oldest one first. -/
def AudioRingbuf.contents (rb : AudioRingbuf) : List (BitVec 8) := window rb.memory rb.read rb.count

variable {rb : AudioRingbuf} {bytes : List (BitVec 8)} {count : Nat}

theorem Valid.noInit (valid : Valid rb) : rb.noInit = false := by
  have inside := valid.readInside
  simp only [AudioRingbuf.noInit, valid.hasBase, Bool.not_true, Bool.false_or, beq_eq_false_iff_ne]
  omega

theorem Valid.count_eq
    (valid : Valid rb) :
    rb.count = if rb.read ≤ rb.write then rb.write - rb.read
    else rb.size - (rb.read - rb.write) := by
  have readInside := valid.readInside
  rw [AudioRingbuf.count, valid.noInit]
  simp only [Bool.false_eq_true, if_false]
  split
  · rfl
  · rw [if_pos (by omega)]

theorem Valid.count_lt (valid : Valid rb) : rb.count < rb.size := by
  have writeInside := valid.writeInside
  rw [valid.count_eq]
  split
  · omega
  · omega

theorem Valid.write_eq (valid : Valid rb) : rb.write = wrap rb.size (rb.read + rb.count) := by
  have readInside := valid.readInside
  have writeInside := valid.writeInside
  rw [valid.count_eq, wrap]
  repeat' split
  all_goals omega

/-- A buffer with some bytes between its pointers. -/
theorem count_of_write
    {next : AudioRingbuf}
    (valid : Valid next)
    (few : count < next.size)
    (isWrite : next.write = wrap next.size (next.read + count)) :
    next.count = count := by
  rw [valid.count_eq]
  unfold wrap at isWrite
  split at isWrite
  all_goals
    split
    all_goals omega

theorem Valid.room_of_freeSpace
    (valid : Valid rb)
    (fits : count ≤ rb.freeSpace)
    (some : 0 < count) :
    rb.count + count + 16 ≤ rb.size := by
  have few := valid.count_lt
  rw [freeSpace, valid.noInit, maxSizeOfOneFrame] at fits
  simp only [Bool.false_eq_true, if_false, if_pos few] at fits
  split at fits
  · omega
  · omega

theorem Valid.freeSpace_of_room
    (valid : Valid rb)
    (room : rb.count + count + 16 ≤ rb.size) :
    count ≤ rb.freeSpace := by
  have few := valid.count_lt
  rw [freeSpace, valid.noInit, maxSizeOfOneFrame]
  simp only [Bool.false_eq_true, if_false, if_pos few]
  split
  · omega
  · omega

theorem length_contents : rb.contents.length = rb.count := by
  simp [contents]

section
variable (valid : Valid rb)
include valid

theorem Valid.readAfter_eq
    (few : count ≤ rb.count) :
    rb.readAfter count = wrap rb.size (rb.read + count) := by
  have readInside := valid.readInside
  have writeInside := valid.writeInside
  rw [valid.count_eq] at few
  unfold readAfter wrap
  split at few
  case isTrue ordered => rw [if_pos ordered, if_pos (by omega)]
  case isFalse wrapped =>
    repeat' split
    all_goals omega

theorem Valid.taken
    (few : count ≤ rb.count) :
    Valid { rb with read := wrap rb.size (rb.read + count) } ∧
      ({ rb with read := wrap rb.size (rb.read + count) } :
        AudioRingbuf).contents = rb.contents.drop count := by
  have readInside := valid.readInside
  have less := valid.count_lt
  have moved : Valid { rb with read := wrap rb.size (rb.read + count) } := by
    refine ⟨valid.hasBase, valid.sized, ?_, valid.writeInside⟩
    dsimp only
    unfold wrap
    split
    · omega
    · omega
  have counted : ({ rb with read := wrap rb.size (rb.read + count) } :
        AudioRingbuf).count = rb.count - count := by
    refine count_of_write moved (by dsimp only; omega) ?_
    have isWrite := valid.write_eq
    dsimp only
    rw [isWrite]
    unfold wrap
    repeat' split
    all_goals omega
  refine ⟨moved, ?_⟩
  rw [contents, counted, contents,
    drop_window (by rw [valid.sized]; exact readInside) few
      (by rw [valid.sized]; omega), valid.sized]

/-- The bytes that are copied out are the oldest ones. -/
theorem Valid.bytesToLinear_eq
    (few : count ≤ rb.count) :
    rb.bytesToLinear count = rb.contents.take count := by
  have readInside := valid.readInside
  have writeInside := valid.writeInside
  have sized := valid.sized
  rw [contents, take_window few]
  rw [valid.count_eq] at few
  unfold bytesToLinear
  split at few
  case isTrue ordered => rw [if_pos ordered, slice_eq_window (by omega)]
  case isFalse wrapped =>
    rw [if_neg wrapped]
    split
    case isTrue => rw [slice_eq_window (by omega)]
    case isFalse =>
      rw [← sized, slice_append_slice (by omega) (by omega) (by omega)]

/-- Write pointer and memory after fitting bytes. -/
theorem Valid.append_eq
    (room : rb.count + bytes.length < rb.size) :
    rb.append bytes = { rb with
        memory := writeWrapped rb.memory rb.write bytes
        write := wrap rb.size (rb.write + bytes.length) } := by
  have readInside := valid.readInside
  have writeInside := valid.writeInside
  have sized := valid.sized
  rw [valid.count_eq] at room
  unfold append
  split at room
  case isTrue ordered =>
    rw [if_pos ordered]
    dsimp only
    split
    case isTrue fits =>
      have wraps : wrap rb.size (rb.write + bytes.length) =
          if rb.write + bytes.length = rb.size then 0 else rb.write + bytes.length := by
        unfold wrap
        repeat' split
        all_goals omega
      have fills : writeWrapped rb.memory rb.write bytes = splice rb.memory rb.write bytes := by
        rw [writeWrapped, if_pos (by omega)]
      rw [wraps, fills]
    case isFalse past =>
      have wraps : wrap rb.size (rb.write + bytes.length) =
          bytes.length - (rb.size - rb.write) := by
        unfold wrap
        split
        · omega
        · omega
      rw [writeWrapped, if_neg (by omega), sized, wraps]
  case isFalse wrapped =>
    rw [if_neg wrapped, writeWrapped, if_pos (by omega), wrap, if_pos (by omega)]

/-- Bytes that fit are added behind the others. -/
theorem Valid.appended
    (room : rb.count + bytes.length < rb.size) :
    Valid (rb.append bytes) ∧ (rb.append bytes).contents = rb.contents ++ bytes ∧
    (rb.append bytes).read = rb.read ∧ (rb.append bytes).size = rb.size := by
  have readInside := valid.readInside
  have writeInside := valid.writeInside
  have sized := valid.sized
  have isWrite := valid.write_eq
  rw [valid.append_eq room]
  have length : (writeWrapped rb.memory rb.write bytes).length = rb.size := by
    rw [length_writeWrapped (by omega) (by omega), sized]
  have moved : Valid { rb with
          memory := writeWrapped rb.memory rb.write bytes
          write := wrap rb.size (rb.write + bytes.length) } := by
    refine ⟨valid.hasBase, length, readInside, ?_⟩
    dsimp only
    unfold wrap
    split
    · omega
    · omega
  have counted : ({ rb with
          memory := writeWrapped rb.memory rb.write bytes
          write := wrap rb.size (rb.write + bytes.length) } :
        AudioRingbuf).count = rb.count + bytes.length := by
    refine count_of_write moved room ?_
    dsimp only
    rw [isWrite]
    unfold wrap
    repeat' split
    all_goals omega
  refine ⟨moved, ?_, rfl, rfl⟩
  rw [contents, counted, contents]
  dsimp only
  rw [window_append (by omega) (by omega) (by rw [sized]; exact isWrite) (by omega)]

theorem Valid.copyFromLinearImpl_eq
    (fits : bytes.length ≤ rb.freeSpace)
    (some : 0 < bytes.length) :
    rb.copyFromLinearImpl (.some bytes) = rb.append bytes := by
  simp only [copyFromLinearImpl, valid.noInit]
  rw [if_neg (by omega), if_neg (by simp), if_neg (by omega)]

end

/-- The read pointer before a number of bytes. -/
def AudioRingbuf.readBefore (rb : AudioRingbuf) (count : Nat) : Nat :=
  if count ≤ rb.read then rb.read - count else rb.read + rb.size - count

section
variable {value : BitVec 8} (valid : Valid rb) (fits : count ≤ rb.freeSpace) (some : 0 < count)
include valid fits some

/-- Read pointer and memory after a value was put before. -/
theorem Valid.compensateValueImpl_eq :
    rb.compensateValueImpl value count = { rb with
        memory := writeWrapped rb.memory (rb.readBefore count) (replicate count value)
        read := rb.readBefore count } := by
  have readInside := valid.readInside
  have sized := valid.sized
  have room := valid.room_of_freeSpace fits some
  rw [valid.count_eq] at room
  simp only [compensateValueImpl, valid.noInit, AudioRingbuf.readBefore]
  rw [if_neg (by omega), if_neg (by simp), if_neg (by omega)]
  split at room
  case isTrue ordered =>
    rw [if_pos ordered]
    split
    case isTrue before => rw [writeWrapped, if_pos (by rw [length_replicate]; omega)]
    case isFalse before =>
      split
      case isTrue nonzero =>
        have start : rb.size - (count - rb.read) = rb.read + rb.size - count := by omega
        have tail : rb.memory.length - (rb.read + rb.size - count) = count - rb.read := by omega
        rw [writeWrapped, if_neg (by rw [length_replicate]; omega), tail,
          take_replicate, drop_replicate, start, Nat.min_eq_left (by omega),
          splice_comm (by rw [length_replicate]; omega) (by rw [length_replicate]; omega),
          show count - (count - rb.read) = rb.read by omega]
      case isFalse atBase =>
        have isZero : rb.read = 0 := by omega
        rw [isZero, Nat.zero_add, writeWrapped, if_pos (by rw [length_replicate]; omega)]
  case isFalse wrapped =>
    rw [if_neg wrapped, if_pos (by omega), writeWrapped, if_pos (by rw [length_replicate]; omega)]

/-- A value that fits is put before the other bytes. -/
theorem Valid.compensated :
    Valid (rb.compensateValueImpl value count) ∧
    (rb.compensateValueImpl value count).contents = replicate count value ++ rb.contents := by
  have readInside := valid.readInside
  have writeInside := valid.writeInside
  have sized := valid.sized
  have isWrite := valid.write_eq
  have room := valid.room_of_freeSpace fits some
  have inside : rb.readBefore count < rb.size := by
    unfold AudioRingbuf.readBefore
    split
    · omega
    · omega
  rw [valid.compensateValueImpl_eq fits some]
  have length : (writeWrapped rb.memory (rb.readBefore count)
      (replicate count value)).length = rb.size := by
    rw [length_writeWrapped (by omega) (by rw [length_replicate]; omega), sized]
  have moved : Valid { rb with
          memory := writeWrapped rb.memory (rb.readBefore count) (replicate count value)
          read := rb.readBefore count } :=
    ⟨valid.hasBase, length, inside, writeInside⟩
  have counted : ({ rb with
          memory := writeWrapped rb.memory (rb.readBefore count) (replicate count value)
          read := rb.readBefore count } : AudioRingbuf).count =
        rb.count + count := by
    refine count_of_write moved (by dsimp only; omega) ?_
    dsimp only
    rw [isWrite]
    unfold wrap AudioRingbuf.readBefore
    repeat' split
    all_goals omega
  refine ⟨moved, ?_⟩
  have extended := @window_prepend _ rb.memory (replicate count value) rb.read
    (rb.readBefore count) rb.count _ (by omega) (by rw [length_replicate]; omega) (by
      rw [length_replicate]
      unfold wrap AudioRingbuf.readBefore
      repeat' split
      all_goals omega)
    (by omega)
  rw [length_replicate] at extended
  rw [contents, counted]
  exact extended

end

end EchoKernel.Ringbuf
