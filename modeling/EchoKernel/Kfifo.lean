import EchoKernel.CircularWindow

namespace EchoKernel.KernelFifo

open CircularWindow BitVec List Nat

/-!
# Byte queues with records

The record functions of `kfifo.c`. The indices run freely modulo 2³² and are
masked for accesses. A record has its length in front of it, in one or two
bytes.
-/

/-- `struct __kfifo`. -/
structure Kfifo where
  inIndex : BitVec 32
  outIndex : BitVec 32
  mask : BitVec 32
  esize : BitVec 32
  data : List (BitVec 8)
deriving Repr, DecidableEq

section
variable (fifo : Kfifo)

/-- `kfifo_unused`. -/
def kfifoUnused : BitVec 32 := (fifo.mask + 1) - (fifo.inIndex - fifo.outIndex)

/-- A number of elements, in bytes. -/
def Kfifo.scaled (count : BitVec 32) : BitVec 32 :=
  if fifo.esize ≠ 1 then count * fifo.esize else count

/-- How many bytes are copied before the data's end. -/
def Kfifo.beforeEnd (len off : BitVec 32) : BitVec 32 :=
  let space := fifo.scaled (fifo.mask + 1) - fifo.scaled (off &&& fifo.mask)
  if fifo.scaled len ≤ space then fifo.scaled len else space

/-- `kfifo_copy_in`. -/
def kfifoCopyIn (src : List (BitVec 8)) (len off : BitVec 32) : Kfifo :=
  let l := fifo.beforeEnd len off
  let start := (fifo.scaled (off &&& fifo.mask)).toNat
  { fifo with
    data :=
      splice (splice fifo.data start (src.take l.toNat)) 0
        ((src.drop l.toNat).take (fifo.scaled len - l).toNat) }

/-- The bytes that `kfifo_copy_out` copies. -/
def kfifoCopyOut (len off : BitVec 32) : List (BitVec 8) :=
  let l := fifo.beforeEnd len off
  let start := (fifo.scaled (off &&& fifo.mask)).toNat
  slice fifo.data start l.toNat ++ slice fifo.data 0 (fifo.scaled len - l).toNat

def kfifoPeek (data : List (BitVec 8)) (out mask : BitVec 32) : BitVec 8 :=
  data.getD (out &&& mask).toNat default

/-- `__kfifo_peek_n`. -/
def kfifoPeekN (recsize : BitVec 32) : BitVec 32 :=
  let l := (kfifoPeek fifo.data fifo.outIndex fifo.mask).setWidth 32
  if recsize - 1 ≠ 0 then
    l ||| (kfifoPeek fifo.data (fifo.outIndex + 1) fifo.mask).setWidth 32 <<< 8
  else l

def kfifoPoke (data : List (BitVec 8)) (index mask val : BitVec 32) : List (BitVec 8) :=
  splice data (index &&& mask).toNat [val.setWidth 8]

/-- `__kfifo_poke_n`. -/
def kfifoPokeN (n recsize : BitVec 32) : Kfifo :=
  let data := kfifoPoke fifo.data fifo.inIndex fifo.mask n
  { fifo with
    data :=
      if 1 < recsize then kfifoPoke data (fifo.inIndex + 1) fifo.mask (n >>> 8)
      else data }

/-- `__kfifo_in_r`; the length is that of the bytes. -/
def kfifoInR (buf : List (BitVec 8)) (recsize : BitVec 32) : Kfifo × BitVec 32 :=
  let len := BitVec.ofNat 32 buf.length
  if kfifoUnused fifo < len + recsize then (fifo, 0)
  else
    let fifo := kfifoPokeN fifo len recsize
    let fifo := kfifoCopyIn fifo buf len (fifo.inIndex + recsize)
    ({ fifo with inIndex := fifo.inIndex + (len + recsize) }, len)

/-- `kfifo_out_copy_r`: the bytes and the length of the record. -/
def kfifoOutCopyR (len recsize : BitVec 32) : List (BitVec 8) × BitVec 32 × BitVec 32 :=
  let n := kfifoPeekN fifo recsize
  let len := if n < len then n else len
  (kfifoCopyOut fifo len (fifo.outIndex + recsize), len, n)

/-- `__kfifo_out_r`: the copied bytes and their number. -/
def kfifoOutR (len recsize : BitVec 32) : Kfifo × List (BitVec 8) × BitVec 32 :=
  if fifo.inIndex = fifo.outIndex then (fifo, [], 0)
  else
    let copied := kfifoOutCopyR fifo len recsize
    ({ fifo with outIndex := fifo.outIndex + (copied.2.2 + recsize) }, copied.1, copied.2.1)

/-- `__kfifo_skip_r`. -/
def kfifoSkipR (recsize : BitVec 32) : Kfifo :=
  { fifo with outIndex := fifo.outIndex + (kfifoPeekN fifo recsize + recsize) }

end

section
variable {fifo : Kfifo} {order : Nat} {len off : BitVec 32} {src : List (BitVec 8)}

/-- A queue of bytes whose size is a power of two. -/
structure Sized (fifo : Kfifo) (order : Nat) : Prop where
  isMask : fifo.mask.toNat = 2 ^ order - 1
  isLength : fifo.data.length = 2 ^ order
  isBytes : fifo.esize = 1
  atLeast : 1 ≤ order
  atMost : order ≤ 31

theorem splice_nil {α : Type*} {memory : List α} : splice memory 0 [] = memory := rfl

section
variable (sized : Sized fifo order)
include sized

theorem Sized.bounds : 2 ≤ 2 ^ order ∧ 2 ^ order ≤ 2 ^ 31 :=
  ⟨Nat.pow_le_pow_right Nat.two_pos sized.atLeast, Nat.pow_le_pow_right Nat.two_pos sized.atMost⟩

theorem Sized.toNat_and
    (index : BitVec 32) :
    (index &&& fifo.mask).toNat = index.toNat % fifo.data.length := by
  rw [BitVec.toNat_and, sized.isMask, and_two_pow_sub_one_eq_mod, sized.isLength]

theorem Sized.toNat_size : (fifo.mask + 1).toNat = fifo.data.length := by
  have bounds := sized.bounds
  rw [toNat_add, sized.isMask, sized.isLength]
  change (2 ^ order - 1 + 1) % 2 ^ 32 = _
  omega

theorem Sized.scaled (count : BitVec 32) : fifo.scaled count = count := by
  rw [Kfifo.scaled, sized.isBytes, if_neg (by decide)]

theorem Sized.mod_lt (index : BitVec 32) : index.toNat % fifo.data.length < fifo.data.length := by
  have bounds := sized.bounds
  rw [sized.isLength]
  exact Nat.mod_lt _ (by omega)

theorem Sized.toNat_beforeEnd :
    (fifo.beforeEnd len off).toNat =
    min len.toNat (fifo.data.length - off.toNat % fifo.data.length) := by
  have bounds := sized.bounds
  have isSpace : (fifo.mask + 1 - (off &&& fifo.mask)).toNat =
      fifo.data.length - off.toNat % fifo.data.length := by
    rw [toNat_sub, sized.toNat_size, sized.toNat_and, sized.isLength]
    omega
  rw [Kfifo.beforeEnd, sized.scaled, sized.scaled, sized.scaled]
  by_cases fits : len ≤ fifo.mask + 1 - (off &&& fifo.mask)
  · rw [if_pos fits]
    rw [le_def] at fits
    omega
  · rw [if_neg fits]
    rw [le_def] at fits
    omega

theorem Sized.toNat_rest :
    (len - fifo.beforeEnd len off).toNat = len.toNat - (fifo.beforeEnd len off).toNat := by
  have isCount := @Sized.toNat_beforeEnd fifo order len off sized
  rw [toNat_sub]
  omega

/-- The two copies are one write that wraps. -/
theorem Sized.data_copyIn
    (isLength : src.length = len.toNat) :
    (kfifoCopyIn fifo src len off).data =
    writeWrapped fifo.data (off.toNat % fifo.data.length) src := by
  rw [kfifoCopyIn]
  rw [sized.scaled, sized.scaled, sized.toNat_and, sized.toNat_rest, sized.toNat_beforeEnd,
    writeWrapped]
  by_cases straight : off.toNat % fifo.data.length + src.length ≤ fifo.data.length
  · rw [if_pos straight, Nat.min_eq_left (by omega),
      take_of_length_le (by omega), Nat.sub_self, take_zero, splice_nil]
  have isAll : (src.drop (fifo.data.length - off.toNat % fifo.data.length)).take (len.toNat -
      (fifo.data.length - off.toNat % fifo.data.length)) =
      src.drop (fifo.data.length - off.toNat % fifo.data.length) :=
    take_of_length_le (by rw [length_drop]; omega)
  rw [if_neg straight, Nat.min_eq_right (by omega), isAll]

/-- The two copies are one window that wraps. -/
theorem Sized.copyOut_eq
    (fits : len.toNat ≤ fifo.data.length) :
    kfifoCopyOut fifo len off = window fifo.data (off.toNat % fifo.data.length) len.toNat := by
  have inside := sized.mod_lt off
  rw [kfifoCopyOut, sized.scaled, sized.scaled, sized.toNat_and, sized.toNat_rest,
    sized.toNat_beforeEnd]
  by_cases straight : off.toNat % fifo.data.length + len.toNat ≤ fifo.data.length
  · rw [Nat.min_eq_left (by omega), slice_eq_window straight, Nat.sub_self]
    exact append_nil _
  · rw [Nat.min_eq_right (by omega), slice_append_slice inside (by omega) fits]

end

end

variable {fifo : Kfifo} {order : Nat} {bytes values front rest : List (BitVec 8)}

/-- The bytes between both indices. -/
structure Content (fifo : Kfifo) (bytes : List (BitVec 8)) : Prop where
  isCount : (fifo.inIndex - fifo.outIndex).toNat = bytes.length
  fits : bytes.length ≤ fifo.data.length
  isWindow : window fifo.data (fifo.outIndex.toNat % fifo.data.length) bytes.length = bytes

/-- An index a few bytes further wraps once at most. -/
theorem Sized.mod_add
    (sized : Sized fifo order)
    (index : BitVec 32)
    {count : Nat}
    (fits : count ≤ fifo.data.length) :
    (index + BitVec.ofNat 32 count).toNat % fifo.data.length =
    wrap fifo.data.length (index.toNat % fifo.data.length + count) := by
  have divides : fifo.data.length ∣ 2 ^ 32 := by
    have atMost := sized.atMost
    rw [sized.isLength]
    exact Nat.pow_dvd_pow 2 (by omega)
  have inside := sized.mod_lt index
  rw [toNat_add, toNat_ofNat, add_mod_mod, mod_mod_of_dvd _ divides, ← mod_add_mod, wrap]
  split
  case isTrue small => exact mod_eq_of_lt small
  case isFalse large =>
    rw [mod_eq_sub_mod (by omega)]
    exact mod_eq_of_lt (by omega)

theorem Content.inIndex_eq
    (content : Content fifo bytes) :
    fifo.inIndex = fifo.outIndex + BitVec.ofNat 32 bytes.length := by
  rw [← content.isCount, ofNat_toNat, setWidth_eq, BitVec.add_comm, BitVec.sub_add_cancel]

theorem Content.mod_inIndex
    (content : Content fifo bytes)
    (sized : Sized fifo order) :
    fifo.inIndex.toNat % fifo.data.length =
    wrap fifo.data.length (fifo.outIndex.toNat % fifo.data.length + bytes.length) := by
  rw [content.inIndex_eq]
  exact sized.mod_add _ content.fits

theorem Content.toNat_unused
    (content : Content fifo bytes)
    (sized : Sized fifo order) :
    (kfifoUnused fifo).toNat = fifo.data.length - bytes.length := by
  have fits := content.fits
  have bounds := sized.bounds
  rw [kfifoUnused, toNat_sub, sized.toNat_size, content.isCount]
  rw [sized.isLength] at fits ⊢
  omega

/-- The queue after values are written at its end. -/
def Kfifo.extended (fifo : Kfifo) (values : List (BitVec 8)) : Kfifo :=
  { fifo with
    data := writeWrapped fifo.data (fifo.inIndex.toNat % fifo.data.length) values
    inIndex := fifo.inIndex + BitVec.ofNat 32 values.length }

theorem Sized.extended
    (sized : Sized fifo order)
    (fits : values.length ≤ fifo.data.length) :
    Sized (fifo.extended values) order := by
  have inside := sized.mod_lt fifo.inIndex
  refine ⟨sized.isMask, ?_, sized.isBytes, sized.atLeast, sized.atMost⟩
  rw [Kfifo.extended]
  rw [length_writeWrapped (Nat.le_of_lt inside) fits, sized.isLength]

/-- Values that fit are written behind the content. -/
theorem Content.extended
    (content : Content fifo bytes)
    (sized : Sized fifo order)
    (room : bytes.length + values.length ≤ fifo.data.length) :
    Content (fifo.extended values) (bytes ++ values) := by
  have inside := sized.mod_lt fifo.inIndex
  have bounds := sized.bounds
  have isLength : (fifo.extended values).data.length = fifo.data.length :=
    length_writeWrapped (Nat.le_of_lt inside) (by omega)
  refine ⟨?_, ?_, ?_⟩
  · rw [Kfifo.extended]
    rw [content.inIndex_eq, BitVec.add_assoc, BitVec.add_comm,
      BitVec.add_sub_cancel, ← ofNat_add, toNat_ofNat, length_append]
    rw [sized.isLength] at room
    omega
  · rw [isLength, length_append]
    exact room
  rw [isLength, length_append]
  have appended :=
    window_append (sized.mod_lt fifo.outIndex) room (content.mod_inIndex sized) inside
  rw [content.isWindow] at appended
  exact appended

theorem Content.window_eq
    (content : Content fifo bytes)
    (sized : Sized fifo order)
    {before count : Nat}
    (inside : before + count ≤ bytes.length) :
    window fifo.data ((fifo.outIndex + BitVec.ofNat 32 before).toNat % fifo.data.length) count =
    (bytes.drop before).take count := by
  have fits := content.fits
  have dropped := @drop_window _ fifo.data (fifo.outIndex.toNat % fifo.data.length)
    bytes.length _ before (sized.mod_lt _) (by omega) fits
  rw [content.isWindow] at dropped
  rw [sized.mod_add _ (by omega), dropped, take_window (by omega)]

/-- Bytes at the front are given up. -/
theorem Content.advanced
    (content : Content fifo (front ++ rest))
    (sized : Sized fifo order) :
    Content { fifo with outIndex := fifo.outIndex + BitVec.ofNat 32 front.length } rest := by
  have fits := content.fits
  have bounds := sized.bounds
  rw [length_append] at fits
  refine ⟨?_, ?_, ?_⟩
  · have isIn := content.inIndex_eq
    rw [length_append, ofNat_add, ← BitVec.add_assoc] at isIn
    rw [isIn, BitVec.add_comm, BitVec.add_sub_cancel, toNat_ofNat]
    rw [sized.isLength] at fits
    omega
  · dsimp only
    omega
  · rw [content.window_eq sized (Nat.le_of_eq length_append.symm), drop_left, take_length]

end EchoKernel.KernelFifo
