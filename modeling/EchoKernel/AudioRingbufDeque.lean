import EchoKernel.AudioRingbufSpec

namespace EchoKernel.Ringbuf

open CircularWindow Function List Bool

/-!
# Ring buffers as queues of bytes

The calls do to the bytes of ring buffers what operations on lists that grow
at both ends do. A change of the size inside a call keeps the bytes.
-/

/-- A buffer holds a list of bytes. -/
structure Represents (rb : AudioRingbuf) (deque : List (BitVec 8)) : Prop where
  valid : Valid rb
  contents : rb.contents = deque

variable {rb : AudioRingbuf} {deque : List (BitVec 8)}

section
variable {bytes : List (BitVec 8)} {count : Nat}
variable (represents : Represents rb deque)
include represents

theorem Represents.count_eq : rb.count = deque.length := by
  rw [← represents.contents, length_contents]

theorem Represents.append
    (fits : bytes.length ≤ rb.freeSpace)
    (some : 0 < bytes.length) :
    Represents (rb.append bytes) (deque ++ bytes) ∧ (rb.append bytes).read = rb.read ∧
    (rb.append bytes).size = rb.size := by
  have room := represents.valid.room_of_freeSpace fits some
  obtain ⟨valid, contents, read, size⟩ := @Valid.appended rb bytes represents.valid (by omega)
  rw [represents.contents] at contents
  exact ⟨⟨valid, contents⟩, read, size⟩

theorem Represents.take
    (few : count ≤ deque.length) :
    Represents { rb with read := wrap rb.size (rb.read + count) } (deque.drop count) := by
  have enough : count ≤ rb.count := by
    rw [represents.count_eq]
    exact few
  obtain ⟨valid, contents⟩ := represents.valid.taken enough
  rw [represents.contents] at contents
  exact ⟨valid, contents⟩

/-- The bytes at the start of the memory when a buffer wraps. -/
theorem Represents.slice_zero
    (few : rb.size - rb.read + count ≤ deque.length) :
    slice rb.memory 0 count = (deque.drop (rb.size - rb.read)).take count := by
  have valid := represents.valid
  have readInside := valid.readInside
  have sized := valid.sized
  have less := valid.count_lt
  rw [← represents.count_eq] at few
  have atZero : wrap rb.memory.length (rb.read + (rb.size - rb.read)) = 0 := by
    unfold wrap
    split
    · omega
    · omega
  rw [← represents.contents, AudioRingbuf.contents,
    drop_window (by omega) (by omega) (by omega), atZero,
    take_window (by omega), slice_eq_window (by omega)]

end

section
variable {κ : Type*} [DecidableEq κ] {store : κ → AudioRingbuf}
variable {deques : κ → List (BitVec 8)} {des src : κ} {count : Nat}
variable {bytes : List (BitVec 8)}

/-- Every buffer holds its list of bytes. -/
def Refines (store : κ → AudioRingbuf) (deques : κ → List (BitVec 8)) : Prop :=
  ∀ key, Represents (store key) (deques key)

theorem Refines.update
    {key : κ}
    {rb : AudioRingbuf}
    {deque : List (BitVec 8)}
    (refines : Refines store deques)
    (represents : Represents rb deque) :
    Refines (update store key rb) (update deques key deque) := by
  intro other
  by_cases same : other = key
  · rw [same, update_self, update_self]
    exact represents
  · rw [update_of_ne same, update_of_ne same]
    exact refines other

/-- The pointers that a copy into a buffer keeps. -/
theorem Refines.copyBytes
    (refines : Refines store deques)
    (fits : bytes.length ≤ (store des).freeSpace)
    (some : 0 < bytes.length) :
    Refines (Ringbuf.copyBytes store des bytes) (Function.update deques des (deques des ++ bytes)) ∧
    ∀ key, (Ringbuf.copyBytes store des bytes key).read = (store key).read ∧
    (Ringbuf.copyBytes store des bytes key).size = (store key).size := by
  obtain ⟨represents, read, size⟩ := (refines des).append fits some
  rw [Ringbuf.copyBytes, (refines des).valid.copyFromLinearImpl_eq fits some]
  refine ⟨refines.update represents, ?_⟩
  intro key
  by_cases same : key = des
  · rw [same, update_self]
    exact ⟨read, size⟩
  · rw [update_of_ne same]
    exact ⟨rfl, rfl⟩

theorem Refines.setRead
    {read : Nat}
    (refines : Refines store deques)
    (few : count ≤ (deques src).length)
    (isRead : read = wrap (store src).size ((store src).read + count)) :
    Refines (Ringbuf.setRead store src read)
    (Function.update deques src ((deques src).drop count)) := by
  rw [isRead]
  exact refines.update ((refines src).take few)

/-- The lists after bytes moved from the front of one to another. -/
def moveBytes (deques : κ → List (BitVec 8)) (des src : κ) (count : Nat) : κ → List (BitVec 8) :=
  let filled := update deques des (deques des ++ (deques src).take count)
  update filled src ((filled src).drop count)

theorem le_length_filled
    (few : count ≤ (deques src).length) :
    count ≤ (update deques des (deques des ++ bytes) src).length := by
  by_cases isDes : src = des
  · rw [isDes, update_self, length_append, ← isDes]
    omega
  · rw [update_of_ne isDes]
    exact few

theorem size_setRead
    {read : Nat}
    (key : κ) :
    (Ringbuf.setRead store src read key).size = (store key).size := by
  rw [Ringbuf.setRead]
  by_cases isSrc : key = src
  · rw [isSrc, update_self]
  · rw [update_of_ne isSrc]

section
variable (refines : Refines store deques) (fits : count ≤ (store des).freeSpace)
  (few : count ≤ (deques src).length)
include refines fits few

/-- Bytes that are copied in one piece. -/
theorem Refines.copyOnce
    {read : Nat}
    (some : 0 < count)
    (isBytes : bytes = (deques src).take count)
    (isRead : read = wrap (store src).size ((store src).read + count)) :
    Refines
    (Ringbuf.setRead (Ringbuf.copyBytes store des bytes) src read)
    (moveBytes deques des src count) ∧ ∀ key,
    (Ringbuf.setRead (Ringbuf.copyBytes store des bytes) src read key).size = (store key).size := by
  subst isBytes
  have length : ((deques src).take count).length = count := by
    rw [length_take, Nat.min_eq_left few]
  obtain ⟨filled, same⟩ := refines.copyBytes (by rwa [length]) (by rwa [length])
  refine ⟨filled.setRead (le_length_filled few) ?_, ?_⟩
  · rw [(same src).1, (same src).2]
    exact isRead
  · intro key
    exact (size_setRead key).trans (same key).2

/-- Bytes copied in two pieces, as they wrap in their buffer. -/
theorem Refines.copyTwice {read : Nat}
    (past : (store src).size - (store src).read < count) (isFirst : bytes =
        (deques src).take ((store src).size - (store src).read))
    (isRead : read = wrap (store src).size ((store src).read + count)) :
    let r2e := (store src).size - (store src).read
    let first := Ringbuf.copyBytes store des bytes
    let second := Ringbuf.copyBytes first des (slice (first src).memory 0 (count - r2e))
    Refines (Ringbuf.setRead second src read) (moveBytes deques des src count) ∧ ∀ key,
        (Ringbuf.setRead second src read key).size = (store key).size := by
  intro r2e first second
  have inside := (refines src).valid.readInside
  have room := (refines des).valid.room_of_freeSpace fits (by omega)
  have length : bytes.length = r2e := by rw [isFirst, length_take, Nat.min_eq_left (by omega)]
  have firstFits : bytes.length ≤ (store des).freeSpace :=
    (refines des).valid.freeSpace_of_room (by omega)
  obtain ⟨filled, same⟩ := Refines.copyBytes refines firstFits (by omega)
  have longer : count ≤ (Function.update deques des (deques des ++ bytes) src).length :=
    le_length_filled few
  have front : (Function.update deques des (deques des ++ bytes) src).take count =
      (deques src).take count := by
    by_cases isDes : src = des
    · rw [isDes, update_self, take_append_of_le_length]
      rwa [← isDes]
    · rw [update_of_ne isDes]
  have isSecond : slice (first src).memory 0 (count - r2e) =
      ((deques src).take count).drop r2e := by
    have found := @Represents.slice_zero _ _ (count - r2e) (filled src)
      (by rw [(same src).1, (same src).2]; omega)
    rw [(same src).1, (same src).2] at found
    rw [found, ← front, take_drop]
    congr 2
    omega
  have secondLength : (((deques src).take count).drop r2e).length = count - r2e := by
    rw [length_drop, length_take, Nat.min_eq_left few]
  have secondFits : (((deques src).take count).drop r2e).length ≤ (first des).freeSpace := by
    refine (filled des).valid.freeSpace_of_room ?_
    rw [(filled des).count_eq, update_self, (same des).2, length_append, ← (refines des).count_eq]
    omega
  have both : bytes ++ ((deques src).take count).drop r2e = (deques src).take count := by
    rw [isFirst, ← Nat.min_eq_left (Nat.le_of_lt past), ← take_take]
    exact take_append_drop r2e _
  obtain ⟨completed, kept⟩ := filled.copyBytes secondFits (by omega)
  rw [update_idem, update_self, append_assoc, both] at completed
  have isCopied : second = Ringbuf.copyBytes first des (((deques src).take count).drop r2e) :=
    congrArg (Ringbuf.copyBytes first des) isSecond
  rw [isCopied]
  refine ⟨completed.setRead (le_length_filled few) ?_, ?_⟩
  · rw [(kept src).1, (kept src).2, (same src).1, (same src).2]
    exact isRead
  · intro key
    exact (size_setRead key).trans ((kept key).2.trans (same key).2)

/-- Bytes that are there and fit are moved. -/
theorem Refines.copyFromRingbufImpl
    (some : 0 < count) :
    Refines (Ringbuf.copyFromRingbufImpl store des src count) (moveBytes deques des src count) ∧
    ∀ key, (Ringbuf.copyFromRingbufImpl store des src count key).size = (store key).size := by
  have valid := (refines src).valid
  have enough : count ≤ (store src).count := by
    rw [(refines src).count_eq]
    exact few
  have isRead := valid.readAfter_eq enough
  have isBytes := valid.bytesToLinear_eq enough
  rw [(refines src).contents] at isBytes
  simp only [Ringbuf.copyFromRingbufImpl, valid.noInit, false_eq_true, if_false]
  rw [if_neg (by omega), if_neg (by omega), if_neg (by omega)]
  unfold AudioRingbuf.readAfter at isRead
  unfold AudioRingbuf.bytesToLinear at isBytes
  split
  case isTrue ordered =>
    rw [if_pos ordered] at isRead isBytes
    exact refines.copyOnce fits few some isBytes isRead
  case isFalse wrapped =>
    rw [if_neg wrapped] at isRead isBytes
    split
    case isTrue near =>
      rw [if_pos near] at isRead isBytes
      exact refines.copyOnce fits few some isBytes isRead
    case isFalse far =>
      rw [if_neg far] at isRead isBytes
      refine refines.copyTwice fits few (by omega) ?_ isRead
      have whole : (store src).size - (store src).read ≤ (deques src).length := by omega
      have counted : (store src).size - (store src).read ≤ (store src).count := by
        rw [(refines src).count_eq]
        exact whole
      have isFront := valid.bytesToLinear_eq counted
      rw [(refines src).contents, AudioRingbuf.bytesToLinear,
        if_neg wrapped, if_pos (Nat.le_refl _)] at isFront
      exact isFront

end

end

section
variable {vmalloc : Vmalloc} {count : Nat}

/-- A fresh buffer is empty. -/
theorem represents_fresh
    {size : Nat}
    (positive : 0 < size) :
    Represents (AudioRingbuf.fresh vmalloc size) [] := by
  have valid : Valid (AudioRingbuf.fresh vmalloc size) :=
    ⟨rfl, vmalloc.length size, positive, positive⟩
  refine ⟨valid, ?_⟩
  have isZero : (AudioRingbuf.fresh vmalloc size).count = 0 := by
    rw [valid.count_eq]
    rfl
  rw [AudioRingbuf.contents, isZero]
  rfl

/-- All bytes are moved to a larger buffer. -/
theorem Represents.moved
    {size : Nat}
    (represents : Represents rb deque)
    (room : deque.length + 16 ≤ size) :
    Represents (copyFromRingbufImpl
          (fun isNew => if isNew then .fresh vmalloc size else rb) true false rb.count true) deque ∧
      (copyFromRingbufImpl (fun isNew => if isNew then .fresh vmalloc size else rb) true false
        rb.count true).size = size := by
  have empty := @represents_fresh vmalloc size (by omega)
  have isCount := represents.count_eq
  by_cases none : rb.count = 0
  · have isNil : deque = [] := length_eq_zero_iff.mp (isCount.symm.trans none)
    rw [copyFromRingbufImpl, if_pos none, isNil]
    exact ⟨empty, rfl⟩
  have refines : Refines (fun isNew => if isNew then AudioRingbuf.fresh vmalloc size else rb)
      (fun isNew : Bool => if isNew then [] else deque) := by
    intro isNew
    cases isNew with
    | false => exact represents
    | true => exact empty
  have fits : rb.count ≤ (AudioRingbuf.fresh vmalloc size).freeSpace := by
    refine empty.valid.freeSpace_of_room ?_
    rw [empty.count_eq, isCount]
    show 0 + deque.length + 16 ≤ size
    omega
  obtain ⟨moved, sizes⟩ := @Refines.copyFromRingbufImpl Bool _ _ _ true false rb.count refines
    fits (Nat.le_of_eq isCount) (Nat.pos_of_ne_zero none)
  have isMoved : moveBytes (fun isNew : Bool => if isNew then [] else deque) true
      false rb.count true = deque := by
    simp [moveBytes, isCount]
  have atNew := moved true
  rw [isMoved] at atNew
  exact ⟨atNew, sizes true⟩

/-- `dynamic_change_ring_buf_size` keeps the bytes and makes room for those to be written. -/
theorem Represents.dynamicChange
    (represents : Represents rb deque)
    (few : 2 * (deque.length + count) + 16 < 2 ^ 32) :
    Represents (rb.dynamicChangeRingBufSize vmalloc count) deque ∧
    count ≤ (rb.dynamicChangeRingBufSize vmalloc count).freeSpace := by
  have isCount := represents.count_eq
  unfold AudioRingbuf.dynamicChangeRingBufSize
  split
  case isTrue isZero => exact ⟨represents, by omega⟩
  case isFalse =>
    rw [represents.valid.noInit]
    simp only [false_eq_true, if_false]
    split
    case isTrue =>
      have isSize : u32 (2 * (rb.count + count) + maxSizeOfOneFrame) =
          2 * (deque.length + count) + 16 := by
        rw [isCount]
        exact Nat.mod_eq_of_lt few
      rw [isSize]
      obtain ⟨moved, size⟩ :=
        @Represents.moved rb deque vmalloc (2 * (deque.length + count) + 16) represents (by omega)
      refine ⟨moved, moved.valid.freeSpace_of_room ?_⟩
      rw [moved.count_eq]
      omega
    case isFalse enough =>
      exact ⟨represents, by omega⟩

end

section

inductive Call where
  | copyFromLinear (rb : Nat) (linear : Option (List (BitVec 8)))
  | copyFromRingbuf (des src count : Nat)
  | writeValue (rb : Nat) (value : BitVec 8) (count : Nat)
  | compensateValue (rb : Nat) (value : BitVec 8) (count : Nat)
  | copyToLinear (rb : Nat) (hasLinear : Bool) (count : Nat)
  | dropData (rb count : Nat)
  deriving Repr, DecidableEq

/-- A call of the source, with the bytes for a linear buffer. -/
def Call.perform (vmalloc : Vmalloc) (store : Nat → AudioRingbuf) :
    Call → (Nat → AudioRingbuf) × Option (List (BitVec 8))
  | .copyFromLinear rb linear => (update store rb ((store rb).copyFromLinear vmalloc linear), none)
  | .copyFromRingbuf des src count => (Ringbuf.copyFromRingbuf vmalloc store des src count, none)
  | .writeValue rb value count =>
    (update store rb ((store rb).writeValue vmalloc value count), none)
  | .compensateValue rb value count =>
    (update store rb ((store rb).compensateValue vmalloc value count), none)
  | .copyToLinear rb hasLinear count =>
    (update store rb ((store rb).copyToLinear hasLinear count).1,
      ((store rb).copyToLinear hasLinear count).2)
  | .dropData rb count => (update store rb ((store rb).dropData count), none)

/-- The call is refused for what the buffers hold. -/
def Call.refused (deques : Nat → List (BitVec 8)) : Call → Bool
  | .copyFromLinear _ linear => linear.isNone
  | .copyFromRingbuf _ src count => decide ((deques src).length < count)
  | .writeValue _ _ _ => false
  | .compensateValue _ _ _ => false
  | .copyToLinear rb hasLinear count => !hasLinear || decide ((deques rb).length < count)
  | .dropData rb count => decide ((deques rb).length < count)

/-- What an accepted call does to the two-ended lists. -/
def Call.accepted (deques : Nat → List (BitVec 8)) :
    Call → (Nat → List (BitVec 8)) × Option (List (BitVec 8))
  | .copyFromLinear rb linear => (update deques rb (deques rb ++ linear.getD []), none)
  | .copyFromRingbuf des src count => (moveBytes deques des src count, none)
  | .writeValue rb value count => (update deques rb (deques rb ++ replicate count value), none)
  | .compensateValue rb value count =>
    (update deques rb (replicate count value ++ deques rb), none)
  | .copyToLinear rb _ count =>
    (update deques rb ((deques rb).drop count),
      if count = 0 then none else some ((deques rb).take count))
  | .dropData rb count => (update deques rb ((deques rb).drop count), none)

/-- A call on the lists; a refused call changes nothing. -/
def Call.onDeques (deques : Nat → List (BitVec 8))
    (call : Call) : (Nat → List (BitVec 8)) × Option (List (BitVec 8)) :=
  if call.refused deques then (deques, none) else call.accepted deques

/-- The sizes that a call asks for have 32 bits. -/
def Call.Fits (deques : Nat → List (BitVec 8)) : Call → Prop
  | .copyFromLinear rb linear => 2 * ((deques rb).length + (linear.getD []).length) + 16 < 2 ^ 32
  | .copyFromRingbuf des _ count => 2 * ((deques des).length + count) + 16 < 2 ^ 32
  | .writeValue rb _ count => 2 * ((deques rb).length + count) + 16 < 2 ^ 32
  | .compensateValue rb _ count => 2 * ((deques rb).length + count) + 16 < 2 ^ 32
  | _ => True

instance (deques : Nat → List (BitVec 8)) (call : Call) : Decidable (call.Fits deques) := by
  cases call <;> (unfold Call.Fits; infer_instance)

variable {store : Nat → AudioRingbuf} {deques : Nat → List (BitVec 8)}
variable {vmalloc : Vmalloc} {call : Call} {count : Nat}

section
variable {rb : AudioRingbuf}

/-- A buffer with room for bytes takes them. -/
theorem Represents.copyFromLinear
    {deque bytes : List (BitVec 8)}
    (represents : Represents rb deque)
    (few : 2 * (deque.length + bytes.length) + 16 < 2 ^ 32) :
    Represents (rb.copyFromLinear vmalloc (some bytes)) (deque ++ bytes) := by
  simp only [AudioRingbuf.copyFromLinear]
  split
  case isTrue isZero =>
    rw [length_eq_zero_iff.mp isZero, append_nil]
    exact represents
  case isFalse nonzero =>
    obtain ⟨changed, room⟩ := Represents.dynamicChange represents few
    have positive := Nat.pos_of_ne_zero nonzero
    rw [changed.valid.copyFromLinearImpl_eq room positive]
    exact (changed.append room positive).1

section
variable {deque : List (BitVec 8)} (represents : Represents rb deque)
include represents

/-- A value is written behind the other bytes. -/
theorem Represents.writeValue
    {value : BitVec 8}
    (few : 2 * (deque.length + count) + 16 < 2 ^ 32) :
    Represents (rb.writeValue vmalloc value count) (deque ++ replicate count value) := by
  unfold AudioRingbuf.writeValue
  split
  case isTrue isZero =>
    rw [isZero, replicate_zero, append_nil]
    exact represents
  case isFalse nonzero =>
    obtain ⟨changed, room⟩ := Represents.dynamicChange represents few
    dsimp only
    rw [changed.valid.noInit]
    simp only [false_eq_true, if_false]
    rw [if_neg (by omega)]
    refine (changed.append ?_ ?_).1
    · rwa [length_replicate]
    · rw [length_replicate]
      exact Nat.pos_of_ne_zero nonzero

/-- A value is put before the other bytes. -/
theorem Represents.compensateValue
    {value : BitVec 8}
    (few : 2 * (deque.length + count) + 16 < 2 ^ 32) :
    Represents (rb.compensateValue vmalloc value count) (replicate count value ++ deque) := by
  unfold AudioRingbuf.compensateValue
  split
  case isTrue isZero =>
    rw [isZero, replicate_zero]
    exact represents
  case isFalse nonzero =>
    obtain ⟨changed, room⟩ := Represents.dynamicChange represents few
    obtain ⟨valid, contents⟩ := Valid.compensated changed.valid room (Nat.pos_of_ne_zero nonzero)
    rw [changed.contents] at contents
    exact ⟨valid, contents⟩

/-- Bytes that are there are dropped. -/
theorem Represents.dropData
    (few : count ≤ deque.length) :
    Represents (rb.dropData count) (deque.drop count) := by
  have isCount := represents.count_eq
  unfold AudioRingbuf.dropData
  split
  case isTrue isZero =>
    rw [isZero]
    exact represents
  case isFalse =>
    rw [if_neg (by omega), represents.valid.readAfter_eq (by omega)]
    exact represents.take few

/-- Bytes that are there are copied out and taken. -/
theorem Represents.copyToLinear
    (few : count ≤ deque.length) :
    Represents (rb.copyToLinear true count).1 (deque.drop count) ∧
    (rb.copyToLinear true count).2 = if count = 0 then none else some (deque.take count) := by
  have isCount := represents.count_eq
  unfold AudioRingbuf.copyToLinear
  split
  case isTrue isZero =>
    rw [isZero]
    exact ⟨represents, rfl⟩
  case isFalse =>
    rw [represents.valid.noInit]
    simp only [true_eq_false, false_eq_true, if_false]
    rw [if_neg (by omega), represents.valid.readAfter_eq (by omega),
      represents.valid.bytesToLinear_eq (by omega), represents.contents]
    exact ⟨represents.take few, rfl⟩

end

end

variable (refines : Refines store deques)
include refines

/-- Bytes move from one buffer to another or the same. -/
theorem Refines.copyFromRingbuf
    {des src : Nat}
    (few : count ≤ (deques src).length)
    (sized : 2 * ((deques des).length + count) + 16 < 2 ^ 32) :
    Refines (Ringbuf.copyFromRingbuf vmalloc store des src count)
    (moveBytes deques des src count) := by
  have isCount := (refines src).count_eq
  unfold Ringbuf.copyFromRingbuf
  split
  case isTrue isZero =>
    have same : moveBytes deques des src count = deques := by simp [moveBytes, isZero]
    rw [same]
    exact refines
  case isFalse nonzero =>
    rw [(refines src).valid.noInit]
    simp only [false_eq_true, if_false]
    rw [if_neg (by omega)]
    obtain ⟨changed, room⟩ := Represents.dynamicChange (refines des) sized
    have resized := @Refines.update Nat _ store deques des _ _ refines changed
    rw [update_eq_self] at resized
    refine (resized.copyFromRingbufImpl ?_ few (Nat.pos_of_ne_zero nonzero)).1
    rwa [update_self]

/-- A refused call leaves the buffers as they are. -/
theorem Refines.perform_refused
    (refused : call.refused deques = true) :
    call.perform vmalloc store = (store, none) := by
  cases call with
  | copyFromLinear rb linear =>
    cases linear with
    | none => simp [Call.perform, AudioRingbuf.copyFromLinear]
    | some bytes => cases refused
  | copyFromRingbuf des src count =>
    have isCount := (refines src).count_eq
    simp only [Call.refused, decide_eq_true_eq] at refused
    simp only [Call.perform, Ringbuf.copyFromRingbuf]
    rw [if_neg (by omega), (refines src).valid.noInit]
    simp only [false_eq_true, if_false]
    rw [if_pos (by omega)]
  | writeValue rb value count | compensateValue rb value count => cases refused
  | copyToLinear rb hasLinear count =>
    have isCount := (refines rb).count_eq
    have same : (store rb).copyToLinear hasLinear count = (store rb, none) := by
      unfold AudioRingbuf.copyToLinear
      cases hasLinear with
      | false => simp
      | true =>
        simp only [Call.refused, Bool.not_true, Bool.false_or, decide_eq_true_eq] at refused
        rw [if_neg (by omega), if_neg (by simp), (refines rb).valid.noInit]
        simp only [false_eq_true, if_false]
        rw [if_pos (by omega)]
    simp [Call.perform, same]
  | dropData rb count =>
    have isCount := (refines rb).count_eq
    simp only [Call.refused, decide_eq_true_eq] at refused
    simp only [Call.perform, AudioRingbuf.dropData]
    rw [if_neg (by omega), if_pos (by omega), update_eq_self]

/-- An accepted call does to bytes what it does to lists. -/
theorem Refines.perform_accepted
    (fits : call.Fits deques)
    (accepted : call.refused deques = false) :
    Refines (call.perform vmalloc store).1 (call.accepted deques).1 ∧
    (call.perform vmalloc store).2 = (call.accepted deques).2 := by
  cases call with
  | copyFromLinear rb linear =>
    cases linear with
    | none => cases accepted
    | some bytes => exact ⟨refines.update ((refines rb).copyFromLinear fits), rfl⟩
  | copyFromRingbuf des src count =>
    simp only [Call.refused, decide_eq_false_iff_not] at accepted
    exact ⟨refines.copyFromRingbuf (by omega) fits, rfl⟩
  | writeValue rb value count => exact ⟨refines.update ((refines rb).writeValue fits), rfl⟩
  | compensateValue rb value count =>
    exact ⟨refines.update ((refines rb).compensateValue fits), rfl⟩
  | copyToLinear rb hasLinear count =>
    cases hasLinear with
    | false => cases accepted
    | true =>
      simp only [Call.refused, Bool.not_true, Bool.false_or, decide_eq_false_iff_not] at accepted
      obtain ⟨represents, copied⟩ := (refines rb).copyToLinear (Nat.le_of_not_lt accepted)
      exact ⟨refines.update represents, copied⟩
  | dropData rb count =>
    simp only [Call.refused, decide_eq_false_iff_not] at accepted
    exact ⟨refines.update ((refines rb).dropData (by omega)), rfl⟩

/-- Every call on buffers is one on their lists. -/
theorem Refines.perform
    (fits : call.Fits deques) :
    Refines (call.perform vmalloc store).1 (call.onDeques deques).1 ∧
    (call.perform vmalloc store).2 = (call.onDeques deques).2 := by
  unfold Call.onDeques
  cases refused : call.refused deques with
  | true =>
    rw [refines.perform_refused refused]
    exact ⟨refines, rfl⟩
  | false => exact refines.perform_accepted fits refused

end

/-- The calls in order, with the linear buffers' bytes. -/
def performAll : (Nat → AudioRingbuf) → List (Vmalloc × Call) →
      (Nat → AudioRingbuf) × List (Option (List (BitVec 8)))
  | store, [] => (store, [])
  | store, (vmalloc, call) :: rest =>
    let after := call.perform vmalloc store
    let last := performAll after.1 rest
    (last.1, after.2 :: last.2)

/-- The calls in order on lists. -/
def onDequesAll : (Nat → List (BitVec 8)) → List (Vmalloc × Call) →
      (Nat → List (BitVec 8)) × List (Option (List (BitVec 8)))
  | deques, [] => (deques, [])
  | deques, (_, call) :: rest =>
    let after := call.onDeques deques
    let last := onDequesAll after.1 rest
    (last.1, after.2 :: last.2)

/-- The sizes that the calls ask for have 32 bits. -/
def AllFit : (Nat → List (BitVec 8)) → List (Vmalloc × Call) → Prop
  | _, [] => True
  | deques, (_, call) :: rest => call.Fits deques ∧ AllFit (call.onDeques deques).1 rest

/-- A buffer with memory and nothing in it. -/
structure Initialised (rb : AudioRingbuf) : Prop where
  hasBase : rb.hasBase = true
  sized : rb.memory.length = rb.size
  positive : 0 < rb.size
  read : rb.read = 0
  write : rb.write = 0

theorem represents_of_initialised
    {rb : AudioRingbuf}
    (initialised : Initialised rb) :
    Represents rb [] := by
  have positive := initialised.positive
  have valid : Valid rb :=
    ⟨initialised.hasBase, initialised.sized, by rw [initialised.read]; exact positive,
      by rw [initialised.write]; exact positive⟩
  refine ⟨valid, ?_⟩
  have isZero : rb.count = 0 := by
    rw [valid.count_eq, initialised.read, initialised.write]
    rfl
  rw [AudioRingbuf.contents, isZero]
  rfl

/-- Calls on buffers are calls on their lists. -/
theorem Refines.performAll
    {store : Nat → AudioRingbuf}
    {deques : Nat → List (BitVec 8)}
    {calls : List (Vmalloc × Call)}
    (refines : Refines store deques)
    (fits : AllFit deques calls) :
    Refines (Ringbuf.performAll store calls).1 (onDequesAll deques calls).1 ∧
    (Ringbuf.performAll store calls).2 = (onDequesAll deques calls).2 := by
  induction calls generalizing store deques with
  | nil => exact ⟨refines, rfl⟩
  | cons call rest inductionHypothesis =>
    obtain ⟨now, later⟩ := fits
    obtain ⟨after, output⟩ := Refines.perform refines now
    obtain ⟨last, outputs⟩ := inductionHypothesis after later
    refine ⟨last, ?_⟩
    simp only [Ringbuf.performAll, onDequesAll]
    rw [output, outputs]

/--
Initialised ring buffers refine lists that grow at both ends: after any calls
counts, bytes and what was read are those of the lists, pointers are inside
the memory, a refused call changes nothing, and a change of the size keeps the
bytes.
-/
theorem performAll_refines {store : Nat → AudioRingbuf} {calls : List (Vmalloc × Call)}
    (initialised : ∀ key, Initialised (store key)) (fits : AllFit (fun _ => []) calls) :
    let after := performAll store calls
    let deques := onDequesAll (fun _ => []) calls
    after.2 = deques.2 ∧ (∀ key, (after.1 key).contents = deques.1 key ∧
          (after.1 key).count = (deques.1 key).length ∧
          (after.1 key).memory.length = (after.1 key).size ∧
          (after.1 key).read < (after.1 key).size ∧ (after.1 key).write < (after.1 key).size) ∧
      (∀ vmalloc call, Call.refused deques.1 call = true →
        call.perform vmalloc after.1 = (after.1, none)) ∧ ∀ key vmalloc writeSize,
        2 * ((deques.1 key).length + writeSize) + 16 < 2 ^ 32 →
          ((after.1 key).dynamicChangeRingBufSize vmalloc writeSize).contents = deques.1 key := by
  obtain ⟨refines, outputs⟩ :=
    Refines.performAll (fun key => represents_of_initialised (initialised key)) fits
  refine ⟨outputs, ?_, ?_, ?_⟩
  · intro key
    have represents := refines key
    exact ⟨represents.contents, represents.count_eq,
      represents.valid.sized, represents.valid.readInside, represents.valid.writeInside⟩
  · intro vmalloc call refused
    exact refines.perform_refused refused
  · intro key vmalloc writeSize few
    exact ((refines key).dynamicChange few).1.contents

def zeroVmalloc : Vmalloc := ⟨fun size => replicate size 0, fun _ => length_replicate⟩

/-- Buffers of one byte, which every write replaces. -/
def smallStore : Nat → AudioRingbuf := fun _ => ⟨true, [0], 0, 0, 1⟩

theorem performAll_refines_smallStore :
    (performAll smallStore
    [(zeroVmalloc, .copyFromLinear 0 (some [1, 2, 3])), (zeroVmalloc, .compensateValue 0 9 1),
    (zeroVmalloc, .copyToLinear 0 true 2)]).2 = [none, none, some [9, 1]] := by
  have outputs :=
    (@performAll_refines smallStore [(zeroVmalloc, .copyFromLinear 0 (some [1, 2, 3])),
        (zeroVmalloc, .compensateValue 0 9 1), (zeroVmalloc, .copyToLinear 0 true 2)]
      (fun _ => ⟨rfl, rfl, Nat.one_pos, rfl, rfl⟩) ⟨by decide, by decide, trivial, trivial⟩).1
  rw [outputs]
  decide

end EchoKernel.Ringbuf
