import EchoKernel.BpfClassicChecked
import EchoKernel.BpfConvert

namespace EchoKernel.Bpf

open ByteMemory BitVec Function

/-!
# Classic state inside the interpreter

`A` and `X` live zero-extended in two registers and the scratch words in the
last sixteen words of the interpreter's stack. Only the words in a mask are
related: the others may be uninitialised on both sides.
-/

section
variable (stackTop : BitVec 32)

/-- The scratch part of the stack starts sixteen words below its end. -/
def scratchSlot (word : Nat) : BitVec 32 := stackTop - 64 + BitVec.ofNat 32 (4 * word)

/--
A packet for the interpreter: where its socket buffer and the interpreter's
stack array are, and that they do not overlap.
-/
structure SkbContext (host : Host) (layout : SkbLayout) where
  ctx : BitVec 32
  stackTop : BitVec 32
  mem : Mem
  lenStored : read mem (memAddr (ctx.setWidth 64) layout.len) 4 =
      (host.skbAt mem (ctx.setWidth 64)).len.toNat
  lenApart : Disjoint (memAddr (ctx.setWidth 64) layout.len) 4 (stackTop - 512) 512
  skbApart : ∀ other : Mem, (∀ query, ¬ InRange (stackTop - 512) 512 query →
        other query = mem query) → host.skbAt other (ctx.setWidth 64) =
        host.skbAt mem (ctx.setWidth 64)

/-- The packet itself. -/
def SkbContext.skb {host : Host} {layout : SkbLayout} (context : SkbContext host layout) : SkBuff :=
  host.skbAt context.mem (context.ctx.setWidth 64)

theorem memAddr_setWidth
    (base : BitVec 32)
    (off : BitVec 16) :
    memAddr (base.setWidth 64) off = base + off.signExtend 32 := by
  rw [memAddr, setWidth_add _ _ (by omega),
    setWidth_signExtend_half, setWidth_setWidth_of_le _ (by omega), setWidth_eq]

/-- A converted scratch access hits the slot of its word. -/
theorem memAddr_scratchOff
    {k : BitVec 32}
    (inRange : k.toNat < bpfMemwords) :
    memAddr (stackTop.setWidth 64) (scratchOff k) = scratchSlot stackTop k.toNat := by
  have offsets : ∀ word < 16, (scratchOff (BitVec.ofNat 32 word)).signExtend 32 =
      BitVec.ofNat 32 (4 * word) - 64 := by
    decide
  have offset := offsets k.toNat inRange
  rw [ofNat_toNat, setWidth_eq] at offset
  rw [memAddr_setWidth, offset, scratchSlot, BitVec.sub_eq_add_neg,
    BitVec.sub_eq_add_neg, ← BitVec.add_assoc, BitVec.add_assoc,
    BitVec.add_assoc, BitVec.add_comm (BitVec.ofNat 32 (4 * k.toNat))]

theorem scratchSlot_add
    (word index : Nat) :
    scratchSlot stackTop word + BitVec.ofNat 32 index =
    stackTop - 64 + BitVec.ofNat 32 (4 * word + index) := by
  rw [scratchSlot, ofNat_add, BitVec.add_assoc]

/-- Different words have disjoint slots. -/
theorem scratchSlot_disjoint
    {first second : Nat}
    (firstBound : first < 16)
    (secondBound : second < 16)
    (different : first ≠ second) :
    Disjoint (scratchSlot stackTop first) 4 (scratchSlot stackTop second) 4 := by
  rintro query ⟨firstIndex, firstInside, rfl⟩ ⟨secondIndex, secondInside, same⟩
  rw [scratchSlot_add, scratchSlot_add] at same
  have sameOffset : BitVec.ofNat 32 (4 * first + firstIndex) =
      BitVec.ofNat 32 (4 * second + secondIndex) := by
    simpa using same
  have sameNat := congrArg BitVec.toNat sameOffset
  simp only [toNat_ofNat] at sameNat
  omega

end

/-- Every slot lies in the stack array. -/
theorem inRange_stack_of_scratchSlot
    {stackTop query : BitVec 32}
    {word : Nat}
    (bound : word < 16)
    (inSlot : InRange (scratchSlot stackTop word) 4 query) :
    InRange (stackTop - 512) 512 query := by
  obtain ⟨index, inside, rfl⟩ := inSlot
  refine ⟨448 + (4 * word + index), by omega, ?_⟩
  have base : stackTop - 64 = stackTop - 512 + BitVec.ofNat 32 448 := by
    rw [BitVec.sub_eq_add_neg, BitVec.sub_eq_add_neg, BitVec.add_assoc]
    rfl
  rw [scratchSlot_add, base, BitVec.add_assoc, ← ofNat_add]

theorem getLsbD_scratchBit
    {word query : Nat}
    (wordBound : word < 16)
    (queryBound : query < 16) :
    (((1 <<< word : Nat)) : BitVec 16).getLsbD query = decide (query = word) := by
  have bits : ∀ bit < 16, ∀ other < 16, (((1 <<< bit : Nat)) : BitVec 16).getLsbD other =
      decide (other = bit) := by
    decide
  exact bits word wordBound query queryBound

theorem getLsbD_of_scratchBit
    {mask : BitVec 16}
    {word : Nat}
    (bound : word < 16)
    (valid : mask &&& 1 <<< word ≠ 0) :
    mask.getLsbD word = true := by
  by_contra unset
  apply valid
  apply eq_of_getLsbD_eq
  intro query queryBound
  rw [getLsbD_and, getLsbD_scratchBit bound queryBound]
  by_cases same : query = word
  · subst same
    simpa using unset
  · simp [same]

variable {host : Host} {layout : SkbLayout}

/-- A classic and an interpreter state that agree on the words in `mask`. -/
structure StateRel (context : SkbContext host layout) (mask : BitVec 16) (classic : ClassicState)
    (state : State) : Prop where
  a : state.regs bpfRegA = classic.a.setWidth 64
  x : state.regs bpfRegX = classic.x.setWidth 64
  ctx : state.regs bpfRegCtx = context.ctx.setWidth 64
  fp : state.regs bpfRegFp = context.stackTop.setWidth 64
  frame : ∀ query, ¬ InRange (context.stackTop - 512) 512 query →
      state.mem query = context.mem query
  scratch : ∀ word < 16, mask.getLsbD word = true →
      read state.mem (scratchSlot context.stackTop word) 4 = (classic.mem word).toNat

namespace StateRel

variable {context : SkbContext host layout}
variable {mask : BitVec 16} {classic : ClassicState} {state : State}
variable (rel : StateRel context mask classic state)
include rel

theorem weaken
    {smaller : BitVec 16}
    (covered : Covers mask smaller) :
    StateRel context smaller classic state :=
  { rel with
    scratch := fun word bound set =>
      rel.scratch word bound (covered word set) }

theorem setA (value : BitVec 32) :
    StateRel context mask { classic with a := value }
      (state.setReg bpfRegA (value.setWidth 64)) where
  a := by simp
  x := by simpa [bpfRegA, bpfRegX] using rel.x
  ctx := by simpa [bpfRegA, bpfRegCtx] using rel.ctx
  fp := by simpa [bpfRegA, bpfRegFp] using rel.fp
  frame := rel.frame
  scratch := rel.scratch

theorem setX (value : BitVec 32) :
    StateRel context mask { classic with x := value }
      (state.setReg bpfRegX (value.setWidth 64)) where
  a := by simpa [bpfRegA, bpfRegX] using rel.a
  x := by simp
  ctx := by simpa [bpfRegX, bpfRegCtx] using rel.ctx
  fp := by simpa [bpfRegX, bpfRegFp] using rel.fp
  frame := rel.frame
  scratch := rel.scratch

theorem setTmp (value : BitVec 64) :
    StateRel context mask classic (state.setReg bpfRegTmp value) where
  a := by simpa [bpfRegA, bpfRegTmp] using rel.a
  x := by simpa [bpfRegTmp, bpfRegX] using rel.x
  ctx := by simpa [bpfRegTmp, bpfRegCtx] using rel.ctx
  fp := by simpa [bpfRegTmp, bpfRegFp] using rel.fp
  frame := rel.frame
  scratch := rel.scratch

/-- `mem[word] = value` makes the word valid in both. -/
theorem store {word : Nat} (bound : word < 16)
    (value : BitVec 32) : StateRel context (mask ||| 1 <<< word)
      { classic with mem := update classic.mem word value } { state with
        mem := write state.mem (scratchSlot context.stackTop word) 4 value.toNat } where
  a := rel.a
  x := rel.x
  ctx := rel.ctx
  fp := rel.fp
  frame := by
    intro query outside
    have notInSlot : ¬ InRange (scratchSlot context.stackTop word) 4 query := by
      intro inSlot
      exact outside (inRange_stack_of_scratchSlot bound inSlot)
    exact (write_of_not_inRange _ _ notInSlot).trans (rel.frame query outside)
  scratch := by
    intro other otherBound set
    simp only
    by_cases same : other = word
    · subst same
      rw [update_self, read_write_same _ _ _ (by decide : 4 ≤ 2 ^ 32)]
      exact Nat.mod_eq_of_lt value.isLt
    rw [update_of_ne same, read_write_of_disjoint _ _
      (scratchSlot_disjoint context.stackTop otherBound bound same)]
    apply rel.scratch other otherBound
    rw [getLsbD_or, getLsbD_scratchBit bound otherBound] at set
    simpa [same] using set

/-- A load of a word in the mask is the classic value. -/
theorem load
    {word : Nat}
    (bound : word < 16)
    (valid : mask &&& 1 <<< word ≠ 0) :
    BitVec.ofNat 64 (read state.mem (scratchSlot context.stackTop word) 4) =
    (classic.mem word).setWidth 64 := by
  have set := getLsbD_of_scratchBit bound valid
  rw [rel.scratch word bound set]
  apply eq_of_toNat_eq
  simp

theorem skb_eq : host.skbAt state.mem (state.regs bpfRegCtx) = context.skb := by
  rw [rel.ctx]
  exact context.skbApart state.mem rel.frame

/-- The length field is the same during the whole run. -/
theorem len_eq :
    BitVec.ofNat 64 (read state.mem (memAddr (state.regs bpfRegCtx) layout.len) 4) =
    context.skb.len.setWidth 64 := by
  have unchanged : read state.mem (memAddr (context.ctx.setWidth 64) layout.len) 4 =
      read context.mem (memAddr (context.ctx.setWidth 64) layout.len) 4 := by
    apply read_congr
    intro query inField
    exact rel.frame query (context.lenApart query inField)
  rw [rel.ctx, unchanged, context.lenStored]
  apply eq_of_toNat_eq
  simp [SkbContext.skb]

end StateRel

end EchoKernel.Bpf
