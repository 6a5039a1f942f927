import EchoKernel.BpfConvertBlocks

namespace EchoKernel.Bpf

open Simulation List BlockSimulates AluResult Reaches ClassicJmp ByteMemory Label Size
open BitVec hiding and_self

/-!
# One block per opcode

Each lemma runs the block of one kind of classic instruction. `A` and `X` are
zero-extended, so the 32-bit operations of the interpreter see exactly the
classic values.
-/

theorem setWidth_setWidth_half (value : BitVec 32) : (value.setWidth 64).setWidth 32 = value := by
  rw [setWidth_setWidth_of_le _ (by omega), setWidth_eq]

theorem setWidth_eq_zero_iff (value : BitVec 32) : value.setWidth 64 = 0 ↔ value = 0 := by
  constructor
  · intro zero
    rw [← setWidth_setWidth_half value, zero]
    rfl
  · rintro rfl
    rfl

/-- The 32-bit register operations on zero-extended operands. -/
theorem aluX_zeroExtended
    (host : Host)
    (op : AluOp)
    (a x : BitVec 32) :
    aluX host .w32 op (a.setWidth 64) (x.setWidth 64) = if op.divides ∧ x = 0 then .returnZero else
    .value ((alu32 host op a x).setWidth 64) := by
  simp only [aluX, setWidth_eq_zero_iff, setWidth_setWidth_half]
  by_cases zero : op.divides = true ∧ x = 0
  · simp [zero, ↓reduceIte]
  · simp only [zero, ↓reduceIte]

theorem aluK_zeroExtended
    (host : Host)
    (op : AluOp)
    (a imm : BitVec 32)
    (nonzero : ¬ (op.divides = true ∧ imm = 0)) :
    aluK host .w32 op (a.setWidth 64) imm = .value ((alu32 host op a imm).setWidth 64) := by
  unfold aluK
  simp only [nonzero, ↓reduceIte, setWidth_setWidth_half]

/-- Comparing zero-extended registers is the classic comparison. -/
theorem jmpTaken_zeroExtended
    (op : ClassicJmp)
    (a operand : BitVec 32) :
    jmpTaken op.toJmpOp (a.setWidth 64) (operand.setWidth 64) = classicTaken op a operand := by
  have aFits : a.toNat % 2 ^ 64 = a.toNat := Nat.mod_eq_of_lt (by omega)
  have operandFits : operand.toNat % 2 ^ 64 = operand.toNat := Nat.mod_eq_of_lt (by omega)
  cases op with
  | jeq =>
    simp only [toJmpOp, jmpTaken, classicTaken]
    rw [Bool.eq_iff_iff]
    simp only [beq_iff_eq, ← toNat_inj, toNat_setWidth, aFits, operandFits]
  | jset =>
    simp only [toJmpOp, jmpTaken, classicTaken]
    rw [← setWidth_and, bne, bne, Bool.eq_iff_iff]
    simp only [Bool.not_eq_true', beq_eq_false_iff_ne]
    exact not_congr (setWidth_eq_zero_iff _)
  | jgt =>
    simp only [toJmpOp, jmpTaken, classicTaken, BitVec.ult, toNat_setWidth, aFits, operandFits]
  | jge =>
    simp only [toJmpOp, jmpTaken, classicTaken, BitVec.ule, toNat_setWidth, aFits, operandFits]

theorem ldInd_address
    (k x : BitVec 32) :
    (k.signExtend 64 + x.setWidth 64).setWidth 32 = x + k := by
  rw [setWidth_add _ _ (by omega), setWidth_signExtend_half,
    signExtend_eq, setWidth_setWidth_half, BitVec.add_comm]

theorem setWidth_code
    {fp : SockFilter}
    {op : ClassicOp}
    (selected : classicOp fp.code = some op) :
    fp.code.setWidth 8 = op.lowCode := by
  rw [← code_of_classicOp selected, ClassicOp.code,
    setWidth_setWidth_of_le _ (by omega), setWidth_eq]

variable {host : Host} {layout : SkbLayout} {filter : List SockFilter}
variable {context : SkbContext host layout}
variable {pc : Nat} {fp : SockFilter} {mask : BitVec 16} {classic : ClassicState} {state : State}

/-- The instruction that keeps the classic opcode, as `*insn = BPF_RAW...`. -/
abbrev rawInsn (fp : SockFilter) : Insn := ⟨fp.code.setWidth 8, bpfRegA, bpfRegX, 0, fp.k⟩

theorem loadPacket_eq
    (rel : StateRel context mask classic state)
    (off : BitVec 32)
    (size : PacketSize) :
    loadPacket host state off size =
      match bpfLoadPointer context.skb off size.bytes with
      | some bytes => .cont (state.setReg bpfRegA ((getUnalignedBe bytes).setWidth 64))
      | none => .ret 0 state := by
  rw [loadPacket, rel.skb_eq]
  rfl

/-- A block that only loads a packet word into `A`. -/
theorem simulates_load
    {insn : Insn}
    {off : BitVec 32}
    {size : PacketSize}
    (placed : Placed layout filter pc [insn])
    (executes : ∀ following, execute host insn following state = loadPacket host state off size)
    (rel : StateRel context mask classic state) :
    BlockSimulates context filter pc [pc + 1] mask state
      (classicLoad context.skb off size fun word =>
        .next ⟨pc + 1, { classic with a := word }⟩) := by
  simp only [loadPacket_eq rel] at executes
  unfold classicLoad
  cases loaded : bpfLoadPointer context.skb off size.bytes with
  | none =>
    simp only [loaded] at executes
    exact returnsZero placed rfl executes
  | some bytes =>
    simp only [loaded] at executes
    exact single placed executes (rel.setA _) (mem_singleton.mpr rfl)

section
variable (placed : Placed layout filter pc [rawInsn fp]) (rel : StateRel context mask classic state)
include placed rel

theorem simulates_alu
    {op : ClassicAlu}
    {src : Src}
    (selected : classicOp fp.code = some (.alu op src))
    (checked : checkInsn filter.length pc fp = true) :
    BlockSimulates context filter pc [pc + 1] mask state
      (if op.toAluOp.divides ∧ classicOperand classic fp.k src = 0 then
        .halt (some 0)
      else
        .next ⟨pc + 1, { classic with
            a := alu32 host op.toAluOp classic.a (classicOperand classic fp.k src) }⟩) := by
  have sameCode : (rawInsn fp).code = (alu .w32 op.toAluOp src).code := setWidth_code selected
  cases src with
  | k =>
    have nonzero : ¬ (op.toAluOp.divides = true ∧ fp.k = 0) := by
      rintro ⟨divides, zero⟩
      cases op <;>
        simp [checkInsn, selected, zero, ClassicAlu.toAluOp, AluOp.divides] at checked divides
    have executes : ∀ following, execute host (rawInsn fp) following state =
        .cont (state.setReg bpfRegA ((alu32 host op.toAluOp classic.a fp.k).setWidth 64)) := by
      intro following
      rw [execute_of_code _ sameCode]
      simp only [executeLabel, rel.a, aluK_zeroExtended host _ _ _ nonzero, toEffect]
    simp only [classicOperand, nonzero]
    exact single placed executes (rel.setA _) (mem_singleton.mpr rfl)
  | x =>
    have executes : ∀ following, execute host (rawInsn fp) following state =
        (if op.toAluOp.divides ∧ classic.x = 0 then returnZero else
        .value ((alu32 host op.toAluOp classic.a
        classic.x).setWidth 64)).toEffect state bpfRegA := by
      intro following
      rw [execute_of_code _ sameCode]
      simp only [executeLabel, rel.a, rel.x, aluX_zeroExtended]
    simp only [classicOperand]
    by_cases zero : op.toAluOp.divides = true ∧ classic.x = 0
    · simp only [zero, toEffect] at executes ⊢
      exact returnsZero placed rfl executes
    · simp only [zero, toEffect] at executes ⊢
      exact single placed executes (rel.setA _) (mem_singleton.mpr rfl)

theorem simulates_neg
    (selected : classicOp fp.code = some .neg) :
    BlockSimulates context filter pc [pc + 1] mask state
      (.next ⟨pc + 1, { classic with a := -classic.a }⟩) := by
  have sameCode : (rawInsn fp).code = (neg .w32).code := setWidth_code selected
  have executes : ∀ following, execute host (rawInsn fp) following state =
      .cont (state.setReg bpfRegA ((-classic.a).setWidth 64)) := by
    intro following
    rw [execute_of_code _ sameCode]
    simp [executeLabel, rel.a]
  exact single placed executes (rel.setA _) (mem_singleton.mpr rfl)

theorem simulates_ldAbs
    {size : PacketSize}
    (selected : classicOp fp.code = some (.ldAbs size)) :
    BlockSimulates context filter pc [pc + 1] mask state
      (classicLoad context.skb fp.k size fun word =>
        .next ⟨pc + 1, { classic with a := word }⟩) := by
  have sameCode : (rawInsn fp).code = (ldAbs size).code := setWidth_code selected
  apply simulates_load placed _ rel
  intro following
  rw [execute_of_code _ sameCode]
  rfl

theorem simulates_ldInd
    {size : PacketSize}
    (selected : classicOp fp.code = some (.ldInd size)) :
    BlockSimulates context filter pc [pc + 1] mask state
      (classicLoad context.skb (classic.x + fp.k) size fun word =>
        .next ⟨pc + 1, { classic with a := word }⟩) := by
  have sameCode : (rawInsn fp).code = (ldInd size).code := setWidth_code selected
  apply simulates_load placed _ rel
  intro following
  rw [execute_of_code _ sameCode]
  simp only [executeLabel, rel.x, ldInd_address]

end

theorem execute_mov32Imm
    (host : Host)
    (state : State)
    (dst : BitVec 4)
    (imm : BitVec 32)
    (following : Option Insn) :
    execute host (bpfMov32Imm dst imm) following state =
    .cont (state.setReg dst (imm.setWidth 64)) := by
  rw [execute_of_code (.alu .w32 .mov .k) rfl]
  simp [executeLabel, aluK, bpfMov32Imm, AluOp.divides, alu32, toEffect]

theorem execute_mov64Reg
    (dst : BitVec 4)
    {src : BitVec 4}
    {value : BitVec 64}
    (holds : state.regs src = value)
    (following : Option Insn) :
    execute host (bpfMov64Reg dst src) following state = .cont (state.setReg dst value) := by
  rw [execute_of_code (.alu .w64 .mov .x) rfl]
  simp [executeLabel, aluX, bpfMov64Reg, AluOp.divides, holds, alu64, toEffect]

/-- A 32-bit operation on `A` with an immediate that is no divisor. -/
theorem execute_alu32Imm
    (op : AluOp)
    (harmless : op.divides = false)
    {imm value : BitVec 32}
    (rel : StateRel context mask classic state)
    (computes : alu32 host op classic.a imm = value)
    (following : Option Insn) :
    execute host (bpfAlu32Imm op.code bpfRegA imm) following state =
    .cont (state.setReg bpfRegA (value.setWidth 64)) := by
  have sameCode : (bpfAlu32Imm op.code bpfRegA imm).code = (alu .w32 op .k).code := by
    cases op <;> rfl
  have nonzero : ¬ (op.divides = true ∧ imm = 0) := by simp [harmless]
  rw [execute_of_code _ sameCode]
  have holds : state.regs bpfRegA = classic.a.setWidth 64 := rel.a
  simp only [executeLabel, bpfAlu32Imm, holds, computes,
    aluK_zeroExtended host _ _ _ nonzero, toEffect]

theorem execute_ldxMemW
    (host : Host)
    (state : State)
    (dst src : BitVec 4)
    (off : BitVec 16)
    (following : Option Insn) :
    execute host (bpfLdxMem w.code dst src off) following state =
    .cont (state.setReg dst (BitVec.ofNat 64 (read state.mem
    (memAddr (state.regs src) off) 4))) := by
  rfl

theorem execute_stxMemW
    (state : State)
    (dst src : BitVec 4)
    (off : BitVec 16)
    (following : Option Insn) :
    execute host (bpfStxMem w.code dst src off) following state = .cont { state with
        mem := write state.mem (memAddr (state.regs dst) off) 4 (state.regs src).toNat } := by
  rfl

theorem scratch_load_eq
    (inRange : fp.k.toNat < bpfMemwords)
    (valid : mask &&& 1 <<< fp.k.toNat ≠ 0)
    (rel : StateRel context mask classic state) :
    BitVec.ofNat 64 (read state.mem
    (memAddr (state.regs bpfRegFp) (scratchOff fp.k)) 4) =
    (classic.mem fp.k.toNat).setWidth 64 := by
  rw [rel.fp, memAddr_scratchOff _ inRange]
  exact rel.load inRange valid

/-- Scratch stores write the slot of their word. -/
theorem simulates_store
    {reg : BitVec 4}
    {value : BitVec 32}
    (inRange : fp.k.toNat < bpfMemwords)
    (placed : Placed layout filter pc [bpfStxMem w.code bpfRegFp reg (scratchOff fp.k)])
    (holds : state.regs reg = value.setWidth 64)
    (rel : StateRel context mask classic state) :
    BlockSimulates context filter pc [pc + 1] (mask ||| 1 <<< fp.k.toNat) state (.next ⟨pc + 1,
        { classic with
          mem := Function.update classic.mem fp.k.toNat value }⟩) := by
  have cut : (value.setWidth 64).toNat = value.toNat := by
    rw [toNat_setWidth]
    exact Nat.mod_eq_of_lt (by omega)
  have executes : ∀ following, execute host (bpfStxMem w.code bpfRegFp reg (scratchOff fp.k))
            following state = .cont { state with
            mem := write state.mem (scratchSlot context.stackTop fp.k.toNat) 4 value.toNat } := by
    intro following
    rw [execute_stxMemW, rel.fp, memAddr_scratchOff _ inRange, holds, cut]
  exact single placed executes (rel.store inRange value) (mem_singleton.mpr rfl)

/-- The block of the header-length load. -/
abbrev ldxMshBlock (fp : SockFilter) : List Insn :=
  [bpfMov64Reg bpfRegTmp bpfRegA, bpfLdAbs b.code fp.k, bpfAlu32Imm AluOp.and.code bpfRegA 0xf,
    bpfAlu32Imm AluOp.lsh.code bpfRegA 2, bpfMov64Reg bpfRegX bpfRegA,
    bpfMov64Reg bpfRegA bpfRegTmp]

/-- Of the loaded byte the low nibble goes to `X`, and `A` comes back. -/
theorem ldxMsh_tail
    {word : BitVec 32}
    (placed : Placed layout filter pc (ldxMshBlock fp))
    (saved : state.regs bpfRegTmp = classic.a.setWidth 64)
    (rel : StateRel context mask { classic with a := word } state) :
    ∃ final, Reaches (step host) 4
          (atBlock layout filter pc 2 state) (atBlock layout filter (pc + 1) 0 final) ∧
        StateRel context mask { classic with x := (word &&& 0xf) <<< 2 } final := by
  have shifted : alu32 host .lsh (word &&& 0xf) 2 = (word &&& 0xf) <<< 2 :=
    host.lsh32_eq _ 2 (by decide)
  have maskedRel := rel.setA (word &&& 0xf)
  have shiftedRel := maskedRel.setA ((word &&& 0xf) <<< 2)
  have movedRel := shiftedRel.setX ((word &&& 0xf) <<< 2)
  have restoredRel := movedRel.setA classic.a
  refine ⟨_, ?_, restoredRel⟩
  rw [← placed.atBlock_length]
  exact head (placed.step_cont 2 rfl (execute_alu32Imm .and rfl rel rfl)) (head
    (placed.step_cont 3 rfl (execute_alu32Imm .lsh rfl maskedRel shifted)) (head
    (placed.step_cont 4 rfl (execute_mov64Reg bpfRegX shiftedRel.a)) (Reaches.single
    (placed.step_cont 5 rfl (execute_mov64Reg bpfRegA saved)))))

/-- The header-length load saves `A`, computes in it and restores it. -/
theorem simulates_ldxMsh
    (placed : Placed layout filter pc (ldxMshBlock fp))
    (rel : StateRel context mask classic state) :
    BlockSimulates context filter pc [pc + 1] mask state
      (classicLoad context.skb fp.k .b fun word =>
        .next ⟨pc + 1, { classic with x := (word &&& 0xf) <<< 2 }⟩) := by
  have savedRel := rel.setTmp (classic.a.setWidth 64)
  have saves : step host (atBlock layout filter pc 0 state) = .next (atBlock layout filter pc 1
      (state.setReg bpfRegTmp (classic.a.setWidth 64))) :=
    placed.step_cont 0 rfl (execute_mov64Reg bpfRegTmp rel.a)
  have executes : ∀ following, execute host (bpfLdAbs b.code fp.k) following
      (state.setReg bpfRegTmp (classic.a.setWidth 64)) = loadPacket host
      (state.setReg bpfRegTmp (classic.a.setWidth 64)) fp.k .b := by
    intro following
    rfl
  simp only [loadPacket_eq savedRel] at executes
  unfold classicLoad
  cases loaded : bpfLoadPointer context.skb fp.k PacketSize.b.bytes with
  | none =>
    simp only [loaded] at executes
    have returns := placed.step_ret 1 rfl executes
    exact ⟨0, _, _, Terminates.prepend (Reaches.single saves) (Terminates.ofHalt returns), rfl⟩
  | some bytes =>
    simp only [loaded] at executes
    have loadedRel := savedRel.setA (getUnalignedBe bytes)
    obtain ⟨final, reaches, finalRel⟩ := ldxMsh_tail placed (by simp [bpfRegTmp, bpfRegA]) loadedRel
    refine ⟨mem_singleton.mpr rfl, 6, final, by omega, ?_, finalRel⟩
    exact head saves (head (placed.step_cont 1 rfl executes) reaches)

end EchoKernel.Bpf
