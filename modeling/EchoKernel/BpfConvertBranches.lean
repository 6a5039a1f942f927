import EchoKernel.BpfConvertOps

namespace EchoKernel.Bpf

open Simulation Option BlockSimulates Terminates

/-!
# Converted jumps and returns

A classic conditional jump has two targets, its converted form one. So the
conversion emits one or two jumps, inverts comparisons for equality, and moves
a negative constant into a register first.
-/

variable {host : Host} {layout : SkbLayout} {filter : List SockFilter}
variable {context : SkbContext host layout}
variable {pc : Nat} {fp : SockFilter} {mask : BitVec 16}
variable {classic : ClassicState} {state : State} {nexts : List Nat} {src : Src}

theorem signExtend_of_nonneg
    {k : BitVec 32}
    (nonneg : ¬ k.toInt < 0) :
    k.signExtend 64 = k.setWidth 64 := by
  apply BitVec.signExtend_eq_setWidth_of_msb_false
  rw [BitVec.msb_eq_toInt]
  simpa using nonneg

/-- The comparison instruction of a converted jump. -/
abbrev compareInsn (op : JmpOp) (operands : (BitVec 4 × BitVec 32) × Src)
    (off : BitVec 16) : Insn :=
  ⟨bpfJmp ||| op.code ||| operands.2.code, bpfRegA, operands.1.1, off, operands.1.2⟩

/-- The instructions before the comparison set up `A` and the classic operand. -/
theorem operands_loaded
    {rest : List Insn}
    (placed : Placed layout filter pc ((convertJmpOperands src fp.k).1 ++ rest))
    (rel : StateRel context mask classic state) :
    ∃ loaded, Reaches (step host) (convertJmpOperands src fp.k).1.length
    (atBlock layout filter pc 0 state) (atBlock layout filter pc
    (convertJmpOperands src fp.k).1.length loaded) ∧ StateRel context mask classic loaded ∧
    ∀ op off following, execute host (compareInsn op (convertJmpOperands src fp.k).2 off)
    following loaded = if jmpTaken op (classic.a.setWidth 64)
    ((classicOperand classic fp.k src).setWidth 64) then .jump loaded else .cont loaded := by
  by_cases negative : src = .k ∧ fp.k.toInt < 0
  · obtain ⟨rfl, below⟩ := negative
    simp only [convertJmpOperands, below] at placed ⊢
    have movedRel := rel.setTmp (fp.k.setWidth 64)
    refine ⟨state.setReg bpfRegTmp (fp.k.setWidth 64), Reaches.single (placed.step_cont 0 rfl
      (execute_mov32Imm host state bpfRegTmp fp.k)), movedRel, ?_⟩
    intro op off following
    rw [execute_of_code (.jmp op .x) rfl]
    simp only [executeLabel, movedRel.a, classicOperand]
    rfl
  · simp only [convertJmpOperands, negative, ↓reduceIte] at placed ⊢
    refine ⟨state, rfl, rel, ?_⟩
    intro op off following
    rw [execute_of_code (.jmp op src) rfl]
    cases src with
    | k =>
      have nonneg : ¬ fp.k.toInt < 0 := fun below => negative ⟨rfl, below⟩
      simp only [executeLabel, rel.a, signExtend_of_nonneg nonneg]
      rfl
    | x =>
      simp only [executeLabel, rel.a, rel.x, ↓reduceIte]
      rfl

/-- An offset is the distance to the target's block. -/
theorem off_of_bpfEmitJmp (short : filter.length ≤ bpfMaxinsns) (sourceInside : pc < filter.length)
    {target slot : Nat} {off : BitVec 16} (targetInside : target < filter.length)
    (slotBound : slot ≤ 2) (emitted : bpfEmitJmp (some (finalAddrs layout filter)) filter.length pc
    target slot = some off) : off.toInt = (blockAddr layout filter target : Int) -
    blockAddr layout filter pc - 1 - slot := by
  obtain ⟨resolved, emits, distance⟩ :=
    bpfEmitJmp_resolved short sourceInside targetInside slotBound
  rw [emitted] at emits
  cases emits
  exact distance

/-- The shapes a converted conditional jump can have. -/
theorem convertJmp_cases {addrs : Addrs} {len : Nat} {op : ClassicJmp} {block : List Insn}
    (converts : convertJmp addrs len pc op src fp = some block) :
    let operands := convertJmpOperands src fp.k
    let emit (skipped : BitVec 8) := bpfEmitJmp addrs len pc ((pc + 1 + skipped.toNat : Nat) : Int)
    (∃ off, fp.jf = 0 ∧ emit fp.jt operands.1.length = some off ∧
      block = operands.1 ++ [compareInsn op.toJmpOp operands.2 off]) ∨
    (∃ off, fp.jt = 0 ∧ op = .jeq ∧ emit fp.jf operands.1.length = some off ∧
      block = operands.1 ++ [compareInsn .jne operands.2 off]) ∨
    ∃ offTrue offFalse, emit fp.jt operands.1.length = some offTrue ∧
      emit fp.jf (operands.1.length + 1) = some offFalse ∧ block = operands.1 ++
      [compareInsn op.toJmpOp operands.2 offTrue, ⟨bpfJmp ||| bpfJa, 0, 0, offFalse, 0⟩] := by
  unfold convertJmp at converts
  simp only [jmpTarget_eq] at converts
  split at converts
  · rename_i noFalse
    obtain ⟨off, emitted, same⟩ := bind_eq_some_iff.mp converts
    cases same
    exact .inl ⟨off, noFalse, emitted, rfl⟩
  split at converts
  · rename_i inverted
    obtain ⟨off, emitted, same⟩ := bind_eq_some_iff.mp converts
    cases same
    exact .inr (.inl ⟨off, inverted.1, inverted.2, emitted, rfl⟩)
  · obtain ⟨offTrue, emittedTrue, later⟩ := bind_eq_some_iff.mp converts
    obtain ⟨offFalse, emittedFalse, same⟩ := bind_eq_some_iff.mp later
    cases same
    exact .inr (.inr ⟨offTrue, offFalse, emittedTrue, emittedFalse, rfl⟩)

theorem execute_ja
    (off : BitVec 16)
    (imm : BitVec 32)
    (following : Option Insn) :
    execute host ⟨bpfJmp ||| bpfJa, 0, 0, off, imm⟩ following state = .jump state := by
  rfl

theorem BlockSimulates.arrives
    {count offset target : Nat}
    {middle final : State}
    (reaches : Reaches (step host) count (atBlock layout filter pc 0 state)
      (atBlock layout filter pc offset middle))
    (stepped : step host (atBlock layout filter pc offset middle) =
      .next (atBlock layout filter target 0 final))
    (rel : StateRel context mask classic final)
    (successor : target ∈ nexts) :
    BlockSimulates context filter pc nexts mask state (.next ⟨target, classic⟩) :=
  ⟨successor, count + 1, final, Nat.succ_pos count, reaches.append (Reaches.single stepped), rel⟩

/-- A converted conditional jump goes where the classic one goes. -/
theorem simulates_jmp
    {op : ClassicJmp}
    {block : List Insn}
    (short : filter.length ≤ bpfMaxinsns)
    (trueInside : pc + 1 + fp.jt.toNat < filter.length)
    (falseInside : pc + 1 + fp.jf.toNat < filter.length)
    (converts : convertJmp (some (finalAddrs layout filter)) filter.length pc op src fp =
      some block)
    (placed : Placed layout filter pc block)
    (rel : StateRel context mask classic state) :
    BlockSimulates context filter pc [pc + 1 + fp.jt.toNat, pc + 1 + fp.jf.toNat] mask state
    (if classicTaken op classic.a (classicOperand classic fp.k src) then
    .next ⟨pc + 1 + fp.jt.toNat, classic⟩ else .next ⟨pc + 1 + fp.jf.toNat, classic⟩) := by
  have slotBound := convertJmpOperands_length src fp.k
  have inside : pc < filter.length := by omega
  rcases convertJmp_cases converts with
    ⟨off, noFalse, emitted, rfl⟩ |
    ⟨off, noTrue, rfl, emitted, rfl⟩ |
    ⟨offTrue, offFalse, emittedTrue, emittedFalse, rfl⟩
  · obtain ⟨loaded, reaches, loadedRel, compares⟩ := operands_loaded placed rel
    have distance := off_of_bpfEmitJmp short inside trueInside (by omega) emitted
    have executes := compares op.toJmpOp off
    rw [jmpTaken_zeroExtended] at executes
    split
    · rename_i taken
      simp only [taken] at executes
      exact arrives reaches (placed.step_jump _ (by simp) executes distance) loadedRel (by simp)
    rename_i notTaken
    simp only [notTaken] at executes
    have target : pc + 1 + fp.jf.toNat = pc + 1 := by
      rw [noFalse]
      rfl
    rw [target]
    exact arrives reaches (placed.step_last executes) loadedRel (by simp)
  · obtain ⟨loaded, reaches, loadedRel, compares⟩ := operands_loaded placed rel
    have distance := off_of_bpfEmitJmp short inside falseInside (by omega) emitted
    have executes := compares .jne off
    have inverted : jmpTaken .jne (classic.a.setWidth 64)
        ((classicOperand classic fp.k src).setWidth 64) = !classicTaken .jeq classic.a
        (classicOperand classic fp.k src) := by
      rw [← jmpTaken_zeroExtended]
      rfl
    rw [inverted] at executes
    split
    · rename_i taken
      simp only [taken] at executes
      have target : pc + 1 + fp.jt.toNat = pc + 1 := by
        rw [noTrue]
        rfl
      rw [target]
      exact arrives reaches (placed.step_last executes) loadedRel (by simp)
    · rename_i notTaken
      simp only [notTaken] at executes
      exact arrives reaches (placed.step_jump _ (by simp) executes distance) loadedRel (by simp)
  · obtain ⟨loaded, reaches, loadedRel, compares⟩ := operands_loaded placed rel
    have trueDistance := off_of_bpfEmitJmp short inside trueInside (by omega) emittedTrue
    have falseDistance := off_of_bpfEmitJmp short inside falseInside (by omega) emittedFalse
    have executes := compares op.toJmpOp offTrue
    rw [jmpTaken_zeroExtended] at executes
    split
    · rename_i taken
      simp only [taken] at executes
      exact arrives reaches (placed.step_jump _ (by simp) executes trueDistance) loadedRel (by simp)
    rename_i notTaken
    simp only [notTaken] at executes
    have falls := placed.step_cont (convertJmpOperands src fp.k).1.length (by simp) executes
    exact arrives (reaches.append (Reaches.single falls))
      (placed.step_jump ((convertJmpOperands src fp.k).1.length + 1)
        (by simp) (execute_ja offFalse 0) falseDistance) loadedRel (by simp)

theorem simulates_ja
    {off : BitVec 16}
    (short : filter.length ≤ bpfMaxinsns)
    (selected : classicOp fp.code = some .ja)
    (targetInside : pc + 1 + fp.k.toNat < filter.length)
    (emitted : bpfEmitJmp (some (finalAddrs layout filter)) filter.length pc
      ((pc + 1 + fp.k.toNat : Nat) : Int) 0 = some off)
    (placed : Placed layout filter pc [⟨fp.code.setWidth 8, 0, 0, off, 0⟩])
    (rel : StateRel context mask classic state) :
    BlockSimulates context filter pc [pc + 1 + fp.k.toNat] mask state
    (.next ⟨pc + 1 + fp.k.toNat, classic⟩) := by
  have sameCode : fp.code.setWidth 8 = bpfJmp ||| bpfJa := setWidth_code selected
  rw [sameCode] at placed
  have distance := off_of_bpfEmitJmp short (by omega) targetInside (by omega) emitted
  have start : Reaches (step host) 0 (atBlock layout filter pc 0 state)
    (atBlock layout filter pc 0 state) := rfl
  exact arrives start (placed.step_jump 0 rfl (execute_ja off 0) distance) rel (by simp)

theorem execute_exit
    (host : Host)
    (state : State)
    (following : Option Insn) :
    execute host bpfExitInsn following state = .ret (state.regs bpfReg0) state := by
  rfl

theorem simulates_retA
    (placed : Placed layout filter pc [bpfExitInsn])
    (rel : StateRel context mask classic state) :
    BlockSimulates context filter pc nexts mask state (.halt (some classic.a)) := by
  have returns := placed.step_ret 0 rfl (execute_exit host state)
  refine ⟨_, _, _, ofHalt returns, ?_⟩
  rw [show state.regs bpfReg0 = classic.a.setWidth 64 from rel.a, setWidth_setWidth_half]

/-- Returning a constant moves it into `R0` first. -/
theorem simulates_retK
    (placed : Placed layout filter pc [bpfMov32Raw .k bpfReg0 0 fp.k, bpfExitInsn])
    (rel : StateRel context mask classic state) :
    BlockSimulates context filter pc nexts mask state (.halt (some fp.k)) := by
  have moves := placed.step_cont 0 rfl (execute_mov32Imm host state bpfReg0 fp.k)
  have movedRel := rel.setA fp.k
  have returns :=
    placed.step_ret 1 rfl (execute_exit host (state.setReg bpfReg0 (fp.k.setWidth 64)))
  refine ⟨_, _, _, prepend (Reaches.single moves) (ofHalt returns), ?_⟩
  rw [show (state.setReg bpfReg0 (fp.k.setWidth 64)).regs bpfReg0 =
    fp.k.setWidth 64 from movedRel.a, setWidth_setWidth_half]

end EchoKernel.Bpf
