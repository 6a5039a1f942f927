import EchoKernel.BpfConvertLanding

namespace EchoKernel.Bpf

open Simulation List BitVec BlockSimulates Terminates

/-!
# Correctness of the conversion

Every accepted classic program without ancillary loads converts, and its
conversion returns the same verdict. The simulation relates the classic
program at `pc` to the interpreter at the first instruction of its block.
-/

section
variable {host : Host} {layout : SkbLayout} {filter : List SockFilter}
variable {context : SkbContext host layout} {valid : Nat → BitVec 16}
variable (accepted : AcceptedFilter filter)
include accepted

/-- A block does what its classic step does. -/
theorem blockSimulates_classicStep
    (short : filter.length ≤ bpfMaxinsns)
    (plain : ∀ fp ∈ filter, isAncillary fp = false)
    {pc : Nat}
    {fp : SockFilter}
    {op : ClassicOp}
    {classic : ClassicState}
    {state : State}
    (found : filter[pc]? = some fp)
    (selected : classicOp fp.code = some op)
    (flow : ScratchFlow valid pc fp op)
    (rel : StateRel context (valid pc) classic state) :
    BlockSimulates context filter pc (successors pc fp op)
    (scratchAfter op fp.k.toNat (valid pc)) state
    (classicStep host context.skb filter ⟨pc, classic⟩) := by
  have convertible := accepted.convertible layout short
  have checked := accepted.checked found
  obtain ⟨counted, countedConverts⟩ := convertible pc fp found
  obtain ⟨block, converts, -⟩ :=
    convertInsn_of_counted countedConverts (some (finalAddrs layout filter))
  have placed := placed_of_convertInsn convertible found converts
  have isBlock := converts
  rw [convertInsn, selected] at isBlock
  simp only [classicStep, found, selected]
  cases op with
  | ja =>
    have inside := accepted.ja_inside found selected
    rw [convertInsn_ja short selected inside] at converts
    obtain ⟨off, emitted, rfl⟩ := Option.map_eq_some_iff.mp converts
    exact simulates_ja short selected inside emitted placed rel
  | jmp op src =>
    obtain ⟨trueInside, falseInside⟩ := accepted.jmp_inside found selected
    exact simulates_jmp short trueInside falseInside isBlock placed rel
  | alu op src =>
    cases isBlock
    exact simulates_alu placed rel selected checked
  | neg =>
    cases isBlock
    exact simulates_neg placed rel selected
  | ldAbs size =>
    have notAncillary := plain fp (mem_of_getElem? found)
    rw [convertBpfExtensions_of_plain notAncillary selected] at isBlock
    cases isBlock
    exact simulates_ldAbs placed rel selected
  | ldInd size =>
    cases isBlock
    exact simulates_ldInd placed rel selected
  | ldLen =>
    cases isBlock
    refine single placed ?_ (rel.setA _) (mem_singleton.mpr rfl)
    intro following
    rw [execute_ldxMemW, rel.len_eq]
  | ldImm =>
    cases isBlock
    exact single placed (execute_mov32Imm host state bpfRegA fp.k) (rel.setA _)
      (mem_singleton.mpr rfl)
  | ldMem =>
    cases isBlock
    simp only [checkInsn, selected, decide_eq_true_eq] at checked
    refine single placed ?_ (rel.setA _) (mem_singleton.mpr rfl)
    intro following
    rw [execute_ldxMemW, scratch_load_eq checked (flow.loads (.inl rfl)) rel]
  | ldxLen =>
    cases isBlock
    refine single placed ?_ (rel.setX _) (mem_singleton.mpr rfl)
    intro following
    rw [execute_ldxMemW, rel.len_eq]
  | ldxMsh =>
    cases isBlock
    exact simulates_ldxMsh placed rel
  | ldxImm =>
    cases isBlock
    exact single placed (execute_mov32Imm host state bpfRegX fp.k) (rel.setX _)
      (mem_singleton.mpr rfl)
  | ldxMem =>
    cases isBlock
    simp only [checkInsn, selected, decide_eq_true_eq] at checked
    refine single placed ?_ (rel.setX _) (mem_singleton.mpr rfl)
    intro following
    rw [execute_ldxMemW, scratch_load_eq checked (flow.loads (.inr rfl)) rel]
  | ldxAbs =>
    obtain ⟨op, member, sameOp⟩ := accepted.allowed found
    rw [selected] at sameOp
    cases sameOp
    exact absurd member (by decide)
  | st =>
    cases isBlock
    simp only [checkInsn, selected, decide_eq_true_eq] at checked
    exact simulates_store checked placed rel.a rel
  | stx =>
    cases isBlock
    simp only [checkInsn, selected, decide_eq_true_eq] at checked
    exact simulates_store checked placed rel.x rel
  | tax =>
    cases isBlock
    exact single placed (execute_mov64Reg bpfRegX rel.a) (rel.setX _) (mem_singleton.mpr rfl)
  | txa =>
    cases isBlock
    exact single placed (execute_mov64Reg bpfRegA rel.x) (rel.setA _) (mem_singleton.mpr rfl)
  | retK =>
    cases isBlock
    exact simulates_retK placed rel
  | retA =>
    cases isBlock
    exact simulates_retA placed rel

/-- What an interpreter run says about the packet. -/
def haltVerdict : Halt → Option (BitVec 32)
  | .ret value _ _ => some (value.setWidth 32)
  | .fault => none

/-- The classic program at `pc`, the interpreter at the block of `pc`. -/
def Related (context : SkbContext host layout) (filter : List SockFilter) (valid : Nat → BitVec 16)
    (config : ClassicConfig) (matched : Config) : Prop :=
  config.pc < filter.length ∧ ∃ state, matched = atBlock layout filter config.pc 0 state ∧
        StateRel context (valid config.pc) config.state state

/-- The scratch words of an accepted program. -/
def ScratchValid (filter : List SockFilter) (valid : Nat → BitVec 16) : Prop :=
  ∀ pc fp op, filter[pc]? = some fp → classicOp fp.code = some op → ScratchFlow valid pc fp op

section
variable (short : filter.length ≤ bpfMaxinsns) (plain : ∀ fp ∈ filter, isAncillary fp = false)
  (analysed : ScratchValid filter valid)
include short plain analysed

/-- Related states have a block that simulates the next classic step. -/
theorem Related.blockSimulates
    {config : ClassicConfig}
    {matched : Config}
    (related : Related context filter valid config matched) :
    ∃ fp op state,
    filter[config.pc]? = some fp ∧ classicOp fp.code = some op ∧
    ScratchFlow valid config.pc fp op ∧ matched = atBlock layout filter config.pc 0 state ∧
    BlockSimulates context filter config.pc (successors config.pc fp op)
    (scratchAfter op fp.k.toNat (valid config.pc)) state
    (classicStep host context.skb filter config) := by
  obtain ⟨inside, state, shape, rel⟩ := related
  have found : filter[config.pc]? = some filter[config.pc] := List.getElem?_eq_getElem inside
  obtain ⟨op, -, selected⟩ := accepted.allowed found
  have flow := analysed config.pc _ op found selected
  exact ⟨_, op, state, found, selected, flow, shape,
    blockSimulates_classicStep accepted short plain found selected flow rel⟩

/-- The converted program simulates the classic one. -/
theorem forwardSimulation :
    ForwardSimulation (classicStep host context.skb filter)
    (mapResult haltVerdict (step host)) (Related context filter valid) where
  onNext := by
    intro config following matched related stepped
    obtain ⟨fp, op, state, found, selected, flow, rfl, simulates⟩ :=
      related.blockSimulates accepted short plain analysed
    rw [stepped] at simulates
    obtain ⟨successor, count, final, positive, reaches, rel⟩ := simulates
    have inside := accepted.successor_inside found selected successor
    refine ⟨count, _, positive, reaches.observed, inside.2, final, rfl, ?_⟩
    exact rel.weaken (flow.flows _ successor)
  onHalt := by
    intro config matched result related stepped
    obtain ⟨fp, op, state, -, -, -, rfl, simulates⟩ :=
      related.blockSimulates accepted short plain analysed
    rw [stepped] at simulates
    obtain ⟨value, mem, trace, halts, rfl⟩ := simulates
    exact halts.observed

/-- Classic programs move forward, so they end. -/
theorem classic_terminates
    {config : ClassicConfig}
    {matched : Config}
    (related : Related context filter valid config matched) :
    ∃ verdict, Terminates (classicStep host context.skb filter) config (some verdict) := by
  induction remaining : filter.length - config.pc using Nat.strongRecOn
    generalizing config matched with
  | ind distance inductionHypothesis =>
    obtain ⟨fp, op, state, found, selected, flow, rfl, simulates⟩ :=
      related.blockSimulates accepted short plain analysed
    cases stepped : classicStep host context.skb filter config with
    | halt verdict =>
      rw [stepped] at simulates
      obtain ⟨value, mem, trace, -, rfl⟩ := simulates
      exact ⟨_, ofHalt stepped⟩
    | next following =>
      rw [stepped] at simulates
      obtain ⟨successor, count, final, -, -, rel⟩ := simulates
      obtain ⟨forward, inside⟩ := accepted.successor_inside found selected successor
      obtain ⟨verdict, halts⟩ :=
        inductionHypothesis (filter.length - following.pc) (by omega) ⟨inside, final, rfl,
            rel.weaken (flow.flows _ successor)⟩
          rfl
      exact ⟨verdict, prepend (Reaches.single stepped) halts⟩

end

end

section
variable {host : Host} {layout : SkbLayout}

theorem execute_xor64_self
    (host : Host)
    (state : State)
    (reg : BitVec 4)
    (following : Option Insn) :
    execute host (bpfAlu64Reg AluOp.xor.code reg reg) following state =
    .cont (state.setReg reg 0) := by
  rw [execute_of_code (.alu .w64 .xor .x) rfl]
  simp only [executeLabel, aluX, bpfAlu64Reg, alu64, BitVec.xor_self]
  rfl

/-- A straight-line instruction of the prologue. -/
theorem step_prologue
    (layout : SkbLayout)
    (filter : List SockFilter)
    (index : Nat)
    {insn : Insn}
    {state final : State}
    (here : convertPrologue[index]? = some insn)
    (executes : ∀ following, execute host insn following state = .cont final) :
    step host ⟨converted layout filter, (index : Nat), state⟩ =
    .next ⟨converted layout filter, ((index + 1 : Nat) : Int), final⟩ := by
  have inside : index < convertPrologue.length := (List.getElem?_eq_some_iff.mp here).1
  have fetched : fetch (converted layout filter) (index : Int) = some insn := by
    rw [fetch_natCast, converted, List.getElem?_append_left inside]
    exact here
  rw [step_of_fetch host state fetched]
  simp only [executes]
  rfl

/-- The prologue clears `A` and `X` and saves the context. -/
theorem prologue_reaches
    (filter : List SockFilter)
    (context : SkbContext host layout)
    (regs : BitVec 4 → BitVec 64)
    (scratch : Nat → BitVec 32) :
    ∃ state, Reaches (step host) 3
    ⟨converted layout filter, 0, initialState regs context.mem context.ctx context.stackTop⟩
    (atBlock layout filter 0 0 state) ∧
    StateRel context 0 (classicInitial scratch).state state := by
  let entry := initialState regs context.mem context.ctx context.stackTop
  let clearedA := entry.setReg bpfRegA 0
  let clearedX := clearedA.setReg bpfRegX 0
  have argument : clearedX.regs bpfRegArg1 = context.ctx.setWidth 64 := by
    simp [clearedX, clearedA, entry, initialState, bpfRegA, bpfRegX, bpfRegArg1]
  refine ⟨clearedX.setReg bpfRegCtx (context.ctx.setWidth 64), ?_, ?_⟩
  · have clearsA := step_prologue layout filter 0 rfl (execute_xor64_self host entry bpfRegA)
    have clearsX := step_prologue layout filter 1 rfl (execute_xor64_self host clearedA bpfRegX)
    exact Reaches.head clearsA (Reaches.head clearsX (Reaches.single
      (step_prologue layout filter 2 rfl (execute_mov64Reg bpfRegCtx argument))))
  constructor
  · simp [clearedX, clearedA, bpfRegA, bpfRegX, bpfRegCtx, classicInitial]
  · simp [clearedX, bpfRegX, bpfRegCtx, classicInitial]
  · simp
  · simp [clearedX, clearedA, entry, initialState, bpfRegA, bpfRegX,
      bpfRegCtx, bpfRegFp, bpfRegArg1]
  · intro query outside
    rfl
  · intro word bound set
    simp at set

end

/--
`bpf_convert_filter` succeeds on every accepted program without ancillary
loads, the result returns the classic verdict on every packet, and each of its
jumps reaches the first instruction of the classic target.
-/
theorem bpfConvertFilter_correct
    (host : Host)
    (layout : SkbLayout)
    {allocated : Bool}
    {filter : List SockFilter}
    (accepted : bpfCheckClassic allocated filter = .ok ())
    (short : filter.length ≤ bpfMaxinsns)
    (plain : ∀ fp ∈ filter, isAncillary fp = false) :
    ∃ code,
      bpfConvertFilterLength layout filter = .ok code.length ∧
      bpfConvertFilter layout true filter code.length = .ok code ∧
      (∀ (context : SkbContext host layout) regs scratch, ∃ verdict,
        ClassicReturns host context.skb filter scratch verdict ∧
        BpfProgRunReturns host code regs context.mem context.ctx context.stackTop verdict) ∧
      ∀ (position : Nat) insn label,
        code[position]? = some insn → jumptable insn.code = some label → label.isJump = true →
        ∃ pc fp op target,
          filter[pc]? = some fp ∧
          classicOp fp.code = some op ∧
          blockAddr layout filter pc ≤ position ∧
          position < blockAddr layout filter (pc + 1) ∧
          classicTarget pc fp op label = some target ∧
          target < filter.length ∧
          (position : Int) + insn.off.toInt + 1 = blockAddr layout filter target := by
  have checked := acceptedFilter_of_bpfCheckClassic accepted
  have convertible := checked.convertible layout short
  obtain ⟨lastFp, last, -⟩ := checked.endsInReturn
  have nonempty : filter ≠ [] := by
    rintro rfl
    simp at last
  refine ⟨converted layout filter, bpfConvertFilterLength_eq convertible nonempty short,
    bpfConvertFilter_eq convertible nonempty short, ?_, ?_⟩
  · intro context regs scratch
    obtain ⟨valid, unwritten, analysed⟩ := checked.scratch
    obtain ⟨state, prologue, rel⟩ := prologue_reaches filter context regs scratch
    have inside : 0 < filter.length := length_pos_of_ne_nil nonempty
    have related : Related context filter valid (classicInitial scratch)
        (atBlock layout filter 0 0 state) := by
      refine ⟨inside, state, rfl, ?_⟩
      rw [show valid (classicInitial scratch).pc = 0 from unwritten]
      exact rel
    obtain ⟨verdict, classicHalts⟩ := classic_terminates checked short plain analysed related
    have blockHalts :=
      (forwardSimulation checked short plain analysed).terminates_target related classicHalts
    obtain ⟨result, halts, observed⟩ := blockHalts.of_observed
    refine ⟨verdict, classicHalts, ?_⟩
    cases result with
    | fault => cases observed
    | ret value mem trace =>
      exact ⟨value, mem, trace, prepend prologue halts, Option.some.inj observed⟩
  · intro position insn label here dispatched jumps
    exact converted_jump_lands checked short plain here dispatched jumps

/-- A layout with the length first in the socket buffer. -/
def lenFirstLayout : SkbLayout := ⟨0, 0, 0, 0, 0, 0, 0, 0, 0, 0, 0, 0, 0, 0, 0, 0⟩

/-- An empty packet at address 4096 and a stack that ends at 2048. -/
def emptyPacketContext : SkbContext emptyPacketHost lenFirstLayout where
  ctx := 4096
  stackTop := 2048
  mem := fun _ => 0
  lenStored := rfl
  lenApart := by
    rintro query ⟨index, bound, rfl⟩ ⟨other, otherBound, same⟩
    have address : memAddr ((4096 : BitVec 32).setWidth 64) lenFirstLayout.len = 4096 := by decide
    rw [address] at same
    have sameNat := congrArg BitVec.toNat same
    simp only [toNat_add, toNat_ofNat, ofNat_eq_ofNat, toNat_sub] at sameNat
    omega
  skbApart := fun _ _ => rfl

/-- `ld len; jeq #0, 0, 1; ret #1; ret #0`. -/
def acceptEmptyFilter : List SockFilter :=
  [⟨ClassicOp.ldLen.code, 0, 0, 0⟩, ⟨(ClassicOp.jmp .jeq .k).code, 0, 1, 0⟩,
    ⟨ClassicOp.retK.code, 0, 0, 1⟩, ⟨ClassicOp.retK.code, 0, 0, 0⟩]

theorem bpfConvertFilter_correct_acceptEmptyFilter :
    bpfCheckClassic true acceptEmptyFilter = .ok () ∧ ∃ code verdict,
    bpfConvertFilter lenFirstLayout true acceptEmptyFilter code.length = .ok code ∧
    ClassicReturns emptyPacketHost emptyPacketContext.skb acceptEmptyFilter (fun _ => 0) verdict ∧
    BpfProgRunReturns emptyPacketHost code (fun _ => 0)
    emptyPacketContext.mem emptyPacketContext.ctx emptyPacketContext.stackTop verdict := by
  have accepted : bpfCheckClassic true acceptEmptyFilter = .ok () := by decide +kernel
  obtain ⟨code, -, converts, agree, -⟩ :=
    bpfConvertFilter_correct emptyPacketHost lenFirstLayout accepted (by decide) (by decide +kernel)
  obtain ⟨verdict, classic, extended⟩ := agree emptyPacketContext (fun _ => 0) (fun _ => 0)
  exact ⟨accepted, code, verdict, converts, classic, extended⟩

end EchoKernel.Bpf
