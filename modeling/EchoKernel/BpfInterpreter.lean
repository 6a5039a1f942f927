import EchoKernel.BpfInsn
import EchoKernel.ByteMemory
import EchoKernel.MachineSimulation

namespace EchoKernel.Bpf

open ByteMemory Simulation BitVec Function

/-!
# The extended BPF interpreter

`__bpf_prog_run` as a deterministic machine. `execute` is the body of a
jump-table label and does not know where the instruction stands; `step` adds
the program counter. `Host` has what the interpreter takes from its
surroundings: helpers, program arrays, the decoding of a `struct sk_buff` in
memory, and the shifts that C leaves undefined.
-/

/-- `unsigned long` and pointers are 32 bits wide on this machine. -/
abbrev Mem := Memory 32

/-- What packet loads read of `struct sk_buff`. -/
structure SkBuff where
  /-- the bytes from `skb->head` up to the tail pointer -/
  head : List (BitVec 8)
  /-- `skb->data`, counted from `skb->head` -/
  data : Nat
  networkHeader : Nat
  macHeader : Nat
  len : BitVec 32
  dataLen : BitVec 32
  /-- `skb_copy_bits`, which walks the paged part of the packet -/
  skbCopyBits : BitVec 32 → Nat → Option (List (BitVec 8))

namespace SkBuff

/-- The `size` bytes found `start` bytes after `skb->head`. -/
def bytesAt (skb : SkBuff) (start size : Nat) : List (BitVec 8) := (skb.head.drop start).take size

def headlen (skb : SkBuff) : BitVec 32 := skb.len - skb.dataLen

end SkBuff

def skfNetOff : Int := -0x100000
def skfLlOff : Int := -0x200000

/-- `skb_header_pointer`, with the bytes instead of a pointer. -/
def skbHeaderPointer (skb : SkBuff) (offset : BitVec 32) (len : Nat) : Option (List (BitVec 8)) :=
  if (len : Int) ≤ (skb.headlen - offset).toInt then
    some (skb.bytesAt (skb.data + offset.toNat) len)
  else skb.skbCopyBits offset len

/-- `bpf_internal_load_pointer_neg_helper`. -/
def bpfInternalLoadPointerNegHelper (skb : SkBuff) (k : BitVec 32)
    (size : Nat) : Option (List (BitVec 8)) :=
  let ptr : Option Nat :=
    if skfNetOff ≤ k.toInt then some (skb.networkHeader + (k.toInt - skfNetOff).toNat)
    else if skfLlOff ≤ k.toInt then some (skb.macHeader + (k.toInt - skfLlOff).toNat)
    else none
  match ptr with
  | some start =>
    if start + size ≤ skb.head.length then some (skb.bytesAt start size)
    else none
  | none => none

/-- `bpf_load_pointer`. -/
def bpfLoadPointer (skb : SkBuff) (k : BitVec 32) (size : Nat) : Option (List (BitVec 8)) :=
  if 0 ≤ k.toInt then skbHeaderPointer skb k size
  else bpfInternalLoadPointerNegHelper skb k size

/-- `get_unaligned_be32`, `get_unaligned_be16` or a single byte. -/
def getUnalignedBe (bytes : List (BitVec 8)) : BitVec 32 :=
  bytes.foldl (fun value byte => value <<< 8 ||| byte.setWidth 32) 0

/-- A helper call: its offset from `__bpf_call_base` and its arguments. -/
structure HelperCall where
  imm : BitVec 32
  arg1 : BitVec 64
  arg2 : BitVec 64
  arg3 : BitVec 64
  arg4 : BitVec 64
  arg5 : BitVec 64
  deriving Repr, DecidableEq

/-- What a tail call reads of `struct bpf_array`. -/
structure BpfArray where
  maxEntries : BitVec 32
  ptrs : BitVec 64 → Option (List Insn)

/-- The surroundings of the interpreter. -/
structure Host where
  lsh32 : BitVec 32 → BitVec 32 → BitVec 32
  rsh32 : BitVec 32 → BitVec 32 → BitVec 32
  lsh64 : BitVec 64 → BitVec 64 → BitVec 64
  rsh64 : BitVec 64 → BitVec 64 → BitVec 64
  arsh64 : BitVec 64 → BitVec 64 → BitVec 64
  lsh32_eq : ∀ value amount, amount.toNat < 32 → lsh32 value amount = value <<< amount.toNat
  rsh32_eq : ∀ value amount, amount.toNat < 32 → rsh32 value amount = value >>> amount.toNat
  lsh64_eq : ∀ value amount, amount.toNat < 64 → lsh64 value amount = value <<< amount.toNat
  rsh64_eq : ∀ value amount, amount.toNat < 64 → rsh64 value amount = value >>> amount.toNat
  arsh64_eq : ∀ value amount, amount.toNat < 64 →
      arsh64 value amount = value.sshiftRight amount.toNat
  /-- result and memory of a helper, given the calls made before it -/
  helper : List HelperCall → HelperCall → Mem → BitVec 64 × Mem
  bpfArrayAt : Mem → BitVec 64 → BpfArray
  skbAt : Mem → BitVec 64 → SkBuff

/-- A host whose socket buffers are empty packets. -/
def emptyPacketHost : Host where
  lsh32 value amount := value <<< amount.toNat
  rsh32 value amount := value >>> amount.toNat
  lsh64 value amount := value <<< amount.toNat
  rsh64 value amount := value >>> amount.toNat
  arsh64 value amount := value.sshiftRight amount.toNat
  lsh32_eq _ _ _ := rfl
  rsh32_eq _ _ _ := rfl
  lsh64_eq _ _ _ := rfl
  rsh64_eq _ _ _ := rfl
  arsh64_eq _ _ _ := rfl
  helper _ _ mem := (0, mem)
  bpfArrayAt _ _ := ⟨0, fun _ => none⟩
  skbAt _ _ := ⟨[], 0, 0, 0, 0, 0, fun _ _ => none⟩

/-- The interpreter's registers and the memory it works on. -/
structure State where
  regs : BitVec 4 → BitVec 64
  mem : Mem
  tailCallCnt : BitVec 32
  trace : List HelperCall

namespace State

/-- A register is set. -/
def setReg (state : State) (reg : BitVec 4) (value : BitVec 64) : State :=
  { state with regs := update state.regs reg value }

@[simp] theorem regs_setReg
    (state : State)
    (reg : BitVec 4)
    (value : BitVec 64) :
    (state.setReg reg value).regs = update state.regs reg value :=
  rfl

end State

/-- What the body of one label does. -/
inductive Effect where
  /-- `CONT` -/
  | cont (state : State)
  /-- `insn++; CONT` -/
  | skip (state : State)
  /-- `insn += insn->off; CONT` -/
  | jump (state : State)
  /-- `insn = prog->insnsi; goto select_insn` -/
  | enter (prog : List Insn) (state : State)
  /-- `return value` -/
  | ret (value : BitVec 64) (state : State)
  /-- behaviour the source leaves undefined -/
  | fault

/-- What an arithmetic label computes. -/
inductive AluResult where
  | value (result : BitVec 64)
  | returnZero
  | undefined

section
variable (host : Host) (prog : List Insn) (state : State) (imm : BitVec 32)

/-- The 32-bit operators; `DIV` and `MOD` are `do_div`. -/
def alu32 : AluOp → BitVec 32 → BitVec 32 → BitVec 32
  | .add, dst, src => dst + src
  | .sub, dst, src => dst - src
  | .and, dst, src => dst &&& src
  | .or, dst, src => dst ||| src
  | .lsh, dst, src => host.lsh32 dst src
  | .rsh, dst, src => host.rsh32 dst src
  | .xor, dst, src => dst ^^^ src
  | .mul, dst, src => dst * src
  | .mov, _, src => src
  | .div, dst, src => dst / src
  | .mod, dst, src => dst % src

/-- The 64-bit operators; `DIV` and `MOD` are those of `div64_u64`. -/
def alu64 : AluOp → BitVec 64 → BitVec 64 → BitVec 64
  | .add, dst, src => dst + src
  | .sub, dst, src => dst - src
  | .and, dst, src => dst &&& src
  | .or, dst, src => dst ||| src
  | .lsh, dst, src => host.lsh64 dst src
  | .rsh, dst, src => host.rsh64 dst src
  | .xor, dst, src => dst ^^^ src
  | .mul, dst, src => dst * src
  | .mov, _, src => src
  | .div, dst, src => dst / src
  | .mod, dst, src => dst % src

/-- The `ALU..._X` labels: the zero test reads the whole source register. -/
def aluX (width : Width) (op : AluOp) (dst src : BitVec 64) : AluResult :=
  if op.divides ∧ src = 0 then .returnZero
  else
    match width with
    | .w64 => .value (alu64 host op dst src)
    | .w32 =>
      if op.divides ∧ src.setWidth 32 = 0 then .undefined
      else .value ((alu32 host op (dst.setWidth 32) (src.setWidth 32)).setWidth 64)

/-- The `ALU..._K` labels, which divide by the immediate unchecked. -/
def aluK (width : Width) (op : AluOp) (dst : BitVec 64) (imm : BitVec 32) : AluResult :=
  if op.divides ∧ imm = 0 then .undefined
  else
    match width with
    | .w64 => .value (alu64 host op dst (imm.signExtend 64))
    | .w32 => .value ((alu32 host op (dst.setWidth 32) imm).setWidth 64)

/-- The comparison of a conditional jump. -/
def jmpTaken : JmpOp → BitVec 64 → BitVec 64 → Bool
  | .jeq, dst, src => dst == src
  | .jne, dst, src => dst != src
  | .jgt, dst, src => src.ult dst
  | .jge, dst, src => src.ule dst
  | .jsgt, dst, src => src.slt dst
  | .jsge, dst, src => src.sle dst
  | .jset, dst, src => dst &&& src != 0

/-- The low `count` bytes of `value` in the opposite order. -/
def swab : Nat → BitVec 64 → BitVec 64
  | 0, _ => 0
  | count + 1, value => (value &&& 0xff) <<< (8 * count) ||| swab count (value >>> 8)

/-- `cpu_to_be16/32/64` on a little-endian machine. -/
def endToBe (dst : BitVec 64) : BitVec 64 :=
  if imm = 16 then swab 2 dst
  else if imm = 32 then swab 4 dst
  else if imm = 64 then swab 8 dst
  else dst

/-- `cpu_to_le16/32/64` on a little-endian machine. -/
def endToLe (dst : BitVec 64) : BitVec 64 :=
  if imm = 16 then (dst.setWidth 16).setWidth 64
  else if imm = 32 then (dst.setWidth 32).setWidth 64
  else dst

/-- `(unsigned long) (reg + insn->off)`. -/
def memAddr (base : BitVec 64) (off : BitVec 16) : BitVec 32 :=
  (base + off.signExtend 64).setWidth 32

def maxTailCallCnt : BitVec 32 := 32

/-- `load_word`, `load_half` and `load_byte`. -/
def loadPacket (off : BitVec 32) (size : PacketSize) : Effect :=
  match bpfLoadPointer (host.skbAt state.mem (state.regs bpfRegCtx)) off size.bytes with
  | some bytes => .cont (state.setReg bpfReg0 ((getUnalignedBe bytes).setWidth 64))
  | none => .ret 0 state

/-- Put a result into the destination register. -/
def AluResult.toEffect (dst : BitVec 4) : AluResult → Effect
  | .value result => .cont (state.setReg dst result)
  | .returnZero => .ret 0 state
  | .undefined => .fault

/-- The arguments of an instruction's helper call. -/
def helperCall : HelperCall :=
  ⟨imm, state.regs bpfRegArg1, state.regs bpfRegArg2,
    state.regs bpfRegArg3, state.regs bpfRegArg4, state.regs bpfRegArg5⟩

def jmpCall : Effect :=
  let call := helperCall state imm
  let outcome := host.helper state.trace call state.mem
  .cont { (state.setReg bpfReg0 outcome.1) with
      mem := outcome.2
      trace := state.trace ++ [call] }

def jmpTailCall : Effect :=
  let array := host.bpfArrayAt state.mem (state.regs bpfRegArg2)
  let index := state.regs bpfRegArg3
  if array.maxEntries.setWidth 64 ≤ index then .cont state
  else if maxTailCallCnt < state.tailCallCnt then .cont state
  else
    let counted := { state with tailCallCnt := state.tailCallCnt + 1 }
    match array.ptrs index with
    | some prog => .enter prog counted
    | none => .cont counted

/-- The body of a jump-table label. Only `LD_IMM_DW` reads `following`, that is `insn[1]`. -/
def executeLabel (label : Label) (insn : Insn) (following : Option Insn) (state : State) : Effect :=
  let dst := state.regs insn.dstReg
  let src := state.regs insn.srcReg
  match label with
  | .alu width op .x => (aluX host width op dst src).toEffect state insn.dstReg
  | .alu width op .k => (aluK host width op dst insn.imm).toEffect state insn.dstReg
  | .arsh .x => .cont (state.setReg insn.dstReg (host.arsh64 dst src))
  | .arsh .k => .cont (state.setReg insn.dstReg (host.arsh64 dst (insn.imm.signExtend 64)))
  | .neg .w32 => .cont (state.setReg insn.dstReg (((-dst).setWidth 32).setWidth 64))
  | .neg .w64 => .cont (state.setReg insn.dstReg (-dst))
  | .endToBe => .cont (state.setReg insn.dstReg (endToBe insn.imm dst))
  | .endToLe => .cont (state.setReg insn.dstReg (endToLe insn.imm dst))
  | .call => jmpCall host state insn.imm
  | .tailCall => jmpTailCall host state
  | .ja => .jump state
  | .jmp op .x => if jmpTaken op dst src then .jump state else .cont state
  | .jmp op .k =>
    if jmpTaken op dst (insn.imm.signExtend 64) then .jump state
    else .cont state
  | .exit => .ret (state.regs bpfReg0) state
  | .stxMem size =>
    .cont { state with mem := write state.mem (memAddr dst insn.off) size.bytes src.toNat }
  | .stMem size =>
    .cont { state with
      mem := write state.mem (memAddr dst insn.off) size.bytes (insn.imm.signExtend 64).toNat }
  | .ldxMem size =>
    .cont (state.setReg insn.dstReg (BitVec.ofNat 64
        (read state.mem (memAddr src insn.off) size.bytes)))
  | .stxXaddW =>
    .cont { state with
      mem := write state.mem (memAddr dst insn.off) 4 (read state.mem (memAddr dst insn.off) 4 +
          (src.setWidth 32).toNat) }
  | .stxXaddDw =>
    .cont { state with
      mem := write state.mem (memAddr dst insn.off) 8
        (read state.mem (memAddr dst insn.off) 8 + src.toNat) }
  | .ldAbs size => loadPacket host state insn.imm size
  | .ldInd size => loadPacket host state ((insn.imm.signExtend 64 + src).setWidth 32) size
  | .ldImmDw =>
    match following with
    | some high =>
      .skip (state.setReg insn.dstReg (insn.imm.setWidth 64 ||| high.imm.setWidth 64 <<< 32))
    | none => .fault

/-- Dispatch through the jump table; `default_label` returns zero. -/
def execute (insn : Insn) (following : Option Insn) (state : State) : Effect :=
  match jumptable insn.code with
  | some label => executeLabel host label insn following state
  | none => .ret 0 state

/-- The interpreter between two instructions. -/
structure Config where
  prog : List Insn
  pc : Int
  state : State

/-- How a run of the interpreter ends. -/
inductive Halt where
  | ret (value : BitVec 64) (mem : Mem) (trace : List HelperCall)
  | fault

/-- The instruction at `pc`, if it is in the program. -/
def fetch (pc : Int) : Option Insn := if 0 ≤ pc then prog[pc.toNat]? else none

/-- Move the program counter as an effect says. -/
def Effect.toStep (config : Config) (off : BitVec 16) : Effect → StepResult Config Halt
  | .cont state => .next { config with pc := config.pc + 1, state := state }
  | .skip state => .next { config with pc := config.pc + 2, state := state }
  | .jump state => .next { config with pc := config.pc + off.toInt + 1, state := state }
  | .enter prog state => .next { prog := prog, pc := 0, state := state }
  | .ret value state => .halt (.ret value state.mem state.trace)
  | .fault => .halt .fault

/-- One round of `select_insn`. -/
def step (config : Config) : StepResult Config Halt :=
  match fetch config.prog config.pc with
  | none => .halt .fault
  | some insn =>
    (execute host insn (fetch config.prog (config.pc + 1)) config.state).toStep config insn.off

/--
The first lines of `__bpf_prog_run`: `FP` is the end of the stack array,
`ARG1` the context. The other registers are uninitialised.
-/
def initialState (regs : BitVec 4 → BitVec 64) (mem : Mem) (ctx stackTop : BitVec 32) : State where
  regs := update (update regs bpfRegFp (stackTop.setWidth 64)) bpfRegArg1 (ctx.setWidth 64)
  mem := mem
  tailCallCnt := 0
  trace := []

/-- `__bpf_prog_run` returns `value` as an `unsigned int`. -/
def BpfProgRunReturns (regs : BitVec 4 → BitVec 64) (mem : Mem)
    (ctx stackTop : BitVec 32) (value : BitVec 32) : Prop :=
  ∃ result finalMem trace, Terminates (step host) ⟨prog, 0, initialState regs mem ctx stackTop⟩
        (.ret result finalMem trace) ∧ result.setWidth 32 = value

theorem setWidth_signExtend_half
    {width : Nat}
    (value : BitVec width) :
    (value.signExtend 64).setWidth 32 = value.signExtend 32 := by
  apply eq_of_getLsbD_eq
  intro index bound
  have wide : index < 64 := by omega
  rw [getLsbD_setWidth, getLsbD_signExtend, getLsbD_signExtend]
  simp [wide, Bool.true_and]

/-- Instructions are fetched by their list index. -/
@[simp] theorem fetch_natCast (index : Nat) : fetch prog (index : Int) = prog[index]? := by
  simp [fetch]

theorem execute_of_code
    {host : Host}
    {insn : Insn}
    {following : Option Insn}
    {state : State}
    (label : Label)
    (sameCode : insn.code = label.code) :
    execute host insn following state = executeLabel host label insn following state := by
  simp [execute, sameCode, jumptable_code]

theorem step_of_fetch
    {prog : List Insn}
    {pc : Int}
    (state : State)
    {insn : Insn}
    (fetched : fetch prog pc = some insn) :
    step host ⟨prog, pc, state⟩ =
    (execute host insn (fetch prog (pc + 1)) state).toStep ⟨prog, pc, state⟩ insn.off := by
  simp [step, fetched]

end

end EchoKernel.Bpf
