import Mathlib.Data.List.Basic
import Mathlib.Algebra.Group.Nat.Defs

namespace EchoKernel.Bpf

/-!
# BPF opcodes and instruction formats

Classic and extended BPF share one opcode space: three class bits, and for
each class an operation, a source bit, or a size and an addressing mode. The
constants have the values of `bpf_common.h`, `filter.h` and `bpf.h`.

`Label` names the targets of the interpreter's jump table. Every label knows
its opcode, so `jumptable` is that table as a finite search.
-/

/-- Instruction classes. -/
def bpfLd : BitVec 8 := 0x00
def bpfLdx : BitVec 8 := 0x01
def bpfSt : BitVec 8 := 0x02
def bpfStx : BitVec 8 := 0x03
def bpfAlu : BitVec 8 := 0x04
def bpfJmp : BitVec 8 := 0x05
def bpfRet : BitVec 8 := 0x06
def bpfMisc : BitVec 8 := 0x07
def bpfAlu64 : BitVec 8 := 0x07

/-- Addressing modes of loads and stores. -/
def bpfImm : BitVec 8 := 0x00
def bpfAbs : BitVec 8 := 0x20
def bpfInd : BitVec 8 := 0x40
def bpfMem : BitVec 8 := 0x60
def bpfLen : BitVec 8 := 0x80
def bpfMsh : BitVec 8 := 0xa0
def bpfXadd : BitVec 8 := 0xc0

/-- Operations outside the regular arithmetic and comparison families. -/
def bpfNeg : BitVec 8 := 0x80
def bpfArsh : BitVec 8 := 0xc0
def bpfEnd : BitVec 8 := 0xd0
def bpfJa : BitVec 8 := 0x00
def bpfCall : BitVec 8 := 0x80
def bpfExit : BitVec 8 := 0x90

/-- Return values and register transfers of classic BPF. -/
def bpfA : BitVec 8 := 0x10
def bpfTax : BitVec 8 := 0x00
def bpfTxa : BitVec 8 := 0x80

/-- `BPF_CLASS`. -/
def bpfClass (code : BitVec 8) : BitVec 8 := code &&& 0x07

/-- `BPF_OP`. -/
def bpfOp (code : BitVec 8) : BitVec 8 := code &&& 0xf0

def bpfSize (code : BitVec 8) : BitVec 8 := code &&& 0x18

/-- The `BPF_SRC` bit: an immediate or a register operand. -/
inductive Src where
  | k
  | x
  deriving Repr, DecidableEq

namespace Src

def code : Src → BitVec 8
  | .k => 0x00
  | .x => 0x08

end Src

/-- Operand width of an arithmetic instruction. -/
inductive Width where
  | w32
  | w64
  deriving Repr, DecidableEq

namespace Width

/-- `BPF_ALU` or `BPF_ALU64`. -/
def code : Width → BitVec 8
  | .w32 => bpfAlu
  | .w64 => bpfAlu64

end Width

/-- Access sizes of memory instructions. -/
inductive Size where
  | b
  | h
  | w
  | dw
  deriving Repr, DecidableEq

namespace Size

def code : Size → BitVec 8
  | .w => 0x00
  | .h => 0x08
  | .b => 0x10
  | .dw => 0x18

def bytes : Size → Nat
  | .b => 1
  | .h => 2
  | .w => 4
  | .dw => 8

end Size

/-- Access sizes of packet loads, which have no double-word form. -/
inductive PacketSize where
  | b
  | h
  | w
  deriving Repr, DecidableEq

namespace PacketSize

def toSize : PacketSize → Size
  | .b => .b
  | .h => .h
  | .w => .w

def code (size : PacketSize) : BitVec 8 := size.toSize.code

def bytes (size : PacketSize) : Nat := size.toSize.bytes

end PacketSize

/-- Binary arithmetic operations. -/
inductive AluOp where
  | add
  | sub
  | and
  | or
  | lsh
  | rsh
  | xor
  | mul
  | mov
  | div
  | mod
  deriving Repr, DecidableEq

namespace AluOp

def code : AluOp → BitVec 8
  | .add => 0x00
  | .sub => 0x10
  | .mul => 0x20
  | .div => 0x30
  | .or => 0x40
  | .and => 0x50
  | .lsh => 0x60
  | .rsh => 0x70
  | .mod => 0x90
  | .xor => 0xa0
  | .mov => 0xb0

/-- `DIV` and `MOD` reject a zero operand. -/
def divides : AluOp → Bool
  | .div => true
  | .mod => true
  | _ => false

end AluOp

/-- Comparisons of conditional jumps. -/
inductive JmpOp where
  | jeq
  | jne
  | jgt
  | jge
  | jsgt
  | jsge
  | jset
  deriving Repr, DecidableEq

namespace JmpOp

def code : JmpOp → BitVec 8
  | .jeq => 0x10
  | .jgt => 0x20
  | .jge => 0x30
  | .jset => 0x40
  | .jne => 0x50
  | .jsgt => 0x60
  | .jsge => 0x70

end JmpOp

/-- The labels of the interpreter's jump table, `default_label` excepted. -/
inductive Label where
  | alu (width : Width) (op : AluOp) (src : Src)
  | arsh (src : Src)
  | neg (width : Width)
  | endToBe
  | endToLe
  | call
  | tailCall
  | ja
  | jmp (op : JmpOp) (src : Src)
  | exit
  | stxMem (size : Size)
  | stxXaddW
  | stxXaddDw
  | stMem (size : Size)
  | ldxMem (size : Size)
  | ldAbs (size : PacketSize)
  | ldInd (size : PacketSize)
  | ldImmDw
  deriving Repr, DecidableEq

namespace Label

/-- The opcode whose jump-table slot holds the label. -/
def code : Label → BitVec 8
  | .alu width op src => width.code ||| op.code ||| src.code
  | .arsh src => bpfAlu64 ||| bpfArsh ||| src.code
  | .neg width => width.code ||| bpfNeg
  | .endToBe => bpfAlu ||| bpfEnd ||| 0x08
  | .endToLe => bpfAlu ||| bpfEnd ||| 0x00
  | .call => bpfJmp ||| bpfCall
  | .tailCall => bpfJmp ||| bpfCall ||| Src.x.code
  | .ja => bpfJmp ||| bpfJa
  | .jmp op src => bpfJmp ||| op.code ||| src.code
  | .exit => bpfJmp ||| bpfExit
  | .stxMem size => bpfStx ||| bpfMem ||| size.code
  | .stxXaddW => bpfStx ||| bpfXadd ||| Size.w.code
  | .stxXaddDw => bpfStx ||| bpfXadd ||| Size.dw.code
  | .stMem size => bpfSt ||| bpfMem ||| size.code
  | .ldxMem size => bpfLdx ||| bpfMem ||| size.code
  | .ldAbs size => bpfLd ||| bpfAbs ||| size.code
  | .ldInd size => bpfLd ||| bpfInd ||| size.code
  | .ldImmDw => bpfLd ||| bpfImm ||| Size.dw.code

/-- The arithmetic operations, in the order of the interpreter's table. -/
def aluOps : List AluOp := [.add, .sub, .and, .or, .lsh, .rsh, .xor, .mul, .mov, .div, .mod]

def jmpOps : List JmpOp := [.jeq, .jne, .jgt, .jge, .jsgt, .jsge, .jset]

def aluLabels : List Label :=
  aluOps.flatMap fun op =>
    [Label.alu .w32 op .x, Label.alu .w32 op .k, Label.alu .w64 op .x, Label.alu .w64 op .k]

def jmpLabels : List Label := jmpOps.flatMap fun op => [Label.jmp op .x, Label.jmp op .k]

def memLabels : List Label :=
  [Size.b, .h, .w, .dw].flatMap fun size => [Label.stxMem size, Label.stMem size, Label.ldxMem size]

def packetLabels : List Label :=
  [PacketSize.w, .h, .b].flatMap fun size => [Label.ldAbs size, Label.ldInd size]

/-- Every label of the jump table. -/
def all : List Label :=
  [aluLabels, jmpLabels, memLabels, packetLabels,
    [.arsh .x, .arsh .k, .neg .w32, .neg .w64, .endToBe, .endToLe,
      .call, .tailCall, .ja, .exit, .stxXaddW, .stxXaddDw, .ldImmDw]].flatten

/-- No label is left out of the list. -/
theorem mem_all (label : Label) : label ∈ all := by
  cases label with
  | alu width op src => cases width <;> cases op <;> cases src <;> decide +kernel
  | arsh src => cases src <;> decide +kernel
  | neg width => cases width <;> decide +kernel
  | endToBe | endToLe | call | tailCall | ja | exit | stxXaddW | stxXaddDw | ldImmDw =>
    decide +kernel
  | jmp op src => cases op <;> cases src <;> decide +kernel
  | stxMem size | stMem size | ldxMem size | ldAbs size | ldInd size =>
    cases size <;> decide +kernel

end Label

/-- The interpreter's `jumptable`; `none` is `default_label`. -/
def jumptable (code : BitVec 8) : Option Label := Label.all.find? fun label => label.code == code

theorem jumptable_code (label : Label) : jumptable label.code = some label := by
  have dispatch : ∀ entry ∈ Label.all, jumptable entry.code = some entry := by decide +kernel
  exact dispatch label (Label.mem_all label)

/-- `struct bpf_insn`. -/
structure Insn where
  code : BitVec 8
  dstReg : BitVec 4
  srcReg : BitVec 4
  off : BitVec 16
  imm : BitVec 32
  deriving Repr, DecidableEq

/-- `struct sock_filter`. -/
structure SockFilter where
  code : BitVec 16
  jt : BitVec 8
  jf : BitVec 8
  k : BitVec 32
  deriving Repr, DecidableEq

/-- Registers with a fixed role. -/
def bpfReg0 : BitVec 4 := 0
def bpfRegArg1 : BitVec 4 := 1
def bpfRegArg2 : BitVec 4 := 2
def bpfRegArg3 : BitVec 4 := 3
def bpfRegArg4 : BitVec 4 := 4
def bpfRegArg5 : BitVec 4 := 5
def bpfRegCtx : BitVec 4 := 6
def bpfRegFp : BitVec 4 := 10
def bpfRegA : BitVec 4 := 0
def bpfRegX : BitVec 4 := 7
def bpfRegTmp : BitVec 4 := 8

section
variable (size op : BitVec 8) (dst src : BitVec 4) (off : BitVec 16)

/-- The instruction macros of `filter.h`. -/
def bpfAlu64Reg : Insn := ⟨bpfAlu64 ||| bpfOp op ||| Src.x.code, dst, src, 0, 0⟩

def bpfAlu32Reg : Insn := ⟨bpfAlu ||| bpfOp op ||| Src.x.code, dst, src, 0, 0⟩

def bpfAlu32Imm (dst : BitVec 4) (imm : BitVec 32) : Insn :=
  ⟨bpfAlu ||| bpfOp op ||| Src.k.code, dst, 0, 0, imm⟩

def bpfMov64Reg : Insn := ⟨bpfAlu64 ||| AluOp.mov.code ||| Src.x.code, dst, src, 0, 0⟩

def bpfMov32Imm (dst : BitVec 4) (imm : BitVec 32) : Insn :=
  ⟨bpfAlu ||| AluOp.mov.code ||| Src.k.code, dst, 0, 0, imm⟩

def bpfMov32Raw (type : Src) (dst src : BitVec 4) (imm : BitVec 32) : Insn :=
  ⟨bpfAlu ||| AluOp.mov.code ||| type.code, dst, src, 0, imm⟩

def bpfEndian (type : BitVec 8) (dst : BitVec 4) (len : BitVec 32) : Insn :=
  ⟨bpfAlu ||| bpfEnd ||| (type &&& 0x08), dst, 0, 0, len⟩

def bpfLdAbs (imm : BitVec 32) : Insn := ⟨bpfLd ||| bpfSize size ||| bpfAbs, 0, 0, 0, imm⟩

def bpfLdxMem : Insn := ⟨bpfLdx ||| bpfSize size ||| bpfMem, dst, src, off, 0⟩

def bpfStxMem : Insn := ⟨bpfStx ||| bpfSize size ||| bpfMem, dst, src, off, 0⟩

def bpfJmpImm (dst : BitVec 4) (imm : BitVec 32) (off : BitVec 16) : Insn :=
  ⟨bpfJmp ||| bpfOp op ||| Src.k.code, dst, 0, off, imm⟩

end

def bpfEmitCall (func : BitVec 32) : Insn := ⟨bpfJmp ||| bpfCall, 0, 0, 0, func⟩

def bpfExitInsn : Insn := ⟨bpfJmp ||| bpfExit, 0, 0, 0, 0⟩

/-- The labels that move to `insn + off`. -/
def Label.isJump : Label → Bool
  | .ja => true
  | .jmp _ _ => true
  | _ => false

/-- Integers survive the offset field iff they are in its range. -/
theorem bmod_eq_self_iff
    (value : Int) :
    value.bmod (2 ^ 16) = value ↔ -32768 ≤ value ∧ value ≤ 32767 := by
  constructor
  · have lower : -(((2 ^ 16 : Nat) : Int) / 2) ≤ value.bmod (2 ^ 16) := Int.le_bmod (by decide)
    have upper : value.bmod (2 ^ 16) < (((2 ^ 16 : Nat) : Int) + 1) / 2 := Int.bmod_lt (by decide)
    omega
  · rintro ⟨lower, upper⟩
    exact Int.bmod_eq_of_le (by omega) (by omega)

end EchoKernel.Bpf
