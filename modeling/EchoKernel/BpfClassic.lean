import EchoKernel.BpfInterpreter
import EchoKernel.Errno

namespace EchoKernel.Bpf

open Simulation Function Size

/-!
# Classic BPF

The opcodes of `struct sock_filter`, the checks of `bpf_check_classic`, and
what a program means: a 32-bit accumulator `A`, an index register `X` and
sixteen scratch words. A failing load and a division by zero end with verdict
zero.
-/

/-- Arithmetic operations of classic BPF. -/
inductive ClassicAlu where
  | add
  | sub
  | and
  | or
  | lsh
  | rsh
  | xor
  | mul
  | div
  | mod
  deriving Repr, DecidableEq

namespace ClassicAlu

def toAluOp : ClassicAlu → AluOp
  | .add => .add
  | .sub => .sub
  | .and => .and
  | .or => .or
  | .lsh => .lsh
  | .rsh => .rsh
  | .xor => .xor
  | .mul => .mul
  | .div => .div
  | .mod => .mod

end ClassicAlu

/-- Comparisons of classic BPF. -/
inductive ClassicJmp where
  | jeq
  | jset
  | jgt
  | jge
  deriving Repr, DecidableEq

namespace ClassicJmp

def toJmpOp : ClassicJmp → JmpOp
  | .jeq => .jeq
  | .jset => .jset
  | .jgt => .jgt
  | .jge => .jge

end ClassicJmp

/-- The source's switch cases over `sock_filter` opcodes. -/
inductive ClassicOp where
  | alu (op : ClassicAlu) (src : Src)
  | neg
  | ldAbs (size : PacketSize)
  | ldInd (size : PacketSize)
  | ldLen
  | ldImm
  | ldMem
  | ldxLen
  | ldxMsh
  | ldxImm
  | ldxMem
  | ldxAbs
  | st
  | stx
  | tax
  | txa
  | retK
  | retA
  | ja
  | jmp (op : ClassicJmp) (src : Src)
  deriving Repr, DecidableEq

namespace ClassicOp

/-- The low byte of the opcode; no classic one uses the high byte. -/
def lowCode : ClassicOp → BitVec 8
  | .alu op src => bpfAlu ||| op.toAluOp.code ||| src.code
  | .neg => bpfAlu ||| bpfNeg
  | .ldAbs size => bpfLd ||| bpfAbs ||| size.code
  | .ldInd size => bpfLd ||| bpfInd ||| size.code
  | .ldLen => bpfLd ||| w.code ||| bpfLen
  | .ldImm => bpfLd ||| bpfImm
  | .ldMem => bpfLd ||| bpfMem
  | .ldxLen => bpfLdx ||| w.code ||| bpfLen
  | .ldxMsh => bpfLdx ||| bpfMsh ||| b.code
  | .ldxImm => bpfLdx ||| bpfImm
  | .ldxMem => bpfLdx ||| bpfMem
  | .ldxAbs => bpfLdx ||| bpfAbs ||| w.code
  | .st => bpfSt
  | .stx => bpfStx
  | .tax => bpfMisc ||| bpfTax
  | .txa => bpfMisc ||| bpfTxa
  | .retK => bpfRet ||| Src.k.code
  | .retA => bpfRet ||| bpfA
  | .ja => bpfJmp ||| bpfJa
  | .jmp op src => bpfJmp ||| op.toJmpOp.code ||| src.code

/-- The `sock_filter` opcode of a case. -/
def code (op : ClassicOp) : BitVec 16 := op.lowCode.setWidth 16

def aluOps : List ClassicAlu := [.add, .sub, .mul, .div, .mod, .and, .or, .xor, .lsh, .rsh]

def jmpOps : List ClassicJmp := [.jeq, .jge, .jgt, .jset]

/-- The `codes[]` table of `chk_code_allowed`. -/
def codes : List ClassicOp :=
  [aluOps.flatMap fun op => [ClassicOp.alu op .k, ClassicOp.alu op .x], [.neg,
      .ldAbs .w, .ldAbs .h, .ldAbs .b, .ldLen, .ldInd .w, .ldInd .h, .ldInd .b, .ldImm, .ldMem,
      .ldxLen, .ldxMsh, .ldxImm, .ldxMem, .st, .stx, .tax, .txa, .retK, .retA, .ja],
    jmpOps.flatMap fun op => [ClassicOp.jmp op .k, ClassicOp.jmp op .x]].flatten

/-- Every case of the conversion's switch; `ldxAbs` is not checkable. -/
def all : List ClassicOp := .ldxAbs :: codes

end ClassicOp

/-- The switch case that an opcode selects. -/
def classicOp (code : BitVec 16) : Option ClassicOp := ClassicOp.all.find? fun op => op.code == code

theorem code_of_classicOp
    {code : BitVec 16}
    {op : ClassicOp}
    (found : classicOp code = some op) :
    op.code = code := by
  have matched := List.find?_some found
  simpa using matched

def bpfMaxinsns : Nat := 4096
def bpfMemwords : Nat := 16

/-- `SKF_AD_OFF`, as the unsigned value compared with `k`. -/
def skfAdOff : BitVec 32 := -0x1000

/-- The ancillary offsets of `bpf_anc_helper`. -/
inductive Ancillary where
  | protocol
  | pkttype
  | ifindex
  | nlattr
  | nlattrNest
  | mark
  | queue
  | hatype
  | rxhash
  | cpu
  | aluXorX
  | vlanTag
  | vlanTagPresent
  | payOffset
  | random
  | vlanTpid
  deriving Repr, DecidableEq

namespace Ancillary

/-- `SKF_AD_##CODE`. -/
def code : Ancillary → BitVec 32
  | .protocol => 0
  | .pkttype => 4
  | .ifindex => 8
  | .nlattr => 12
  | .nlattrNest => 16
  | .mark => 20
  | .queue => 24
  | .hatype => 28
  | .rxhash => 32
  | .cpu => 36
  | .aluXorX => 40
  | .vlanTag => 44
  | .vlanTagPresent => 48
  | .payOffset => 52
  | .random => 56
  | .vlanTpid => 60

def all : List Ancillary :=
  [.protocol, .pkttype, .ifindex, .nlattr, .nlattrNest, .mark, .queue,
    .hatype, .rxhash, .cpu, .aluXorX, .vlanTag, .vlanTagPresent, .payOffset, .random, .vlanTpid]

/-- The ancillary field of an absolute load with this `k`. -/
def ofOffset (k : BitVec 32) : Option Ancillary := all.find? fun field => skfAdOff + field.code == k

end Ancillary

/-- `bpf_anc_helper(ftest) & BPF_ANC`. -/
def isAncillary (ftest : SockFilter) : Bool :=
  match classicOp ftest.code with
  | some (.ldAbs _) => (Ancillary.ofOffset ftest.k).isSome
  | _ => false

/-- `chk_code_allowed`. -/
def chkCodeAllowed (codeToProbe : BitVec 16) : Bool :=
  ClassicOp.codes.any fun op => op.code == codeToProbe

/-- The special checks of `bpf_check_classic` on one instruction. -/
def checkInsn (flen pc : Nat) (ftest : SockFilter) : Bool :=
  match classicOp ftest.code with
  | some (.alu .div .k) => ftest.k ≠ 0
  | some (.alu .mod .k) => ftest.k ≠ 0
  | some (.alu .lsh .k) => ftest.k.toNat < 32
  | some (.alu .rsh .k) => ftest.k.toNat < 32
  | some .ldMem => ftest.k.toNat < bpfMemwords
  | some .ldxMem => ftest.k.toNat < bpfMemwords
  | some .st => ftest.k.toNat < bpfMemwords
  | some .stx => ftest.k.toNat < bpfMemwords
  | some .ja => ftest.k.toNat < flen - pc - 1
  | some (.jmp _ _) => pc + ftest.jt.toNat + 1 < flen ∧ pc + ftest.jf.toNat + 1 < flen
  | some (.ldAbs _) => isAncillary ftest || ftest.k < skfAdOff
  | _ => true

/-- The loop of `bpf_check_classic` from instruction `pc` on. -/
def checkInsns (flen : Nat) : Nat → List SockFilter → Bool
  | _, [] => true
  | pc, ftest :: rest =>
    chkCodeAllowed ftest.code && checkInsn flen pc ftest && checkInsns flen (pc + 1) rest

/-- `masks[target] &= memvalid`. -/
def restrictMask (masks : Nat → BitVec 16) (target : Nat)
    (memvalid : BitVec 16) : Nat → BitVec 16 :=
  update masks target (masks target &&& memvalid)

/-- The loop of `check_load_and_stores` from instruction `pc` on. -/
def checkLoadAndStoresFrom (masks : Nat → BitVec 16) (memvalid : BitVec 16)
    (pc : Nat) : List SockFilter → Bool
  | [] => true
  | insn :: rest =>
    let valid := memvalid &&& masks pc
    match classicOp insn.code with
    | some .st => checkLoadAndStoresFrom masks (valid ||| 1 <<< insn.k.toNat) (pc + 1) rest
    | some .stx => checkLoadAndStoresFrom masks (valid ||| 1 <<< insn.k.toNat) (pc + 1) rest
    | some .ldMem =>
      valid &&& 1 <<< insn.k.toNat ≠ 0 && checkLoadAndStoresFrom masks valid (pc + 1) rest
    | some .ldxMem =>
      valid &&& 1 <<< insn.k.toNat ≠ 0 && checkLoadAndStoresFrom masks valid (pc + 1) rest
    | some .ja =>
      checkLoadAndStoresFrom (restrictMask masks (pc + 1 + insn.k.toNat) valid) (~~~0) (pc + 1) rest
    | some (.jmp _ _) =>
      checkLoadAndStoresFrom (restrictMask (restrictMask masks (pc + 1 + insn.jt.toNat) valid)
          (pc + 1 + insn.jf.toNat) valid) (~~~0) (pc + 1) rest
    | _ => checkLoadAndStoresFrom masks valid (pc + 1) rest

/-- `check_load_and_stores`; `allocated`: `kmalloc_array` worked. -/
def checkLoadAndStores (allocated : Bool) (filter : List SockFilter) : Except Errno Unit :=
  if allocated then
    if checkLoadAndStoresFrom (fun _ => ~~~0) 0 0 filter then .ok ()
    else .error .einval
  else .error .enomem

/-- `bpf_check_classic`. -/
def bpfCheckClassic (allocated : Bool) (filter : List SockFilter) : Except Errno Unit :=
  if checkInsns filter.length 0 filter then
    match filter.getLast?.bind fun insn => classicOp insn.code with
    | some .retK => checkLoadAndStores allocated filter
    | some .retA => checkLoadAndStores allocated filter
    | _ => .error .einval
  else .error .einval

/-- Registers and scratch words of a classic program. -/
structure ClassicState where
  a : BitVec 32
  x : BitVec 32
  mem : Nat → BitVec 32

/-- A classic program between two instructions. -/
structure ClassicConfig where
  pc : Nat
  state : ClassicState

/-- The comparison of a classic conditional jump. -/
def classicTaken : ClassicJmp → BitVec 32 → BitVec 32 → Bool
  | .jeq, a, operand => a == operand
  | .jset, a, operand => a &&& operand != 0
  | .jgt, a, operand => operand.ult a
  | .jge, a, operand => operand.ule a

/-- The operand that the source bit selects. -/
def classicOperand (state : ClassicState) (k : BitVec 32) : Src → BitVec 32
  | .k => k
  | .x => state.x

/-- A packet load fails with verdict zero or yields a word. -/
def classicLoad (skb : SkBuff) (off : BitVec 32) (size : PacketSize)
    (loaded : BitVec 32 → StepResult ClassicConfig (Option (BitVec 32))) :
    StepResult ClassicConfig (Option (BitVec 32)) :=
  match bpfLoadPointer skb off size.bytes with
  | some bytes => loaded (getUnalignedBe bytes)
  | none => .halt (some 0)

/--
One step of a classic program on the packet `skb`. No checked program reaches
a verdict `none`.
-/
def classicStep (host : Host) (skb : SkBuff) (filter : List SockFilter) (config : ClassicConfig) :
    StepResult ClassicConfig (Option (BitVec 32)) :=
  match filter[config.pc]? with
  | none => .halt none
  | some insn =>
    let state := config.state
    let continueWith (following : ClassicState) : StepResult ClassicConfig (Option (BitVec 32)) :=
      .next ⟨config.pc + 1, following⟩
    match classicOp insn.code with
    | some (.alu op src) =>
      let operand := classicOperand state insn.k src
      if op.toAluOp.divides ∧ operand = 0 then .halt (some 0)
      else continueWith { state with a := alu32 host op.toAluOp state.a operand }
    | some .neg => continueWith { state with a := -state.a }
    | some (.ldAbs size) =>
      classicLoad skb insn.k size fun word => continueWith { state with a := word }
    | some (.ldInd size) =>
      classicLoad skb (state.x + insn.k) size fun word => continueWith { state with a := word }
    | some .ldLen => continueWith { state with a := skb.len }
    | some .ldImm => continueWith { state with a := insn.k }
    | some .ldMem => continueWith { state with a := state.mem insn.k.toNat }
    | some .ldxLen => continueWith { state with x := skb.len }
    | some .ldxMsh =>
      classicLoad skb insn.k .b fun word => continueWith { state with x := (word &&& 0xf) <<< 2 }
    | some .ldxImm => continueWith { state with x := insn.k }
    | some .ldxMem => continueWith { state with x := state.mem insn.k.toNat }
    | some .st => continueWith { state with mem := update state.mem insn.k.toNat state.a }
    | some .stx => continueWith { state with mem := update state.mem insn.k.toNat state.x }
    | some .tax => continueWith { state with x := state.a }
    | some .txa => continueWith { state with a := state.x }
    | some .retK => .halt (some insn.k)
    | some .retA => .halt (some state.a)
    | some .ja => .next ⟨config.pc + 1 + insn.k.toNat, state⟩
    | some (.jmp op src) =>
      if classicTaken op state.a (classicOperand state insn.k src) then
        .next ⟨config.pc + 1 + insn.jt.toNat, state⟩
      else .next ⟨config.pc + 1 + insn.jf.toNat, state⟩
    | some .ldxAbs => .halt none
    | none => .halt none

/-- `A` and `X` start at zero; the scratch words hold whatever they held. -/
def classicInitial (scratch : Nat → BitVec 32) : ClassicConfig := ⟨0, ⟨0, 0, scratch⟩⟩

/-- The classic program ends with `verdict` on the packet. -/
def ClassicReturns (host : Host) (skb : SkBuff) (filter : List SockFilter)
    (scratch : Nat → BitVec 32) (verdict : BitVec 32) : Prop :=
  Terminates (classicStep host skb filter) (classicInitial scratch) (some verdict)

end EchoKernel.Bpf
