import EchoKernel.BpfClassic

namespace EchoKernel.Bpf

/-!
# Conversion of classic to extended BPF

`bpf_convert_filter` turns every classic instruction into a block of one to
six extended ones. Jump offsets need the start of the target block, so the
conversion runs twice: the first pass fills the `addrs` table, the second one
emits the code.
-/

/-- Field offsets and helper addresses that are compiled in. -/
structure SkbLayout where
  len : BitVec 16
  protocol : BitVec 16
  pktTypeOffset : BitVec 16
  mark : BitVec 16
  queueMapping : BitVec 16
  vlanTci : BitVec 16
  vlanProto : BitVec 16
  hash : BitVec 16
  dev : BitVec 16
  netDeviceIfindex : BitVec 16
  netDeviceType : BitVec 16
  skbGetPayOffset : BitVec 32
  skbGetNlattr : BitVec 32
  skbGetNlattrNest : BitVec 32
  getRawCpuId : BitVec 32
  bpfUserRndU32 : BitVec 32

/-- The fields that `convert_skb_access` reads. -/
inductive SkbField where
  | mark
  | pkttype
  | queue
  | vlanTag
  | vlanTagPresent
  deriving Repr, DecidableEq

section
variable (layout : SkbLayout)

/-- `convert_skb_access` on a little-endian machine. -/
def convertSkbAccess (skbField : SkbField) (dstReg srcReg : BitVec 4) : List Insn :=
  match skbField with
  | .mark => [bpfLdxMem Size.w.code dstReg srcReg layout.mark]
  | .pkttype =>
    [bpfLdxMem Size.b.code dstReg srcReg layout.pktTypeOffset, bpfAlu32Imm AluOp.and.code dstReg 7]
  | .queue => [bpfLdxMem Size.h.code dstReg srcReg layout.queueMapping]
  | .vlanTag =>
    [bpfLdxMem Size.h.code dstReg srcReg layout.vlanTci,
      bpfAlu32Imm AluOp.and.code dstReg (~~~0x1000)]
  | .vlanTagPresent =>
    [bpfLdxMem Size.h.code dstReg srcReg layout.vlanTci, bpfAlu32Imm AluOp.rsh.code dstReg 12,
      bpfAlu32Imm AluOp.and.code dstReg 1]

/-- Load a field of `skb->dev`, returning early without a device. -/
def convertDevAccess (size : Size) (field : BitVec 16) : List Insn :=
  [bpfLdxMem Size.w.code bpfRegTmp bpfRegCtx layout.dev, bpfJmpImm JmpOp.jne.code bpfRegTmp 0 1,
    bpfExitInsn, bpfLdxMem size.code bpfRegA bpfRegTmp field]

/-- Call a helper with the context, `A` and `X`. -/
def convertHelperCall (func : BitVec 32) : List Insn :=
  [bpfMov64Reg bpfRegArg1 bpfRegCtx, bpfMov64Reg bpfRegArg2 bpfRegA, bpfMov64Reg bpfRegArg3 bpfRegX,
    bpfEmitCall func]

/-- `convert_bpf_extensions`; `none` is the result `false`. -/
def convertBpfExtensions (fp : SockFilter) : Option (List Insn) :=
  match Ancillary.ofOffset fp.k with
  | some .protocol =>
    some [bpfLdxMem Size.h.code bpfRegA bpfRegCtx layout.protocol, bpfEndian 0x08 bpfRegA 16]
  | some .pkttype => some (convertSkbAccess layout .pkttype bpfRegA bpfRegCtx)
  | some .ifindex => some (convertDevAccess layout .w layout.netDeviceIfindex)
  | some .hatype => some (convertDevAccess layout .h layout.netDeviceType)
  | some .mark => some (convertSkbAccess layout .mark bpfRegA bpfRegCtx)
  | some .rxhash => some [bpfLdxMem Size.w.code bpfRegA bpfRegCtx layout.hash]
  | some .queue => some (convertSkbAccess layout .queue bpfRegA bpfRegCtx)
  | some .vlanTag => some (convertSkbAccess layout .vlanTag bpfRegA bpfRegCtx)
  | some .vlanTagPresent => some (convertSkbAccess layout .vlanTagPresent bpfRegA bpfRegCtx)
  | some .vlanTpid =>
    some [bpfLdxMem Size.h.code bpfRegA bpfRegCtx layout.vlanProto, bpfEndian 0x08 bpfRegA 16]
  | some .payOffset => some (convertHelperCall layout.skbGetPayOffset)
  | some .nlattr => some (convertHelperCall layout.skbGetNlattr)
  | some .nlattrNest => some (convertHelperCall layout.skbGetNlattrNest)
  | some .cpu => some (convertHelperCall layout.getRawCpuId)
  | some .random => some (convertHelperCall layout.bpfUserRndU32)
  | some .aluXorX => some [bpfAlu32Reg AluOp.xor.code bpfRegA bpfRegX]
  | none => none

/-- The block start addresses, absent while only counting. -/
abbrev Addrs := Option (Nat → Int)

variable (addrs : Addrs) (len i : Nat)

/-- `BPF_EMIT_JMP` for slot `slot` of the block of classic instruction `i`. -/
def bpfEmitJmp (target : Int) (slot : Nat) : Option (BitVec 16) :=
  if target ≥ len ∨ target < 0 then none
  else
    let off : BitVec 16 :=
      match addrs with
      | some table => BitVec.ofInt 16 (table target.toNat - table i - 1)
      | none => 0
    some (off - BitVec.ofNat 16 slot)

/--
The operands of a converted conditional jump: the instructions before it, its
registers, immediate and source bit. A negative constant, which the comparison
would sign extend, goes through the temporary register.
-/
def convertJmpOperands (src : Src) (k : BitVec 32) : List Insn × (BitVec 4 × BitVec 32) × Src :=
  if src = .k ∧ k.toInt < 0 then ([bpfMov32Imm bpfRegTmp k], (bpfRegTmp, 0), .x)
  else ([], (if src = .x then bpfRegX else 0, k), src)

/-- The conditional jumps of the conversion's switch. -/
def convertJmp (op : ClassicJmp) (src : Src) (fp : SockFilter) : Option (List Insn) :=
  let (before, (srcReg, imm), bpfSrc) := convertJmpOperands src fp.k
  let slot := before.length
  if fp.jf = 0 then do
    let off ← bpfEmitJmp addrs len i (i + fp.jt.toNat + 1) slot
    return before ++ [⟨bpfJmp ||| op.toJmpOp.code ||| bpfSrc.code, bpfRegA, srcReg, off, imm⟩]
  else if fp.jt = 0 ∧ op = .jeq then do
    let off ← bpfEmitJmp addrs len i (i + fp.jf.toNat + 1) slot
    return before ++ [⟨bpfJmp ||| JmpOp.jne.code ||| bpfSrc.code, bpfRegA, srcReg, off, imm⟩]
  else do
    let offTrue ← bpfEmitJmp addrs len i (i + fp.jt.toNat + 1) slot
    let offFalse ← bpfEmitJmp addrs len i (i + fp.jf.toNat + 1) (slot + 1)
    return before ++ [⟨bpfJmp ||| op.toJmpOp.code ||| bpfSrc.code, bpfRegA, srcReg, offTrue, imm⟩,
        ⟨bpfJmp ||| bpfJa, 0, 0, offFalse, 0⟩]

/-- `-(BPF_MEMWORDS - fp->k) * 4`, cut to the offset field. -/
def scratchOff (k : BitVec 32) : BitVec 16 := (-(16 - k) * 4).setWidth 16

/--
The block of classic instruction `i`: `tmp_insns` after the switch, or `none`
for the jump to `err`.
-/
def convertInsn (fp : SockFilter) : Option (List Insn) :=
  let raw : Insn := ⟨fp.code.setWidth 8, bpfRegA, bpfRegX, 0, fp.k⟩
  match classicOp fp.code with
  | some (.alu _ _) => some [raw]
  | some .neg => some [raw]
  | some (.ldAbs _) =>
    match convertBpfExtensions layout fp with
    | some code => some code
    | none => some [raw]
  | some (.ldInd _) => some [raw]
  | some .ja => do
      let target := (BitVec.ofNat 32 i + fp.k + 1).toInt
      let off ← bpfEmitJmp addrs len i target 0
      return [⟨fp.code.setWidth 8, 0, 0, off, 0⟩]
  | some (.jmp op src) => convertJmp addrs len i op src fp
  | some .ldxMsh =>
    some [bpfMov64Reg bpfRegTmp bpfRegA, bpfLdAbs Size.b.code fp.k,
      bpfAlu32Imm AluOp.and.code bpfRegA 0xf, bpfAlu32Imm AluOp.lsh.code bpfRegA 2,
      bpfMov64Reg bpfRegX bpfRegA, bpfMov64Reg bpfRegA bpfRegTmp]
  | some .retA => some [bpfExitInsn]
  | some .retK => some [bpfMov32Raw .k bpfReg0 0 fp.k, bpfExitInsn]
  | some .st => some [bpfStxMem Size.w.code bpfRegFp bpfRegA (scratchOff fp.k)]
  | some .stx => some [bpfStxMem Size.w.code bpfRegFp bpfRegX (scratchOff fp.k)]
  | some .ldMem => some [bpfLdxMem Size.w.code bpfRegA bpfRegFp (scratchOff fp.k)]
  | some .ldxMem => some [bpfLdxMem Size.w.code bpfRegX bpfRegFp (scratchOff fp.k)]
  | some .ldImm => some [bpfMov32Imm bpfRegA fp.k]
  | some .ldxImm => some [bpfMov32Imm bpfRegX fp.k]
  | some .tax => some [bpfMov64Reg bpfRegX bpfRegA]
  | some .txa => some [bpfMov64Reg bpfRegA bpfRegX]
  | some .ldLen => some [bpfLdxMem Size.w.code bpfRegA bpfRegCtx layout.len]
  | some .ldxLen => some [bpfLdxMem Size.w.code bpfRegX bpfRegCtx layout.len]
  | some .ldxAbs => some [bpfLdxMem Size.w.code bpfRegA bpfRegCtx (fp.k.setWidth 16)]
  | none => none

/-- The prologue: reset `A` and `X`, and save the context. -/
def convertPrologue : List Insn :=
  [bpfAlu64Reg AluOp.xor.code bpfRegA bpfRegA, bpfAlu64Reg AluOp.xor.code bpfRegX bpfRegX,
    bpfMov64Reg bpfRegCtx bpfRegArg1]

/--
The loop of one pass over the classic instructions from `i` on; `newInsn`
counts the instructions emitted so far.
-/
def convertFrom (layout : SkbLayout) (len : Nat) :
    Addrs → Nat → Nat → List SockFilter → Option (List Insn × Addrs)
  | addrs, _, _, [] => some ([], addrs)
  | addrs, newInsn, i, fp :: rest => do
      let filled := addrs.map fun table => Function.update table i newInsn
      let tmpInsns ← convertInsn layout filled len i fp
      let (code, final) ← convertFrom layout len filled (newInsn + tmpInsns.length) (i + 1) rest
      return (tmpInsns ++ code, final)

/--
The passes after `do_pass` with an output buffer, until two agree on the
length. `fuel` bounds the three rounds that `pass > 2` allows.
-/
def convertPasses (layout : SkbLayout) (prog : List SockFilter) :
    Nat → Nat → Nat → Addrs → Option (List Insn)
  | 0, _, _, _ => none
  | fuel + 1, pass, newFlen, addrs => do
      let (body, filled) ← convertFrom layout prog.length addrs convertPrologue.length 0 prog
      let code := convertPrologue ++ body
      if newFlen ≠ code.length then
        if pass + 1 > 2 then none
        else convertPasses layout prog fuel (pass + 1) code.length filled
      else return code

/-- `bpf_convert_filter` without a buffer: the new length. -/
def bpfConvertFilterLength (prog : List SockFilter) : KernelResult Nat :=
  if prog.length = 0 ∨ bpfMaxinsns < prog.length then .error .einval
  else
    match convertFrom layout prog.length none convertPrologue.length 0 prog with
    | some (body, _) => .ok (convertPrologue.length + body.length)
    | none => .error .einval

/-- `bpf_convert_filter` into a buffer of `newLen` instructions. -/
def bpfConvertFilter (allocated : Bool) (prog : List SockFilter)
    (newLen : Nat) : KernelResult (List Insn) :=
  if prog.length = 0 ∨ bpfMaxinsns < prog.length then .error .einval
  else if allocated then
    match convertPasses layout prog 3 0 0 (some fun _ => 0) with
    | some code => if code.length = newLen then .ok code else .bug
    | none => .error .einval
  else .error .enomem

end

end EchoKernel.Bpf
