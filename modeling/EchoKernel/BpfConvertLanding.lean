import EchoKernel.BpfConvertAccepted

namespace EchoKernel.Bpf

open ConcatenatedBlocks Option

/-!
# Where converted jumps land

Every jump of a converted program stands for one target of its classic
instruction, and its offset leads to the first instruction of that target's
block.
-/

variable {layout : SkbLayout} {filter : List SockFilter} {insn : Insn} {label : Label}
variable {block : List Insn}

/--
The classic target of a jump in a block: a comparison goes to `jt`, an
inverted one and a jump after a comparison to `jf`.
-/
def classicTarget (pc : Nat) (fp : SockFilter) : ClassicOp → Label → Option Nat
  | .ja, .ja => some (pc + 1 + fp.k.toNat)
  | .jmp _ _, .jmp .jne _ => some (pc + 1 + fp.jf.toNat)
  | .jmp _ _, .jmp _ _ => some (pc + 1 + fp.jt.toNat)
  | .jmp _ _, .ja => some (pc + 1 + fp.jf.toNat)
  | _, _ => none

/-- The block contains no jump. -/
def StraightLine (block : List Insn) : Prop :=
  ∀ insn ∈ block, ∃ label : Label, insn.code = label.code ∧ label.isJump = false

variable {offset pc : Nat} {fp : SockFilter}

theorem StraightLine.no_jump
    (straight : StraightLine block)
    (here : block[offset]? = some insn)
    (dispatched : jumptable insn.code = some label) :
    label.isJump = false := by
  obtain ⟨found, sameCode, noJump⟩ := straight insn (List.mem_of_getElem? here)
  rw [sameCode, jumptable_code] at dispatched
  cases dispatched
  exact noJump

theorem StraightLine.singleton
    (label : Label)
    (sameCode : insn.code = label.code)
    (noJump : label.isJump = false) :
    StraightLine [insn] := by
  intro other member
  rw [List.mem_singleton] at member
  subst member
  exact ⟨label, sameCode, noJump⟩

theorem StraightLine.cons
    {rest : List Insn}
    (label : Label)
    (sameCode : insn.code = label.code)
    (noJump : label.isJump = false)
    (later : StraightLine rest) :
    StraightLine (insn :: rest) := by
  exact List.forall_mem_cons.mpr ⟨⟨label, sameCode, noJump⟩, later⟩

theorem convertBpfExtensions_of_plain
    {size : PacketSize}
    (plain : isAncillary fp = false)
    (selected : classicOp fp.code = some (.ldAbs size)) :
    convertBpfExtensions layout fp = none := by
  simp only [isAncillary, selected, isSome_eq_false_iff, isNone_iff_eq_none] at plain
  simp only [convertBpfExtensions, plain]

/-- Only jumps convert to blocks with jumps. -/
theorem straightLine_of_convertInsn
    {addrs : Addrs}
    {len : Nat}
    {op : ClassicOp}
    (plain : isAncillary fp = false)
    (selected : classicOp fp.code = some op)
    (notJa : op ≠ .ja)
    (notJmp : ∀ cmp src, op ≠ .jmp cmp src)
    (converts : convertInsn layout addrs len pc fp = some block) :
    StraightLine block := by
  have raw := setWidth_code selected
  rw [convertInsn, selected] at converts
  cases op with
  | ja => exact absurd rfl notJa
  | jmp cmp src => exact absurd rfl (notJmp cmp src)
  | ldAbs size =>
    rw [convertBpfExtensions_of_plain plain selected] at converts
    cases converts
    exact StraightLine.singleton (.ldAbs size) raw rfl
  | alu op src =>
    cases converts
    exact StraightLine.singleton (.alu .w32 op.toAluOp src) raw rfl
  | neg =>
    cases converts
    exact StraightLine.singleton (.neg .w32) raw rfl
  | ldInd size =>
    cases converts
    exact StraightLine.singleton (.ldInd size) raw rfl
  | ldxMsh =>
    cases converts
    exact .cons (.alu .w64 .mov .x) rfl rfl (.cons (.ldAbs .b) rfl rfl
      (.cons (.alu .w32 .and .k) rfl rfl (.cons (.alu .w32 .lsh .k) rfl rfl
      (.cons (.alu .w64 .mov .x) rfl rfl (.singleton (.alu .w64 .mov .x) rfl rfl)))))
  | retK =>
    cases converts
    exact .cons (.alu .w32 .mov .k) rfl rfl (.singleton .exit rfl rfl)
  | retA =>
    cases converts
    exact .singleton .exit rfl rfl
  | st | stx =>
    cases converts
    exact .singleton (.stxMem .w) rfl rfl
  | ldMem | ldxMem | ldLen | ldxLen | ldxAbs =>
    cases converts
    exact .singleton (.ldxMem .w) rfl rfl
  | ldImm | ldxImm =>
    cases converts
    exact .singleton (.alu .w32 .mov .k) rfl rfl
  | tax | txa =>
    cases converts
    exact .singleton (.alu .w64 .mov .x) rfl rfl

theorem straightLine_convertJmpOperands
    (src : Src)
    (k : BitVec 32) :
    StraightLine (convertJmpOperands src k).1 := by
  unfold convertJmpOperands
  split
  · exact .singleton (.alu .w32 .mov .k) rfl rfl
  · intro insn member
    cases member

/-- An instruction after a prefix is in the rest. -/
private theorem getElem?_append_cases
    {first second : List Insn}
    {offset : Nat}
    (here : (first ++ second)[offset]? = some insn) :
    first[offset]? = some insn ∨
    ∃ rest, offset = first.length + rest ∧ second[rest]? = some insn := by
  by_cases inFirst : offset < first.length
  · rw [List.getElem?_append_left inFirst] at here
    exact .inl here
  · rw [List.getElem?_append_right (not_lt.mp inFirst)] at here
    exact .inr ⟨offset - first.length, by omega, here⟩

private theorem label_of_jumptable
    {code : BitVec 8}
    (found : Label)
    (dispatched : jumptable code = some label)
    (sameCode : code = found.code) :
    label = found := by
  rw [sameCode, jumptable_code] at dispatched
  exact (some.inj dispatched).symm

private theorem classicTarget_compare
    (pc : Nat)
    (fp : SockFilter)
    (op : ClassicJmp)
    (src bpfSrc : Src) :
    classicTarget pc fp (.jmp op src) (.jmp op.toJmpOp bpfSrc) = some (pc + 1 + fp.jt.toNat) := by
  cases op <;> rfl

/-- The jumps in a classic conditional jump's block. -/
theorem jump_lands_jmp
    (short : filter.length ≤ bpfMaxinsns)
    {cmp : ClassicJmp}
    {src : Src}
    (trueInside : pc + 1 + fp.jt.toNat < filter.length)
    (falseInside : pc + 1 + fp.jf.toNat < filter.length)
    (converts : convertJmp (some (finalAddrs layout filter)) filter.length pc cmp src fp =
      some block)
    (here : block[offset]? = some insn)
    (dispatched : jumptable insn.code = some label)
    (jumps : label.isJump = true) :
    ∃ target,
    classicTarget pc fp (.jmp cmp src) label = some target ∧ target < filter.length ∧
    insn.off.toInt = (blockAddr layout filter target : Int) -
    blockAddr layout filter pc - 1 - offset := by
  have inside : pc < filter.length := by omega
  have slotBound := convertJmpOperands_length src fp.k
  have afterOperands : ∀ {tail}, ((convertJmpOperands src fp.k).1 ++ tail)[offset]? = some insn →
      ∃ rest, offset = (convertJmpOperands src fp.k).1.length + rest ∧ tail[rest]? = some insn := by
    intro tail here
    rcases getElem?_append_cases here with before | after
    · have noJump := (straightLine_convertJmpOperands src fp.k).no_jump before dispatched
      rw [jumps] at noJump
      cases noJump
    · exact after
  rcases convertJmp_cases converts with
    ⟨off, -, emitted, rfl⟩ |
    ⟨off, -, rfl, emitted, rfl⟩ |
    ⟨offTrue, offFalse, emittedTrue, emittedFalse, rfl⟩
  all_goals obtain ⟨rest, rfl, after⟩ := afterOperands here
  · have distance := off_of_bpfEmitJmp short inside trueInside (by omega) emitted
    cases rest with
    | zero =>
      cases after
      have isCompare := label_of_jumptable (.jmp cmp.toJmpOp _) dispatched rfl
      subst isCompare
      exact ⟨_, classicTarget_compare pc fp cmp src _, trueInside, distance⟩
    | succ rest => simp at after
  · have distance := off_of_bpfEmitJmp short inside falseInside (by omega) emitted
    cases rest with
    | zero =>
      cases after
      have isInverted := label_of_jumptable (.jmp .jne _) dispatched rfl
      subst isInverted
      exact ⟨_, rfl, falseInside, distance⟩
    | succ rest => simp at after
  have trueDistance := off_of_bpfEmitJmp short inside trueInside (by omega) emittedTrue
  have falseDistance := off_of_bpfEmitJmp short inside falseInside (by omega) emittedFalse
  rcases rest with - | - | rest
  · cases after
    have isCompare := label_of_jumptable (.jmp cmp.toJmpOp _) dispatched rfl
    subst isCompare
    exact ⟨_, classicTarget_compare pc fp cmp src _, trueInside, trueDistance⟩
  · cases after
    have isJa := label_of_jumptable .ja dispatched rfl
    subst isJa
    exact ⟨_, rfl, falseInside, falseDistance⟩
  · simp at after

/-- Every jump of a block goes to the block of its target. -/
theorem jump_lands
    (accepted : AcceptedFilter filter)
    (short : filter.length ≤ bpfMaxinsns)
    {op : ClassicOp}
    (plain : isAncillary fp = false)
    (found : filter[pc]? = some fp)
    (selected : classicOp fp.code = some op)
    (converts : convertInsn layout (some (finalAddrs layout filter)) filter.length pc fp =
      some block)
    (here : block[offset]? = some insn)
    (dispatched : jumptable insn.code = some label)
    (jumps : label.isJump = true) :
    ∃ target,
    classicTarget pc fp op label = some target ∧ target < filter.length ∧ insn.off.toInt =
    (blockAddr layout filter target : Int) - blockAddr layout filter pc - 1 - offset := by
  have inside : pc < filter.length := (List.getElem?_eq_some_iff.mp found).1
  by_cases isJa : op = .ja
  · subst isJa
    have targetInside := accepted.ja_inside found selected
    rw [convertInsn_ja short selected targetInside] at converts
    obtain ⟨off, emitted, rfl⟩ := map_eq_some_iff.mp converts
    have distance := off_of_bpfEmitJmp short inside targetInside (by omega) emitted
    cases offset with
    | zero =>
      cases here
      have same := label_of_jumptable .ja dispatched (setWidth_code selected)
      subst same
      exact ⟨_, rfl, targetInside, distance⟩
    | succ offset => simp at here
  · by_cases isJmp : ∃ cmp src, op = .jmp cmp src
    · obtain ⟨cmp, src, rfl⟩ := isJmp
      obtain ⟨trueInside, falseInside⟩ := accepted.jmp_inside found selected
      simp only [convertInsn, selected] at converts
      exact jump_lands_jmp short trueInside falseInside converts here dispatched jumps
    have straight :=
      straightLine_of_convertInsn plain selected isJa
        (fun cmp src isOp => isJmp ⟨cmp, src, isOp⟩) converts
    have noJump := straight.no_jump here dispatched
    rw [jumps] at noJump
    cases noJump

/-- Every jump of the converted program, by position. -/
theorem converted_jump_lands
    (accepted : AcceptedFilter filter)
    (short : filter.length ≤ bpfMaxinsns)
    (plain : ∀ fp ∈ filter, isAncillary fp = false)
    {position : Nat}
    (here : (converted layout filter)[position]? = some insn)
    (dispatched : jumptable insn.code = some label)
    (jumps : label.isJump = true) :
    ∃ pc fp op target, filter[pc]? = some fp ∧ classicOp fp.code = some op ∧
    blockAddr layout filter pc ≤ position ∧ position < blockAddr layout filter (pc + 1) ∧
    classicTarget pc fp op label = some target ∧ target < filter.length ∧
    (position : Int) + insn.off.toInt + 1 = blockAddr layout filter target := by
  have convertible := accepted.convertible layout short
  have straight : StraightLine convertPrologue :=
    .cons (.alu .w64 .xor .x) rfl rfl (.cons (.alu .w64 .xor .x) rfl rfl
      (.singleton (.alu .w64 .mov .x) rfl rfl))
  rcases getElem?_append_cases here with inPrologue | ⟨rest, rfl, after⟩
  · have noJump := straight.no_jump inPrologue dispatched
    rw [jumps] at noJump
    cases noJump
  obtain ⟨pc, block, offset, blockFound, insnFound, shape⟩ := exists_block_of_getElem? after
  have inside : pc < filter.length := by
    have bound := (List.getElem?_eq_some_iff.mp blockFound).1
    simpa [blocksUnder] using bound
  have found : filter[pc]? = some filter[pc] := List.getElem?_eq_getElem inside
  obtain ⟨op, -, selected⟩ := accepted.allowed found
  obtain ⟨counted, countedConverts⟩ := convertible pc _ found
  obtain ⟨converted, converts, -⟩ :=
    convertInsn_of_counted countedConverts (some (finalAddrs layout filter))
  rw [getElem?_blocksUnder layout _ found, blockUnder, converts, some.injEq] at blockFound
  subst blockFound
  have bound : offset < converted.length := (List.getElem?_eq_some_iff.mp insnFound).1
  have position : convertPrologue.length + rest = blockAddr layout filter pc + offset := by
    rw [shape, blockAddr, Nat.add_assoc, blockStart_congr (map_length_blocksUnder convertible none
      (some (finalAddrs layout filter)))]
  have nextBlock := blockAddr_succ convertible found converts
  obtain ⟨target, stands, targetInside, distance⟩ :=
    jump_lands accepted short (plain _ (List.getElem_mem inside)) found
      selected converts insnFound dispatched jumps
  refine ⟨pc, _, op, target, found, selected, ?_, ?_, stands, targetInside, ?_⟩
  · omega
  · omega
  · omega

end EchoKernel.Bpf
