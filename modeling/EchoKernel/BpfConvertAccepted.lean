import EchoKernel.BpfConvertBranches

namespace EchoKernel.Bpf

/-!
# Accepted programs convert

The checks of `bpf_check_classic` are what the conversion needs: every jump
target is an instruction, and control moves forward until a return.
-/

variable {layout : SkbLayout} {filter : List SockFilter} {fp : SockFilter}

theorem AcceptedFilter.jmp_inside
    (accepted : AcceptedFilter filter)
    {pc : Nat}
    {op : ClassicJmp}
    {src : Src}
    (found : filter[pc]? = some fp)
    (selected : classicOp fp.code = some (.jmp op src)) :
    pc + 1 + fp.jt.toNat < filter.length ∧ pc + 1 + fp.jf.toNat < filter.length := by
  have checked := accepted.checked found
  simp only [checkInsn, selected, decide_eq_true_eq] at checked
  omega

theorem AcceptedFilter.ja_inside
    (accepted : AcceptedFilter filter)
    {pc : Nat}
    (found : filter[pc]? = some fp)
    (selected : classicOp fp.code = some .ja) :
    pc + 1 + fp.k.toNat < filter.length := by
  have checked := accepted.checked found
  simp only [checkInsn, selected, decide_eq_true_eq] at checked
  omega

theorem convertInsn_ja
    (short : filter.length ≤ bpfMaxinsns)
    {pc : Nat}
    {addrs : Addrs}
    (selected : classicOp fp.code = some .ja)
    (inside : pc + 1 + fp.k.toNat < filter.length) :
    convertInsn layout addrs filter.length pc fp =
    (bpfEmitJmp addrs filter.length pc ((pc + 1 + fp.k.toNat : Nat) : Int) 0).map
    fun off => [⟨fp.code.setWidth 8, 0, 0, off, 0⟩] := by
  have target := jaTarget_eq short (i := pc) (k := fp.k) (by omega)
  simp only [convertInsn, selected, target, pure]
  cases bpfEmitJmp addrs filter.length pc ((pc + 1 + fp.k.toNat : Nat) : Int) 0 <;> rfl

/-- An accepted conditional jump converts. -/
theorem convertJmp_isSome
    {addrs : Addrs}
    {len pc : Nat}
    {op : ClassicJmp}
    {src : Src}
    (trueInside : pc + 1 + fp.jt.toNat < len)
    (falseInside : pc + 1 + fp.jf.toNat < len) :
    ∃ block, convertJmp addrs len pc op src fp = some block := by
  have emits : ∀ {target : Nat} (slot : Nat), target < len →
      ∃ off, bpfEmitJmp addrs len pc target slot = some off :=
    fun slot inside => bpfEmitJmp_of_inside inside
  obtain ⟨offTrue, emitsTrue⟩ := emits (convertJmpOperands src fp.k).1.length trueInside
  obtain ⟨offOnlyFalse, emitsOnlyFalse⟩ := emits (convertJmpOperands src fp.k).1.length falseInside
  obtain ⟨offFalse, emitsFalse⟩ := emits ((convertJmpOperands src fp.k).1.length + 1) falseInside
  unfold convertJmp
  simp only [jmpTarget_eq, emitsTrue, emitsOnlyFalse, emitsFalse]
  split
  · exact ⟨_, rfl⟩
  split
  · exact ⟨_, rfl⟩
  · exact ⟨_, rfl⟩

/-- Every instruction of an accepted program converts. -/
theorem AcceptedFilter.convertible
    (accepted : AcceptedFilter filter)
    (layout : SkbLayout)
    (short : filter.length ≤ bpfMaxinsns) :
    Convertible layout filter := by
  intro pc fp found
  obtain ⟨op, -, selected⟩ := accepted.allowed found
  cases op with
  | ja =>
    have inside := accepted.ja_inside found selected
    obtain ⟨off, emits⟩ := bpfEmitJmp_of_inside inside
    rw [convertInsn_ja short selected inside, emits]
    exact ⟨_, rfl⟩
  | jmp op src =>
    obtain ⟨trueInside, falseInside⟩ := accepted.jmp_inside found selected
    obtain ⟨block, converts⟩ := convertJmp_isSome trueInside falseInside
    refine ⟨block, ?_⟩
    simp only [convertInsn, selected]
    exact converts
  | ldAbs size =>
    simp only [convertInsn, selected]
    split
    · exact ⟨_, rfl⟩
    · exact ⟨_, rfl⟩
  | _ =>
    simp only [convertInsn, selected]
    exact ⟨_, rfl⟩

/-- Execution moves forward and stays inside the program. -/
theorem AcceptedFilter.successor_inside
    (accepted : AcceptedFilter filter)
    {pc next : Nat}
    {op : ClassicOp}
    (found : filter[pc]? = some fp)
    (selected : classicOp fp.code = some op)
    (successor : next ∈ successors pc fp op) :
    pc < next ∧ next < filter.length := by
  have inside : pc < filter.length := (List.getElem?_eq_some_iff.mp found).1
  -- a program that falls off its last instruction would not end in a return
  have notLast : op ≠ .retK → op ≠ .retA → pc + 1 < filter.length := by
    intro notRetK notRetA
    by_contra atEnd
    have last : pc = filter.length - 1 := by omega
    obtain ⟨lastFp, lastFound, isReturn⟩ := accepted.endsInReturn
    rw [List.getLast?_eq_getElem?, ← last, found] at lastFound
    cases lastFound
    rw [selected] at isReturn
    rcases isReturn with isRetK | isRetA
    · exact notRetK (Option.some.inj isRetK)
    · exact notRetA (Option.some.inj isRetA)
  cases op with
  | ja =>
    have target := accepted.ja_inside found selected
    simp only [successors, List.mem_singleton] at successor
    omega
  | jmp op src =>
    obtain ⟨trueInside, falseInside⟩ := accepted.jmp_inside found selected
    simp only [successors, List.mem_cons, List.not_mem_nil, or_false] at successor
    omega
  | retK | retA => simp [successors] at successor
  | _ =>
    have next := notLast (by simp) (by simp)
    simp only [successors, List.mem_singleton] at successor
    omega

end EchoKernel.Bpf
