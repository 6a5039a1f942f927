import EchoKernel.BpfClassicChecked
import EchoKernel.BpfConvertLayout

namespace EchoKernel.Bpf

open ConcatenatedBlocks List BitVec Option

/-!
# Jump offsets of converted programs

A block has at most six instructions and an accepted program at most
`BPF_MAXINSNS`, so the distance of two blocks fits the signed 16-bit offset
and a converted jump reaches the block of its classic target.
-/

theorem convertJmpOperands_length
    (src : Src)
    (k : BitVec 32) :
    (convertJmpOperands src k).1.length ≤ 1 := by
  unfold convertJmpOperands
  split <;> simp

section
variable {fp : SockFilter} {block : List Insn}

/-- Extensions convert to at most four instructions. -/
theorem convertBpfExtensions_length
    {layout : SkbLayout}
    (converts : convertBpfExtensions layout fp = some block) :
    block.length ≤ 4 := by
  unfold convertBpfExtensions at converts
  cases field : Ancillary.ofOffset fp.k with
  | none => simp [field] at converts
  | some field' =>
    rw [field] at converts
    cases field' <;> simp only [some.injEq] at converts <;> subst converts <;>
      simp [convertSkbAccess, convertDevAccess, convertHelperCall]

/-- A conditional jump converts to at most three instructions. -/
theorem convertJmp_length
    {addrs : Addrs}
    {len i : Nat}
    {op : ClassicJmp}
    {src : Src}
    (converts : convertJmp addrs len i op src fp = some block) :
    block.length ≤ 3 := by
  have before := convertJmpOperands_length src fp.k
  unfold convertJmp at converts
  simp only [pure] at converts
  split at converts
  · obtain ⟨off, -, same⟩ := bind_eq_some_iff.mp converts
    cases same
    simp only [length_append, length_cons, length_nil]
    omega
  split at converts
  · obtain ⟨off, -, same⟩ := bind_eq_some_iff.mp converts
    cases same
    simp only [length_append, length_cons, length_nil]
    omega
  · obtain ⟨offTrue, -, rest⟩ := bind_eq_some_iff.mp converts
    obtain ⟨offFalse, -, same⟩ := bind_eq_some_iff.mp rest
    cases same
    simp only [length_append, length_cons, length_nil]
    omega

/-- Every block fits `tmp_insns[6]`. -/
theorem convertInsn_length
    {layout : SkbLayout}
    {addrs : Addrs}
    {len i : Nat}
    (converts : convertInsn layout addrs len i fp = some block) :
    block.length ≤ 6 := by
  unfold convertInsn at converts
  cases selected : classicOp fp.code with
  | none => simp [selected] at converts
  | some op =>
    rw [selected] at converts
    cases op with
    | ldAbs size =>
      cases extended : convertBpfExtensions layout fp with
      | none =>
        simp only [extended, some.injEq] at converts
        subst converts
        simp
      | some code =>
        simp only [extended, some.injEq] at converts
        subst converts
        have := convertBpfExtensions_length extended
        omega
    | ja =>
      obtain ⟨off, -, same⟩ := bind_eq_some_iff.mp converts
      cases same
      simp
    | jmp op src =>
      have := convertJmp_length converts
      omega
    | _ =>
      simp only [some.injEq] at converts
      subst converts
      simp

end

variable {layout : SkbLayout} {prog : List SockFilter}

/-- Block addresses grow by at most six per classic instruction. -/
theorem blockAddr_le
    (layout : SkbLayout)
    (prog : List SockFilter)
    (i : Nat) :
    blockAddr layout prog i ≤ 3 + i * 6 := by
  have short : ∀ block ∈ blocksUnder layout none prog, block.length ≤ 6 := by
    intro block member
    obtain ⟨j, bound, rfl⟩ := mem_mapIdx.mp member
    unfold blockUnder
    cases converts : convertInsn layout none prog.length j prog[j] with
    | none => simp
    | some found => exact convertInsn_length converts
  have start := blockStart_le_mul short i
  simpa [blockAddr, convertPrologue] using start

/--
The offset of a jump from slot `slot` of block `i` to block `target`: nothing
is lost in the 16-bit field.
-/
theorem bpfEmitJmp_resolved
    (short : prog.length ≤ bpfMaxinsns)
    {i target slot : Nat}
    (sourceInside : i < prog.length)
    (targetInside : target < prog.length)
    (slotBound : slot ≤ 2) :
    ∃ off, bpfEmitJmp (some (finalAddrs layout prog)) prog.length i target slot = some off ∧
    off.toInt = (blockAddr layout prog target : Int) - blockAddr layout prog i - 1 - slot := by
  have targetBound := blockAddr_le layout prog target
  have sourceBound := blockAddr_le layout prog i
  have limit : prog.length ≤ 4096 := short
  have inRange : ¬ ((target : Int) ≥ prog.length ∨ (target : Int) < 0) := by omega
  refine ⟨_, by
    simp only [bpfEmitJmp, inRange]
    rfl, ?_⟩
  have targetAddr : finalAddrs layout prog (target : Int).toNat = blockAddr layout prog target := by
    simp [finalAddrs, targetInside]
  have sourceAddr : finalAddrs layout prog i = blockAddr layout prog i := by
    simp [finalAddrs, sourceInside]
  rw [targetAddr, sourceAddr, toInt_sub, toInt_ofInt, toInt_ofNat']
  have lower : -32768 ≤ (blockAddr layout prog target : Int) -
      blockAddr layout prog i - 1 - slot := by
    omega
  have upper : (blockAddr layout prog target : Int) -
      blockAddr layout prog i - 1 - slot ≤ 32767 := by
    omega
  have distance : ((blockAddr layout prog target : Int) -
      blockAddr layout prog i - 1).bmod (2 ^ 16) = (blockAddr layout prog target : Int) -
      blockAddr layout prog i - 1 :=
    (bmod_eq_self_iff _).mpr (by omega)
  have inBlock : (slot : Int).bmod (2 ^ 16) = slot := (bmod_eq_self_iff _).mpr (by omega)
  rw [distance, inBlock, (bmod_eq_self_iff _).mpr ⟨lower, upper⟩]

theorem bpfEmitJmp_of_inside
    {addrs : Addrs}
    {len i slot target : Nat}
    (targetInside : target < len) :
    ∃ off, bpfEmitJmp addrs len i target slot = some off := by
  have inRange : ¬ ((target : Int) ≥ len ∨ (target : Int) < 0) := by omega
  exact ⟨_, by
    simp only [bpfEmitJmp, inRange]
    rfl⟩

theorem jmpTarget_eq
    (pc : Nat)
    (skipped : BitVec 8) :
    (pc : Int) + skipped.toNat + 1 = ((pc + 1 + skipped.toNat : Nat) : Int) := by
  omega

/-- The target of an unconditional jump, computed in 32 bits. -/
theorem jaTarget_eq
    (short : prog.length ≤ bpfMaxinsns)
    {i : Nat}
    {k : BitVec 32}
    (inside : i + k.toNat + 1 < prog.length) :
    (BitVec.ofNat 32 i + k + 1).toInt = ((i + 1 + k.toNat : Nat) : Int) := by
  have limit : prog.length ≤ 4096 := short
  have unsigned : (BitVec.ofNat 32 i + k + 1).toNat = i + 1 + k.toNat := by
    have one : (1 : BitVec 32).toNat = 1 := rfl
    rw [toNat_add, toNat_add, toNat_ofNat]
    omega
  rw [toInt_eq_toNat_of_lt (by omega), unsigned]

end EchoKernel.Bpf
