import EchoKernel.BpfConvert
import EchoKernel.ConcatenatedBlocks

namespace EchoKernel.Bpf

open ConcatenatedBlocks List Option Function

/-!
# Address resolution in the conversion

The length of a block does not depend on the `addrs` table. Hence the first
pass already fills in the final addresses, the second pass finds them
unchanged, and its output is the blocks in a row, each at the address recorded
for it.
-/

section
variable (layout : SkbLayout) (first second : Addrs) (len i : Nat) (prog : List SockFilter)

theorem bpfEmitJmp_isSome
    (target : Int)
    (slot : Nat) :
    (bpfEmitJmp first len i target slot).isSome = (bpfEmitJmp second len i target slot).isSome := by
  unfold bpfEmitJmp
  split <;> rfl

/-- Binding emissions that succeed together gives results that do too. -/
private theorem map_length_bind_congr
    {first second : Option (BitVec 16)}
    {firstBlock secondBlock : BitVec 16 → Option (List Insn)}
    (sameSome : first.isSome = second.isSome)
    (sameLength : ∀ firstOff secondOff, (firstBlock firstOff).map length =
      (secondBlock secondOff).map length) :
    (first.bind firstBlock).map length = (second.bind secondBlock).map length := by
  cases first with
  | none =>
    cases second with
    | none => rfl
    | some off => simp at sameSome
  | some firstOff =>
    cases second with
    | none => simp at sameSome
    | some secondOff => exact sameLength firstOff secondOff

/-- A conditional jump's block has the same length for all tables. -/
theorem convertJmp_map_length
    (op : ClassicJmp)
    (src : Src)
    (fp : SockFilter) :
    (convertJmp first len i op src fp).map length =
    (convertJmp second len i op src fp).map length := by
  unfold convertJmp
  simp only [pure]
  split
  · apply map_length_bind_congr (bpfEmitJmp_isSome _ _ _ _ _ _)
    simp
  split
  · apply map_length_bind_congr (bpfEmitJmp_isSome _ _ _ _ _ _)
    simp
  apply map_length_bind_congr (bpfEmitJmp_isSome _ _ _ _ _ _)
  intro firstTrue secondTrue
  apply map_length_bind_congr (bpfEmitJmp_isSome _ _ _ _ _ _)
  simp

/-- A block's length is independent of the table. -/
theorem convertInsn_map_length
    (fp : SockFilter) :
    (convertInsn layout first len i fp).map length =
    (convertInsn layout second len i fp).map length := by
  unfold convertInsn
  cases classicOp fp.code with
  | none => rfl
  | some op =>
    cases op with
    | ja =>
      apply map_length_bind_congr (bpfEmitJmp_isSome _ _ _ _ _ _)
      intro firstOff secondOff
      rfl
    | jmp op src => exact convertJmp_map_length _ _ _ _ _ _ _
    | _ => rfl

/-- A convertible instruction has blocks of equal length for all tables. -/
theorem convertInsn_of_counted
    {layout : SkbLayout}
    {len i : Nat}
    {fp : SockFilter}
    {counted : List Insn}
    (converts : convertInsn layout none len i fp = some counted)
    (addrs : Addrs) :
    ∃ block, convertInsn layout addrs len i fp = some block ∧ block.length = counted.length := by
  have sameLength := convertInsn_map_length layout addrs none len i fp
  rw [converts] at sameLength
  cases converted : convertInsn layout addrs len i fp with
  | none => simp [converted] at sameLength
  | some block =>
    simpa [converted] using sameLength

/-- Every instruction of the program can be converted. -/
def Convertible : Prop :=
  ∀ i fp, prog[i]? = some fp → ∃ block, convertInsn layout none prog.length i fp = some block

/-- An instruction's block under an address table. -/
def blockUnder (addrs : Addrs) (prog : List SockFilter) (i : Nat) (fp : SockFilter) : List Insn :=
  (convertInsn layout addrs prog.length i fp).getD []

/-- All blocks of a program under an address table. -/
def blocksUnder (addrs : Addrs) (prog : List SockFilter) : List (List Insn) :=
  prog.mapIdx (blockUnder layout addrs prog)

/-- The address of the first instruction made from `i`. -/
def blockAddr (i : Nat) : Nat :=
  convertPrologue.length + blockStart (blocksUnder layout none prog) i

/-- The contents of `addrs` after the first pass. -/
def finalAddrs : Nat → Int := fun i => if i < prog.length then blockAddr layout prog i else 0

/-- The result of the conversion. -/
def converted : List Insn :=
  convertPrologue ++ (blocksUnder layout (some (finalAddrs layout prog)) prog).flatten

end

variable {layout : SkbLayout} {prog : List SockFilter} {fp : SockFilter}

theorem getElem?_blocksUnder
    (layout : SkbLayout)
    (addrs : Addrs)
    {i : Nat}
    (found : prog[i]? = some fp) :
    (blocksUnder layout addrs prog)[i]? = some (blockUnder layout addrs prog i fp) := by
  simp [blocksUnder, found]

section
variable (convertible : Convertible layout prog)
include convertible

/-- The next block follows directly. -/
theorem blockAddr_succ
    {addrs : Addrs}
    {i : Nat}
    {block : List Insn}
    (found : prog[i]? = some fp)
    (converts : convertInsn layout addrs prog.length i fp = some block) :
    blockAddr layout prog (i + 1) = blockAddr layout prog i + block.length := by
  obtain ⟨counted, countedConverts⟩ := convertible i fp found
  obtain ⟨other, otherConverts, sameLength⟩ := convertInsn_of_counted countedConverts addrs
  rw [converts] at otherConverts
  cases otherConverts
  have start := blockStart_succ (getElem?_blocksUnder layout none found)
  simp only [blockAddr, start, blockUnder, countedConverts, getD_some]
  omega

/-- The first remaining instruction has its block, the others follow. -/
theorem Convertible.head
    {i : Nat}
    {rest : List SockFilter}
    (shape : prog.drop i = fp :: rest)
    (addrs : Addrs) :
    i < prog.length ∧ prog.drop (i + 1) = rest ∧ ∃ block,
    convertInsn layout addrs prog.length i fp = some block ∧
    blockAddr layout prog (i + 1) = blockAddr layout prog i + block.length := by
  have found : prog[i]? = some fp := by simpa using congrArg head? shape
  have tail : prog.drop (i + 1) = rest := by simpa using congrArg tail shape
  obtain ⟨counted, countedConverts⟩ := convertible i fp found
  obtain ⟨block, converts, -⟩ := convertInsn_of_counted countedConverts addrs
  exact ⟨(List.getElem?_eq_some_iff.mp found).1, tail, block, converts,
    blockAddr_succ convertible found converts⟩

/--
One pass with any table fills in the block addresses and emits as many
instructions as the blocks have.
-/
theorem convertFrom_fills
    (rest : List SockFilter)
    (table : Nat → Int)
    (i : Nat)
    (inside : i ≤ prog.length)
    (shape : prog.drop i = rest) :
    ∃ body,
    convertFrom layout prog.length (some table) (blockAddr layout prog i) i rest =
    some (body, some fun j => if i ≤ j ∧ j < prog.length then (blockAddr layout prog j : Int) else
    table j) ∧ blockAddr layout prog i + body.length = blockAddr layout prog prog.length := by
  induction rest generalizing table i with
  | nil =>
    have atEnd : i = prog.length := by
      have := drop_eq_nil_iff.mp shape
      omega
    subst atEnd
    refine ⟨[], ?_, by simp⟩
    simp only [convertFrom, some.injEq, Prod.mk.injEq, true_and]
    funext j
    have outside : ¬ (prog.length ≤ j ∧ j < prog.length) := by omega
    simp [outside]
  | cons fp rest inductionHypothesis =>
    obtain ⟨bound, tailShape, block, converts, next⟩ :=
      convertible.head shape (some (update table i (blockAddr layout prog i)))
    obtain ⟨body, later, total⟩ :=
      inductionHypothesis (update table i (blockAddr layout prog i)) (i + 1) bound tailShape
    refine ⟨block ++ body, ?_, ?_⟩
    · rw [next] at later
      simp only [convertFrom, map_some, converts, bind,
        bind_some, later, pure, some.injEq, Prod.mk.injEq, true_and]
      funext j
      by_cases atHead : j = i
      · subst atHead
        simp [bound]
      have sameRange : (i + 1 ≤ j ∧ j < prog.length) ↔ (i ≤ j ∧ j < prog.length) := by
        omega
      simp only [sameRange, update_of_ne atHead]
    · rw [length_append, ← Nat.add_assoc, ← next]
      exact total

end

/-- A table that is absent or has the block addresses. -/
def Resolved (layout : SkbLayout) (prog : List SockFilter) (addrs : Addrs) : Prop :=
  ∀ table, addrs = some table → ∀ j, j < prog.length → table j = blockAddr layout prog j

theorem Resolved.map_update
    {addrs : Addrs}
    (resolved : Resolved layout prog addrs)
    {i : Nat}
    (bound : i < prog.length) :
    addrs.map (fun table => update table i (blockAddr layout prog i : Int)) = addrs := by
  cases addrs with
  | none => rfl
  | some table =>
    rw [map_some, ← resolved table rfl i bound, update_eq_self]

section
variable (convertible : Convertible layout prog)
include convertible

/-- A pass with a resolved table keeps it and emits exactly the blocks under it. -/
theorem convertFrom_resolved
    {addrs : Addrs}
    (resolved : Resolved layout prog addrs)
    (rest : List SockFilter)
    (i : Nat)
    (shape : prog.drop i = rest) :
    convertFrom layout prog.length addrs (blockAddr layout prog i) i rest =
    some ((rest.mapIdx fun d fp => blockUnder layout addrs prog (i + d) fp).flatten, addrs) := by
  induction rest generalizing i with
  | nil => simp [convertFrom]
  | cons fp rest inductionHypothesis =>
    obtain ⟨bound, tailShape, block, converts, next⟩ := convertible.head shape addrs
    have later := inductionHypothesis (i + 1) tailShape
    rw [next] at later
    have shifted : (fun d fp => blockUnder layout addrs prog (i + 1 + d) fp) =
        fun d fp => blockUnder layout addrs prog (i + (d + 1)) fp := by
      funext d fp
      rw [Nat.add_assoc, Nat.add_comm 1 d]
    have head : blockUnder layout addrs prog i fp = block := by simp [blockUnder, converts]
    simp [convertFrom, resolved.map_update bound, converts, later, shifted, head]

/-- Two tables give blocks of the same lengths. -/
theorem map_length_blocksUnder
    (first second : Addrs) :
    (blocksUnder layout first prog).map length = (blocksUnder layout second prog).map length := by
  apply ext_getElem?
  intro i
  cases found : prog[i]? with
  | none => simp [blocksUnder, found]
  | some fp =>
    obtain ⟨counted, countedConverts⟩ := convertible i fp found
    obtain ⟨firstBlock, firstConverts, firstLength⟩ := convertInsn_of_counted countedConverts first
    obtain ⟨secondBlock, secondConverts, secondLength⟩ :=
      convertInsn_of_counted countedConverts second
    simp [blocksUnder, found, blockUnder, firstConverts, secondConverts, firstLength, secondLength]

theorem length_prologue_append_blocksUnder
    (addrs : Addrs) :
    (convertPrologue ++ (blocksUnder layout addrs prog).flatten).length =
    blockAddr layout prog prog.length := by
  have starts := blockStart_congr (map_length_blocksUnder convertible addrs none) prog.length
  have total := blockStart_length (blocksUnder layout addrs prog)
  have count : (blocksUnder layout addrs prog).length = prog.length := by simp [blocksUnder]
  rw [count] at total
  rw [length_append, ← total, starts, blockAddr]

/-- The two passes produce the blocks fully resolved. -/
theorem convertPasses_eq :
    convertPasses layout prog 3 0 0 (some fun _ => 0) = some (converted layout prog) := by
  have start : blockAddr layout prog 0 = convertPrologue.length := by simp [blockAddr]
  obtain ⟨body, firstPass, firstLength⟩ :=
    convertFrom_fills convertible prog (fun _ => 0) 0 (Nat.zero_le _) (by simp)
  have filled : (fun j => if 0 ≤ j ∧ j < prog.length then (blockAddr layout prog j : Int) else
      0) = finalAddrs layout prog := by
    funext j
    simp [finalAddrs]
  have resolved : Resolved layout prog (some (finalAddrs layout prog)) := by
    intro table same j bound
    cases same
    simp [finalAddrs, bound]
  have secondPass := convertFrom_resolved convertible resolved prog 0 (by simp)
  have sameLength : (convertPrologue ++ body).length = (converted layout prog).length := by
    rw [converted, length_prologue_append_blocksUnder convertible,
      ← firstLength, start, length_append]
  have secondCode : convertPrologue ++ (prog.mapIdx fun d fp =>
      blockUnder layout (some (finalAddrs layout prog)) prog (0 + d) fp).flatten =
      converted layout prog := by
    simp [converted, blocksUnder]
  rw [start, filled] at firstPass
  rw [start] at secondPass
  have grew : 0 ≠ (convertPrologue ++ body).length := by simp [convertPrologue]
  have firstOfThree : ¬ 0 + 1 > 2 := by omega
  rw [convertPasses]
  simp only [bind, firstPass, bind_some, grew, firstOfThree, ne_eq, not_false_eq_true]
  rw [convertPasses]
  simp only [bind, secondPass, bind_some, secondCode, sameLength,
    pure, ne_eq, not_true_eq_false, ↓reduceIte]

end

private theorem length_inRange
    (nonempty : prog ≠ [])
    (short : prog.length ≤ bpfMaxinsns) :
    ¬ (prog.length = 0 ∨ bpfMaxinsns < prog.length) := by
  rintro (empty | long)
  · exact nonempty (length_eq_zero_iff.mp empty)
  · omega

section
variable (convertible : Convertible layout prog) (nonempty : prog ≠ [])
  (short : prog.length ≤ bpfMaxinsns)
include convertible nonempty short

/-- The counting pass agrees with the emitted length. -/
theorem bpfConvertFilterLength_eq :
    bpfConvertFilterLength layout prog = .ok (converted layout prog).length := by
  have start : blockAddr layout prog 0 = convertPrologue.length := by simp [blockAddr]
  have resolved : Resolved layout prog none := by
    intro table absent
    cases absent
  have counted := convertFrom_resolved convertible resolved prog 0 (by simp)
  rw [start] at counted
  have total : convertPrologue.length + (blocksUnder layout none prog).flatten.length =
      (converted layout prog).length := by
    rw [converted, length_prologue_append_blocksUnder convertible,
      ← length_prologue_append_blocksUnder convertible none, length_append]
  simp only [bpfConvertFilterLength, length_inRange nonempty short,
    ↓reduceIte, counted, Nat.zero_add, KernelResult.ok.injEq]
  exact total

theorem bpfConvertFilter_eq :
    bpfConvertFilter layout true prog (converted layout prog).length =
    .ok (converted layout prog) := by
  simp only [bpfConvertFilter, length_inRange nonempty short, ↓reduceIte,
    convertPasses_eq convertible]

end

/-- Instruction `offset` of a block is that far from its address. -/
theorem getElem?_converted
    (convertible : Convertible layout prog)
    {i offset : Nat}
    {block : List Insn}
    (found : prog[i]? = some fp)
    (converts : convertInsn layout (some (finalAddrs layout prog)) prog.length i fp = some block)
    (inside : offset < block.length) :
    (converted layout prog)[blockAddr layout prog i + offset]? = block[offset]? := by
  have sameLengths := map_length_blocksUnder convertible none (some (finalAddrs layout prog))
  have blockFound : (blocksUnder layout (some (finalAddrs layout prog)) prog)[i]? = some block := by
    rw [getElem?_blocksUnder layout _ found]
    simp [blockUnder, converts]
  rw [converted, blockAddr, Nat.add_assoc, getElem?_append_right (Nat.le_add_right _ _),
    Nat.add_sub_cancel_left, blockStart_congr sameLengths]
  exact getElem?_flatten blockFound inside

end EchoKernel.Bpf
