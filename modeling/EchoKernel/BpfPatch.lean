import EchoKernel.BpfInsn

namespace EchoKernel.Bpf

open List Option Nat
open BitVec hiding and_self append_assoc

/-!
# Replacing one instruction by several

`bpf_patch_insn_single` makes room for the patch, copies it in, and lets
`bpf_adj_branches` correct the jumps that cross the insertion. It compares
`u32` values and stores the offset in a signed 16-bit field.
-/

/-- `bpf_is_jmp_and_has_target`. -/
def bpfIsJmpAndHasTarget (insn : Insn) : Bool :=
  bpfClass insn.code == bpfJmp && bpfOp insn.code != bpfCall && bpfOp insn.code != bpfExit

/-- The body of the loop of `bpf_adj_branches`. -/
def bpfAdjInsn (pos delta i : BitVec 32) (insn : Insn) : Insn :=
  if bpfIsJmpAndHasTarget insn then
    if i < pos ∧ pos < i + insn.off.signExtend 32 + 1 then
      { insn with off := insn.off + delta.setWidth 16 }
    else if pos + delta < i ∧ i + insn.off.signExtend 32 + 1 ≤ pos + delta then
      { insn with off := insn.off - delta.setWidth 16 }
    else insn
  else insn

section
variable (off len i : Nat) (prog : List Insn)

/-- `bpf_adj_branches`. -/
def bpfAdjBranches (pos delta : BitVec 32) : List Insn :=
  prog.mapIdx fun i insn => bpfAdjInsn pos delta (BitVec.ofNat 32 i) insn

/-- `bpf_patch_insn_single`; `allocated`: `bpf_prog_realloc` worked. -/
def bpfPatchInsnSingle (allocated : Bool) (prog : List Insn) (off : Nat)
    (patch : List Insn) : Option (List Insn) :=
  let insnDelta := patch.length - 1
  let moved := prog.take off ++ patch ++ prog.drop (off + 1)
  if insnDelta = 0 then some moved
  else if allocated then
    some (bpfAdjBranches moved (BitVec.ofNat 32 off) (BitVec.ofNat 32 insnDelta))
  else none

/-- Where instruction `i` is after a patch of `len` at `off`. -/
def newPosition : Nat := if i ≤ off then i else i + (len - 1)

theorem newPosition_cases :
    i ≤ off ∧ newPosition off len i = i ∨ off < i ∧ newPosition off len i = i + (len - 1) := by
  unfold newPosition
  by_cases before : i ≤ off
  · simp only [before, ↓reduceIte]
    exact .inl ⟨trivial, trivial⟩
  · simp only [before, ↓reduceIte]
    exact .inr ⟨Nat.not_le.mp before, trivial⟩

/-- The instruction at `i` jumps to instruction `target`. -/
def JumpsTo (i : Nat) (insn : Insn) (target : Nat) : Prop :=
  prog[i]? = some insn ∧ bpfIsJmpAndHasTarget insn = true ∧ (target : Int) = i + insn.off.toInt + 1

/-- Every jump has its target inside the program. -/
def JumpsInside : Prop :=
  ∀ i insn, prog[i]? = some insn → bpfIsJmpAndHasTarget insn = true →
    ∃ target, target < prog.length ∧ JumpsTo prog i insn target

/-- What a patch is meant to do to the program. -/
structure PatchedFrom (prog : List Insn) (off : Nat) (patch result : List Insn) : Prop where
  length : result.length = prog.length + (patch.length - 1)
  inserted : ∀ j insn, patch[j]? = some insn → result[off + j]? = some insn
  moved : ∀ i insn, prog[i]? = some insn → i ≠ off → ∃ moved,
        result[newPosition off patch.length i]? = some moved ∧
          moved = { insn with off := moved.off } ∧
          (bpfIsJmpAndHasTarget insn = false → moved = insn)
  retargeted : ∀ i insn target, JumpsTo prog i insn target → i ≠ off → ∃ moved,
        JumpsTo result (newPosition off patch.length i) moved (newPosition off patch.length target)

/--
Every jump across the insertion still fits its offset field: forwards over the
patched instruction, or backwards to or over it.
-/
def CrossingsFit (off len : Nat) : Prop :=
  ∀ i insn target, JumpsTo prog i insn target → (i < off ∧ off < target →
      insn.off.toInt + ((len - 1 : Nat) : Int) ≤ 32767) ∧ (off < i ∧ target ≤ off →
      -32768 ≤ insn.off.toInt - ((len - 1 : Nat) : Int))

end

theorem toInt_add_delta
    (off : BitVec 16)
    (delta : Nat) :
    (off + (BitVec.ofNat 32 delta).setWidth 16).toInt = (off.toInt + delta).bmod (2 ^ 16) := by
  rw [setWidth_ofNat_of_le (by decide), toInt_add, toInt_ofNat', Int.add_bmod_bmod]

theorem toInt_sub_delta
    (off : BitVec 16)
    (delta : Nat) :
    (off - (BitVec.ofNat 32 delta).setWidth 16).toInt = (off.toInt - delta).bmod (2 ^ 16) := by
  rw [setWidth_ofNat_of_le (by decide), toInt_sub, toInt_ofNat', Int.sub_bmod_bmod]

variable {i target len : Nat} {insn : Insn}

theorem u32_target
    {off : BitVec 16}
    (jumps : (target : Int) = i + off.toInt + 1) :
    BitVec.ofNat 32 i + off.signExtend 32 + 1 = BitVec.ofNat 32 target := by
  have source : BitVec.ofNat 32 i = BitVec.ofInt 32 i := (ofInt_natCast 32 i).symm
  have destination : BitVec.ofNat 32 target = BitVec.ofInt 32 target :=
    (ofInt_natCast 32 target).symm
  have one : (1 : BitVec 32) = BitVec.ofInt 32 1 := rfl
  rw [source, destination, one, signExtend, ← ofInt_add, ← ofInt_add, jumps]

/-- The loop's body, with comparisons of naturals. -/
theorem bpfAdjInsn_eq
    {pos delta : Nat}
    (hasTarget : bpfIsJmpAndHasTarget insn = true)
    (jumps : (target : Int) = i + insn.off.toInt + 1)
    (posFits : pos + delta < 2 ^ 32)
    (sourceFits : i < 2 ^ 32)
    (targetFits : target < 2 ^ 32) :
    bpfAdjInsn (BitVec.ofNat 32 pos) (BitVec.ofNat 32 delta) (BitVec.ofNat 32 i) insn =
      if i < pos ∧ pos < target then
        { insn with
          off := insn.off + (BitVec.ofNat 32 delta).setWidth 16 }
      else if pos + delta < i ∧ target ≤ pos + delta then
        { insn with
          off := insn.off - (BitVec.ofNat 32 delta).setWidth 16 }
      else
        insn := by
  have posFits' : pos < 2 ^ 32 := by omega
  simp only [bpfAdjInsn, hasTarget, ↓reduceIte, u32_target jumps,
    ← ofNat_add, lt_def, le_def, toNat_ofNat, mod_eq_of_lt posFits, mod_eq_of_lt posFits',
    mod_eq_of_lt sourceFits, mod_eq_of_lt targetFits]

/-- The loop only touches offsets. -/
theorem bpfAdjInsn_off
    (pos delta i : BitVec 32)
    (insn : Insn) :
    bpfAdjInsn pos delta i insn = { insn with off := (bpfAdjInsn pos delta i insn).off } := by
  unfold bpfAdjInsn
  split
  · split
    · rfl
    split
    · rfl
    · rfl
  · rfl

theorem bpfAdjInsn_of_not_jump
    {pos delta i : BitVec 32}
    (noTarget : bpfIsJmpAndHasTarget insn = false) :
    bpfAdjInsn pos delta i insn = insn := by
  simp [bpfAdjInsn, noTarget]

/-- A patch of one instruction changes no offset. -/
theorem bpfAdjInsn_zero (pos i : BitVec 32) (insn : Insn) : bpfAdjInsn pos 0 i insn = insn := by
  unfold bpfAdjInsn
  split
  · split
    · simp
    split
    · simp
    · rfl
  · rfl

section
variable {prog patch : List Insn} {off : Nat}

/-- The instructions before, in and after the patch. -/
abbrev movedImage (prog : List Insn) (off : Nat) (patch : List Insn) : List Insn :=
  prog.take off ++ patch ++ prog.drop (off + 1)

theorem length_movedImage
    (inside : off < prog.length)
    (nonempty : patch ≠ []) :
    (movedImage prog off patch).length = prog.length + (patch.length - 1) := by
  have positive := length_pos_of_ne_nil nonempty
  simp only [length_append, length_take, length_drop]
  omega

theorem getElem?_movedImage_patch
    (inside : off < prog.length)
    {j : Nat}
    (inPatch : j < patch.length) :
    (movedImage prog off patch)[off + j]? = patch[j]? := by
  have start : (prog.take off).length = off := by
    rw [length_take]
    omega
  rw [movedImage, append_assoc,
    getElem?_append_right (by omega), start, Nat.add_sub_cancel_left,
    getElem?_append_left inPatch]

/-- The others stand at their new positions. -/
theorem getElem?_movedImage
    (inside : off < prog.length)
    (nonempty : patch ≠ [])
    (different : i ≠ off) :
    (movedImage prog off patch)[newPosition off patch.length i]? = prog[i]? := by
  have positive := length_pos_of_ne_nil nonempty
  have start : (prog.take off).length = off := by
    rw [length_take]
    omega
  unfold newPosition
  by_cases before : i ≤ off
  · have strictly : i < off := by omega
    simp only [before, ↓reduceIte]
    rw [movedImage, append_assoc, getElem?_append_left (by omega), getElem?_take_of_lt strictly]
  simp only [before, ↓reduceIte]
  rw [getElem?_append_right (by
      rw [length_append]
      omega),
    length_append, getElem?_drop]
  congr 1
  omega

/--
The result of a patch, instruction by instruction: `bpf_adj_branches` runs
over the moved image; a patch of one instruction leaves nothing to adjust.
-/
theorem bpfPatchInsnSingle_eq
    (prog patch : List Insn)
    (off : Nat) :
    bpfPatchInsnSingle true prog off patch = some (bpfAdjBranches (movedImage prog off patch)
    (BitVec.ofNat 32 off) (BitVec.ofNat 32 (patch.length - 1))) := by
  unfold bpfPatchInsnSingle
  by_cases single : patch.length - 1 = 0
  · have unchanged : bpfAdjBranches (movedImage prog off patch)
        (BitVec.ofNat 32 off) (BitVec.ofNat 32 0) = movedImage prog off patch := by
      rw [bpfAdjBranches]
      apply ext_getElem?
      intro i
      have identity : bpfAdjInsn (BitVec.ofNat 32 off) (BitVec.ofNat 32 0)
          (BitVec.ofNat 32 i) = id :=
        funext fun insn => bpfAdjInsn_zero _ _ insn
      rw [getElem?_mapIdx, identity, map_id_apply]
    simp only [single, ↓reduceIte, unchanged]
  · simp [single]

theorem getElem?_bpfAdjBranches
    (prog : List Insn)
    (pos delta : BitVec 32)
    (i : Nat) :
    (bpfAdjBranches prog pos delta)[i]? =
    prog[i]?.map (bpfAdjInsn pos delta (BitVec.ofNat 32 i)) := by
  simp [bpfAdjBranches]

/-- The loop stores the distance to the new target. -/
theorem bpfAdjInsn_retargets
    (hasTarget : bpfIsJmpAndHasTarget insn = true)
    (jumps : (target : Int) = i + insn.off.toInt + 1)
    (different : i ≠ off)
    (posFits : off + (len - 1) < 2 ^ 32)
    (sourceFits : i + (len - 1) < 2 ^ 32)
    (targetFits : target + (len - 1) < 2 ^ 32) :
    bpfAdjInsn (BitVec.ofNat 32 off) (BitVec.ofNat 32 (len - 1))
        (BitVec.ofNat 32 (newPosition off len i)) insn = { insn with
        off := BitVec.ofInt 16 ((newPosition off len target : Int) -
            newPosition off len i - 1) } := by
  have keeps : BitVec.ofInt 16 insn.off.toInt = insn.off := ofInt_toInt
  have adds : insn.off + (BitVec.ofNat 32 (len - 1)).setWidth 16 =
      BitVec.ofInt 16 (insn.off.toInt + ((len - 1 : Nat) : Int)) := by
    apply eq_of_toInt_eq
    rw [toInt_add_delta, toInt_ofInt]
  have subtracts : insn.off - (BitVec.ofNat 32 (len - 1)).setWidth 16 =
      BitVec.ofInt 16 (insn.off.toInt - ((len - 1 : Nat) : Int)) := by
    apply eq_of_toInt_eq
    rw [toInt_sub_delta, toInt_ofInt]
  have distance : insn.off.toInt = (target : Int) - i - 1 := by omega
  rcases Nat.lt_or_gt_of_ne different with before | after
  · have position : newPosition off len i = i := by
      simp [newPosition, Nat.le_of_lt before]
    have notAfter : ¬ off + (len - 1) < i := by omega
    rw [position, bpfAdjInsn_eq hasTarget jumps posFits (by omega) (by omega)]
    by_cases crosses : off < target
    · simp only [before, crosses, and_self, ↓reduceIte, adds, newPosition, Nat.not_le.mpr crosses]
      congr 2
      omega
    · simp only [crosses, and_false, notAfter, false_and, ↓reduceIte,
        newPosition, Nat.not_lt.mp crosses]
      rw [← distance, keeps]
  have position : newPosition off len i = i + (len - 1) := by
    simp [newPosition, Nat.not_le.mpr after]
  have notBefore : ¬ i + (len - 1) < off := by omega
  have beyond : off + (len - 1) < i + (len - 1) := by omega
  have moved : ((target + (len - 1) : Nat) : Int) =
      ((i + (len - 1) : Nat) : Int) + insn.off.toInt + 1 := by
    omega
  rw [position, bpfAdjInsn_eq hasTarget moved posFits sourceFits targetFits]
  by_cases crosses : target ≤ off
  · have reaches : target + (len - 1) ≤ off + (len - 1) := by omega
    simp only [notBefore, false_and, beyond, reaches, and_self,
      ↓reduceIte, subtracts, newPosition, crosses]
    congr 2
    omega
  · have stays : ¬ target + (len - 1) ≤ off + (len - 1) := by omega
    simp only [notBefore, false_and, stays, and_false, ↓reduceIte, newPosition, crosses]
    have same : ((target + (len - 1) : Nat) : Int) - ((i + (len - 1) : Nat) : Int) - 1 =
        insn.off.toInt := by
      omega
    rw [same, keeps]

/-- The instructions of the patch are not adjusted. -/
theorem bpfAdjInsn_inserted
    {j : Nat}
    (insn : Insn)
    (inPatch : j < len)
    (posFits : off + (len - 1) < 2 ^ 32) :
    bpfAdjInsn (BitVec.ofNat 32 off) (BitVec.ofNat 32 (len - 1)) (BitVec.ofNat 32 (off + j)) insn =
    insn := by
  have notBefore : ¬ BitVec.ofNat 32 (off + j) < BitVec.ofNat 32 off := by
    rw [lt_def, toNat_ofNat, toNat_ofNat, mod_eq_of_lt (by omega)]
    omega
  have notAfter : ¬ BitVec.ofNat 32 off + BitVec.ofNat 32 (len - 1) <
      BitVec.ofNat 32 (off + j) := by
    rw [← ofNat_add, lt_def, toNat_ofNat, toNat_ofNat, mod_eq_of_lt (by omega)]
    omega
  simp [bpfAdjInsn, notBefore, notAfter, ite_self]

/-- Patched instructions, wherever they come from. -/
theorem getElem?_patched
    (inside : off < prog.length)
    (nonempty : patch ≠ [])
    (found : prog[i]? = some insn)
    (different : i ≠ off) :
    (bpfAdjBranches (movedImage prog off patch)
    (BitVec.ofNat 32 off) (BitVec.ofNat 32 (patch.length - 1)))[
    newPosition off patch.length i]? = some (bpfAdjInsn (BitVec.ofNat 32 off)
    (BitVec.ofNat 32 (patch.length - 1))
    (BitVec.ofNat 32 (newPosition off patch.length i)) insn) := by
  rw [getElem?_bpfAdjBranches, getElem?_movedImage inside nonempty different, found, map_some]

end

/-- The distance of new positions, and when it fits the field. -/
theorem newPosition_distance_fits_iff
    {off : Nat}
    {stored : BitVec 16}
    (jumps : (target : Int) = i + stored.toInt + 1)
    (different : i ≠ off) :
    ((newPosition off len target : Int) - newPosition off len i - 1).bmod (2 ^ 16) =
    (newPosition off len target : Int) - newPosition off len i - 1 ↔
    (i < off ∧ off < target → stored.toInt + ((len - 1 : Nat) : Int) ≤ 32767) ∧
    (off < i ∧ target ≤ off → -32768 ≤ stored.toInt - ((len - 1 : Nat) : Int)) := by
  have lower : -32768 ≤ stored.toInt := by
    have bound := le_toInt stored
    simpa using bound
  have upper : stored.toInt ≤ 32767 := by
    have bound : stored.toInt < 2 ^ 15 := toInt_lt
    omega
  rw [bmod_eq_self_iff]
  rcases newPosition_cases off len i with
      ⟨sourceSide, source⟩ | ⟨sourceSide, source⟩ <;>
    rcases newPosition_cases off len target with
      ⟨targetSide, destination⟩ | ⟨targetSide, destination⟩ <;>
    rw [destination] <;>
    omega

/--
A patch leaves every jump with the instruction it meant iff the jumps across
it still fit the signed 16-bit offset field.
-/
theorem bpfPatchInsnSingle_patched_iff
    {prog patch : List Insn}
    {off : Nat}
    (jumpsInside : JumpsInside prog)
    (inside : off < prog.length)
    (nonempty : patch ≠ [])
    (fits : prog.length + patch.length ≤ 2 ^ 32) :
    (∃ result,
      bpfPatchInsnSingle true prog off patch = some result ∧ PatchedFrom prog off patch result) ↔
    CrossingsFit prog off patch.length := by
  have posFits : off + (patch.length - 1) < 2 ^ 32 := by omega
  have retargets : ∀ {i insn target}, JumpsTo prog i insn target → i ≠ off →
        (bpfAdjBranches (movedImage prog off patch)
          (BitVec.ofNat 32 off) (BitVec.ofNat 32 (patch.length - 1)))[
            newPosition off patch.length i]? = some { insn with
          off := BitVec.ofInt 16 ((newPosition off patch.length target : Int) -
            newPosition off patch.length i - 1) } := by
    intro i insn target jumps different
    obtain ⟨found, hasTarget, distance⟩ := jumps
    have sourceInside : i < prog.length := (List.getElem?_eq_some_iff.mp found).1
    obtain ⟨other, otherInside, -, -, otherDistance⟩ := jumpsInside i insn found hasTarget
    rw [getElem?_patched inside nonempty found different,
      bpfAdjInsn_retargets hasTarget distance different posFits (by omega) (by omega)]
  rw [bpfPatchInsnSingle_eq]
  constructor
  · rintro ⟨result, same, patched⟩
    cases same
    intro i insn target jumps
    by_cases different : i = off
    · constructor
      · omega
      · omega
    obtain ⟨moved, movedFound, -, movedDistance⟩ := patched.retargeted i insn target jumps different
    rw [retargets jumps different, some.injEq] at movedFound
    subst movedFound
    rw [← newPosition_distance_fits_iff jumps.2.2 different]
    rw [toInt_ofInt] at movedDistance
    omega
  · intro crossings
    refine ⟨_, rfl, ?_, ?_, ?_, ?_⟩
    · rw [bpfAdjBranches, length_mapIdx, length_movedImage inside nonempty]
    · intro j insn found
      have inPatch : j < patch.length := (List.getElem?_eq_some_iff.mp found).1
      rw [getElem?_bpfAdjBranches, getElem?_movedImage_patch inside inPatch, found, map_some,
        bpfAdjInsn_inserted insn inPatch posFits]
    · intro i insn found different
      refine ⟨_, getElem?_patched inside nonempty found different, bpfAdjInsn_off _ _ _ insn, ?_⟩
      intro noTarget
      exact bpfAdjInsn_of_not_jump noTarget
    · intro i insn target jumps different
      refine ⟨_, retargets jumps different, jumps.2.1, ?_⟩
      rw [toInt_ofInt, (newPosition_distance_fits_iff jumps.2.2 different).mpr
        (crossings i insn target jumps)]
      omega

/-- A short program with a jump over the patch. -/
def jumpOverProg : List Insn := [⟨bpfJmp ||| bpfJa, 0, 0, 1, 0⟩, bpfMov32Imm bpfReg0 0, bpfExitInsn]

/-- Its only jump is the first instruction. -/
theorem jumpOverProg_jumpsTo
    (jumps : JumpsTo jumpOverProg i insn target) :
    i = 0 ∧ insn = ⟨bpfJmp ||| bpfJa, 0, 0, 1, 0⟩ ∧ target = 2 := by
  obtain ⟨found, hasTarget, distance⟩ := jumps
  rcases i with - | - | - | i
  · cases found
    have offset : (1 : BitVec 16).toInt = 1 := by decide
    simp only [offset] at distance
    exact ⟨rfl, rfl, by omega⟩
  · cases found
    exact absurd hasTarget (by decide)
  · cases found
    exact absurd hasTarget (by decide)
  · simp [jumpOverProg] at found

theorem bpfPatchInsnSingle_patched_jumpOverProg :
    (∃ result, bpfPatchInsnSingle true jumpOverProg 1
    [bpfMov32Imm bpfReg0 1, bpfMov32Imm bpfReg0 2] = some result ∧ PatchedFrom jumpOverProg 1
    [bpfMov32Imm bpfReg0 1, bpfMov32Imm bpfReg0 2] result) := by
  refine (bpfPatchInsnSingle_patched_iff ?_ (by decide) (by decide) (by decide)).mpr ?_
  · intro i insn found hasTarget
    rcases i with - | - | - | i
    · cases found
      exact ⟨2, by decide, rfl, by decide, by decide⟩
    · cases found
      exact absurd hasTarget (by decide)
    · cases found
      exact absurd hasTarget (by decide)
    · simp [jumpOverProg] at found
  · intro i insn target jumps
    obtain ⟨rfl, rfl, rfl⟩ := jumpOverProg_jumpsTo jumps
    decide

/-- A jump over as many instructions as its offset can express. -/
def farJumpProg : List Insn := ⟨bpfJmp ||| bpfJa, 0, 0, 32767, 0⟩ :: replicate 32768 bpfExitInsn

theorem farJumpProg_tail
    (found : farJumpProg[i + 1]? = some insn) :
    bpfIsJmpAndHasTarget insn = false := by
  have isExit := eq_of_mem_replicate (mem_of_getElem? found)
  subst isExit
  decide

/-- One more instruction under the jump turns its offset 32767 into -32768, out of the program. -/
theorem bpfPatchInsnSingle_farJumpProg :
    JumpsInside farJumpProg ∧ 1 < farJumpProg.length ∧
    farJumpProg.length + 2 ≤ 2 ^ 32 ∧ ¬ ∃ result,
    bpfPatchInsnSingle true farJumpProg 1 [bpfExitInsn, bpfExitInsn] = some result ∧
    PatchedFrom farJumpProg 1 [bpfExitInsn, bpfExitInsn] result := by
  have length : farJumpProg.length = 32769 := by
    rw [farJumpProg, length_cons, length_replicate]
  have jump : JumpsTo farJumpProg 0 ⟨bpfJmp ||| bpfJa, 0, 0, 32767, 0⟩ 32768 :=
    ⟨rfl, by decide, by decide⟩
  refine ⟨?_, by omega, by omega, ?_⟩
  · intro i insn found hasTarget
    cases i with
    | zero =>
      cases found
      exact ⟨32768, by omega, jump⟩
    | succ i =>
      rw [farJumpProg_tail found] at hasTarget
      cases hasTarget
  · rintro ⟨result, returns, patched⟩
    obtain ⟨moved, ⟨found, -, distance⟩⟩ := patched.retargeted 0 _ 32768 jump (by decide)
    rw [bpfPatchInsnSingle_eq, some.injEq] at returns
    subst returns
    have adjusted :=
      getElem?_patched (by omega) (by decide : [bpfExitInsn, bpfExitInsn] ≠ []) jump.1
        (by decide : 0 ≠ 1)
    rw [adjusted, some.injEq] at found
    subst found
    revert distance
    decide

end EchoKernel.Bpf
