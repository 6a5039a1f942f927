import EchoKernel.BpfCodeAt
import EchoKernel.BpfConvertJumps
import EchoKernel.BpfConvertState

namespace EchoKernel.Bpf

open Simulation

/-!
# Running converted blocks

What the interpreter does inside the block of a classic instruction.
`BlockSimulates` relates it to the classic step: both continue, and the
interpreter arrives at the first instruction of the next block, or both end
with the same verdict.
-/

/-- The interpreter at slot `offset` of the block of instruction `pc`. -/
def atBlock (layout : SkbLayout) (filter : List SockFilter) (pc offset : Nat)
    (state : State) : Config :=
  ⟨converted layout filter, ((blockAddr layout filter pc + offset : Nat) : Int), state⟩

/-- `block` is the code of classic instruction `pc`. -/
structure Placed (layout : SkbLayout) (filter : List SockFilter) (pc : Nat)
    (block : List Insn) : Prop where
  code : CodeAt (converted layout filter) (blockAddr layout filter pc) block
  next : blockAddr layout filter (pc + 1) = blockAddr layout filter pc + block.length

/-- The second pass places every block at its address. -/
theorem placed_of_convertInsn
    {layout : SkbLayout}
    {filter : List SockFilter}
    {pc : Nat}
    {fp : SockFilter}
    {block : List Insn}
    (convertible : Convertible layout filter)
    (found : filter[pc]? = some fp)
    (converts : convertInsn layout (some (finalAddrs layout filter)) filter.length pc fp =
      some block) :
    Placed layout filter pc block where
  code := by
    intro offset insn here
    have inside : offset < block.length := (List.getElem?_eq_some_iff.mp here).1
    rw [getElem?_converted convertible found converts inside]
    exact here
  next := blockAddr_succ convertible found converts

variable {host : Host} {layout : SkbLayout} {filter : List SockFilter}
variable {pc : Nat} {block : List Insn}

namespace Placed

variable (placed : Placed layout filter pc block) {insn : Insn}
include placed

section
variable (offset : Nat) {state final : State} (here : block[offset]? = some insn)
include offset here

theorem step_cont
    (executes : ∀ following, execute host insn following state = .cont final) :
    step host (atBlock layout filter pc offset state) =
    .next (atBlock layout filter pc (offset + 1) final) :=
  placed.code.step_cont offset here executes

theorem step_jump
    {target : Nat}
    (executes : ∀ following, execute host insn following state = .jump final)
    (resolved : insn.off.toInt =
      (blockAddr layout filter target : Int) - blockAddr layout filter pc - 1 - offset) :
    step host (atBlock layout filter pc offset state) =
    .next (atBlock layout filter target 0 final) :=
  placed.code.step_jump offset here executes resolved

theorem step_ret
    {value : BitVec 64}
    (executes : ∀ following, execute host insn following state = .ret value final) :
    step host (atBlock layout filter pc offset state) = .halt (.ret value final.mem final.trace) :=
  placed.code.step_ret offset here executes

end

theorem atBlock_length
    (state : State) :
    atBlock layout filter pc block.length state = atBlock layout filter (pc + 1) 0 state := by
  simp [atBlock, placed.next]

end Placed

/-- The next block follows a block's last instruction. -/
theorem Placed.step_last
    {slots : List Insn}
    {insn : Insn}
    {state final : State}
    (placed : Placed layout filter pc (slots ++ [insn]))
    (executes : ∀ following, execute host insn following state = .cont final) :
    step host (atBlock layout filter pc slots.length state) =
    .next (atBlock layout filter (pc + 1) 0 final) := by
  have falls := placed.step_cont slots.length (by simp) executes
  have leaves := placed.atBlock_length final
  rw [List.length_append, List.length_singleton] at leaves
  rwa [leaves] at falls

/-- What the interpreter has to do for one classic step. -/
def BlockSimulates (context : SkbContext host layout) (filter : List SockFilter) (pc : Nat)
    (nexts : List Nat) (mask : BitVec 16) (state : State) :
    StepResult ClassicConfig (Option (BitVec 32)) → Prop
  | .next following =>
    following.pc ∈ nexts ∧ ∃ count final, 0 < count ∧ Reaches (step host) count
            (atBlock layout filter pc 0 state) (atBlock layout filter following.pc 0 final) ∧
          StateRel context mask following.state final
  | .halt verdict =>
    ∃ value mem trace, Terminates (step host) (atBlock layout filter pc 0 state)
          (.ret value mem trace) ∧ verdict = some (value.setWidth 32)

namespace BlockSimulates

variable {context : SkbContext host layout} {nexts : List Nat} {mask : BitVec 16} {state : State}

/-- A block of one continuing instruction. -/
theorem single
    {insn : Insn}
    {final : State}
    {classic : ClassicState}
    (placed : Placed layout filter pc [insn])
    (executes : ∀ following, execute host insn following state = .cont final)
    (rel : StateRel context mask classic final)
    (successor : pc + 1 ∈ nexts) :
    BlockSimulates context filter pc nexts mask state (.next ⟨pc + 1, classic⟩) := by
  have stepped :=
    Placed.step_last (show Placed layout filter pc ([] ++ [insn]) from placed) executes
  exact ⟨successor, 1, final, Nat.one_pos, Reaches.single stepped, rel⟩

theorem returnsZero
    {insn : Insn}
    {final : State}
    (placed : Placed layout filter pc block)
    (here : block[0]? = some insn)
    (executes : ∀ following, execute host insn following state = .ret 0 final) :
    BlockSimulates context filter pc nexts mask state (.halt (some 0)) :=
  ⟨0, final.mem, final.trace, Terminates.ofHalt (placed.step_ret 0 here executes), rfl⟩

end BlockSimulates

end EchoKernel.Bpf
