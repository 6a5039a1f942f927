import EchoKernel.BpfInterpreter

namespace EchoKernel.Bpf

open Simulation

/-!
# Running code at an address

Translations place blocks of instructions in a larger program. These lemmas
run the interpreter inside such a block.
-/

/-- `block` stands at address `start` of the program. -/
def CodeAt (code : List Insn) (start : Nat) (block : List Insn) : Prop :=
  ∀ offset insn, block[offset]? = some insn → code[start + offset]? = some insn

namespace CodeAt

variable {host : Host} {code block : List Insn} {start : Nat} {insn : Insn}
variable (placed : CodeAt code start block)
include placed

/-- A step has the effect of the instruction at its slot. -/
theorem step_eq
    {offset : Nat}
    {state : State}
    {effect : Effect}
    (here : block[offset]? = some insn)
    (executes : ∀ following, execute host insn following state = effect) :
    step host ⟨code, ((start + offset : Nat) : Int), state⟩ =
    effect.toStep ⟨code, ((start + offset : Nat) : Int), state⟩ insn.off := by
  have fetched : fetch code ((start + offset : Nat) : Int) = some insn := by
    exact placed offset insn here
  rw [step_of_fetch host state fetched, executes]

section
variable (offset : Nat) {state final : State} (here : block[offset]? = some insn)
include offset here

theorem step_cont
    (executes : ∀ following, execute host insn following state = .cont final) :
    step host ⟨code, ((start + offset : Nat) : Int), state⟩ =
    .next ⟨code, ((start + (offset + 1) : Nat) : Int), final⟩ := by
  rw [placed.step_eq here executes]
  simp only [Effect.toStep, StepResult.next.injEq, Config.mk.injEq, and_true, true_and]
  omega

/-- A jump with a resolved offset moves to its target. -/
theorem step_jump
    {target : Nat}
    (executes : ∀ following, execute host insn following state = .jump final)
    (resolved : insn.off.toInt = (target : Int) - start - 1 - offset) :
    step host ⟨code, ((start + offset : Nat) : Int), state⟩ =
    .next ⟨code, (target : Int), final⟩ := by
  rw [placed.step_eq here executes]
  simp only [Effect.toStep, StepResult.next.injEq, Config.mk.injEq, and_true, true_and]
  omega

theorem step_ret
    {value : BitVec 64}
    (executes : ∀ following, execute host insn following state = .ret value final) :
    step host ⟨code, ((start + offset : Nat) : Int), state⟩ =
    .halt (.ret value final.mem final.trace) := by
  rw [placed.step_eq here executes]
  rfl

end

end CodeAt

end EchoKernel.Bpf
