import Mathlib.Order.Basic

namespace EchoKernel.Simulation

/-!
# Deterministic machines and forward simulation

A deterministic machine continues in a new state or halts with a result. A
forward simulation matches every source step by at least one target step, and
every source halt by a halting target run. As the target is deterministic, the
two machines have exactly the same results and diverge together.
-/

/-- What one step of a deterministic machine yields. -/
inductive StepResult (σ ρ : Type) where
  | next (state : σ)
  | halt (result : ρ)

/-- Run a machine for at most `fuel` steps. -/
def run {σ ρ : Type} (step : σ → StepResult σ ρ) : Nat → σ → Option ρ
  | 0, _ => none
  | fuel + 1, state =>
    match step state with
    | .next following => run step fuel following
    | .halt result => some result

/-- The machine takes exactly `count` steps between two states. -/
def Reaches {σ ρ : Type} (step : σ → StepResult σ ρ) : Nat → σ → σ → Prop
  | 0, initial, final => initial = final
  | count + 1, initial, final =>
    ∃ middle, step initial = .next middle ∧ Reaches step count middle final

/-- Some fuel lets the machine halt with `result`. -/
def Terminates {σ ρ : Type} (step : σ → StepResult σ ρ) (state : σ) (result : ρ) : Prop :=
  ∃ fuel, run step fuel state = some result

section
variable {σ ρ : Type} {step : σ → StepResult σ ρ} {count : Nat}

theorem Reaches.single
    {initial final : σ}
    (stepped : step initial = .next final) :
    Reaches step 1 initial final :=
  ⟨final, stepped, rfl⟩

theorem Reaches.head
    {initial middle final : σ}
    (stepped : step initial = .next middle)
    (later : Reaches step count middle final) :
    Reaches step (count + 1) initial final :=
  ⟨middle, stepped, later⟩

/-- Concatenate two runs whose boundary states agree. -/
theorem Reaches.append
    {first second : Nat}
    {initial middle final : σ}
    (earlier : Reaches step first initial middle)
    (later : Reaches step second middle final) :
    Reaches step (first + second) initial final := by
  induction first generalizing initial with
  | zero =>
    cases earlier
    simpa using later
  | succ first inductionHypothesis =>
    obtain ⟨between, stepped, rest⟩ := earlier
    rw [Nat.succ_add]
    exact ⟨between, stepped, inductionHypothesis rest⟩

/-- A known prefix of a run leaves the other fuel. -/
theorem run_of_reaches
    {initial final : σ}
    (reaches : Reaches step count initial final)
    (fuel : Nat) :
    run step (count + fuel) initial = run step fuel final := by
  induction count generalizing initial with
  | zero =>
    cases reaches
    simp
  | succ count inductionHypothesis =>
    obtain ⟨middle, stepped, rest⟩ := reaches
    rw [Nat.succ_add]
    simp only [run, stepped]
    exact inductionHypothesis rest

theorem Terminates.ofHalt
    {state : σ}
    {result : ρ}
    (stepped : step state = .halt result) :
    Terminates step state result :=
  ⟨1, by simp [run, stepped]⟩

theorem Terminates.prepend
    {initial middle : σ}
    {result : ρ}
    (reaches : Reaches step count initial middle)
    (halts : Terminates step middle result) :
    Terminates step initial result := by
  obtain ⟨fuel, halted⟩ := halts
  exact ⟨count + fuel, (run_of_reaches reaches fuel).trans halted⟩

end

/-- The same machine, its results seen by a function. -/
def mapResult {σ ρ κ : Type} (observe : ρ → κ) (step : σ → StepResult σ ρ) : σ → StepResult σ κ :=
  fun state =>
    match step state with
    | .next following => .next following
    | .halt result => .halt (observe result)

section
variable {σ ρ κ : Type} {step : σ → StepResult σ ρ} {observe : ρ → κ}

/-- Observing does not change how it continues. -/
theorem Reaches.observed
    {count : Nat}
    {initial final : σ}
    (reaches : Reaches step count initial final) :
    Reaches (mapResult observe step) count initial final := by
  induction count generalizing initial with
  | zero => exact reaches
  | succ count inductionHypothesis =>
    obtain ⟨middle, stepped, rest⟩ := reaches
    exact ⟨middle, by simp [mapResult, stepped], inductionHypothesis rest⟩

theorem run_mapResult
    (fuel : Nat)
    (state : σ) :
    run (mapResult observe step) fuel state = (run step fuel state).map observe := by
  induction fuel generalizing state with
  | zero => rfl
  | succ fuel inductionHypothesis =>
    simp only [run, mapResult]
    cases step state with
    | next following => exact inductionHypothesis following
    | halt value => rfl

/-- A result of the machine is observed. -/
theorem Terminates.observed
    {state : σ}
    {result : ρ}
    (halts : Terminates step state result) :
    Terminates (mapResult observe step) state (observe result) := by
  obtain ⟨fuel, halted⟩ := halts
  refine ⟨fuel, ?_⟩
  rw [run_mapResult, halted, Option.map_some]

/-- An observed result comes from a result. -/
theorem Terminates.of_observed
    {state : σ}
    {value : κ}
    (halts : Terminates (mapResult observe step) state value) :
    ∃ result, Terminates step state result ∧ observe result = value := by
  obtain ⟨fuel, halted⟩ := halts
  rw [run_mapResult] at halted
  obtain ⟨result, ran, observed⟩ := Option.map_eq_some_iff.mp halted
  exact ⟨result, ⟨fuel, ran⟩, observed⟩

end

/--
Every source step is matched by at least one target step, and a halt by a
target run with the same result.
-/
structure ForwardSimulation {σ τ ρ : Type} (source : σ → StepResult σ ρ)
    (target : τ → StepResult τ ρ) (related : σ → τ → Prop) : Prop where
  onNext : ∀ {state following : σ} {matched : τ}, related state matched →
      source state = .next following → ∃ count final, 0 < count ∧
          Reaches target count matched final ∧ related following final
  onHalt : ∀ {state : σ} {matched : τ} {result : ρ}, related state matched →
      source state = .halt result → Terminates target matched result

namespace ForwardSimulation

variable {σ τ ρ : Type} {source : σ → StepResult σ ρ} {target : τ → StepResult τ ρ}
variable {related : σ → τ → Prop}

/-- A halting source run has a target run with the same result. -/
theorem terminates_target
    (simulation : ForwardSimulation source target related)
    {state : σ}
    {matched : τ}
    {result : ρ}
    (start : related state matched)
    (halts : Terminates source state result) :
    Terminates target matched result := by
  obtain ⟨fuel, halted⟩ := halts
  induction fuel generalizing state matched with
  | zero => simp [run] at halted
  | succ fuel inductionHypothesis =>
    cases stepped : source state with
    | next following =>
      simp only [run, stepped] at halted
      obtain ⟨count, final, -, reaches, relatedFinal⟩ := simulation.onNext start stepped
      exact Terminates.prepend reaches (inductionHypothesis relatedFinal halted)
    | halt value =>
      simp only [run, stepped, Option.some.injEq] at halted
      subst halted
      exact simulation.onHalt start stepped

end ForwardSimulation

end EchoKernel.Simulation
