import Mathlib.Init

namespace EchoKernel.LabelledRun

/-!
# Runs of labelled steps

A run takes labelled steps from an initial state. What every admitted step
keeps holds at the end of a run with admitted labels.
-/

variable {State Label : Type*} {step : State → Label → State → Prop}
variable {initial final : State} {labels : List Label}

/-- The states that are reached with a list of labels. -/
inductive Run (step : State → Label → State → Prop) (initial : State) : List Label → State → Prop
  | start : Run step initial [] initial
  | after {labels : List Label} {state next : State} {label : Label}
      (run : Run step initial labels state) (taken : step state label next) :
      Run step initial (labels ++ [label]) next

/-- What admitted steps keep holds at the end of an admitted run. -/
theorem Run.invariant
    {holds : State → Prop}
    {admitted : Label → Prop}
    (atStart : holds initial)
    (kept : ∀ state label next, holds state → admitted label → step state label next → holds next)
    (run : Run step initial labels final)
    (allAdmitted : ∀ label ∈ labels, admitted label) :
    holds final := by
  induction run with
  | start => exact atStart
  | after run taken inductionHypothesis =>
    have before :=
      inductionHypothesis fun label member => allAdmitted label (List.mem_append_left _ member)
    exact kept _ _ _ before (allAdmitted _ (by simp)) taken

/-- What every step keeps holds at the end of a run. -/
theorem Run.always
    {holds : State → Prop}
    (atStart : holds initial)
    (kept : ∀ state label next, holds state → step state label next → holds next)
    (run : Run step initial labels final) :
    holds final :=
  run.invariant atStart (fun state label next before _ => kept state label next before)
    (fun _ _ => trivial)

variable {perform : State → Label → Option State}

/-- The state after a list of labels; none when one has no step. -/
def execute (perform : State → Label → Option State) : State → List Label → Option State
  | state, [] => some state
  | state, label :: rest => (perform state label).bind fun next => execute perform next rest

/-- The steps of an execution extend a run. -/
theorem Run.execute
    {rest : List Label}
    {state : State}
    (run : Run step initial labels state)
    (taken : ∀ before, ∀ label ∈ rest, ∀ after, perform before label = some after →
      step before label after)
    (executes : LabelledRun.execute perform state rest = some final) :
    Run step initial (labels ++ rest) final := by
  induction rest generalizing labels state with
  | nil =>
    cases executes
    rw [List.append_nil]
    exact run
  | cons label rest inductionHypothesis =>
    obtain ⟨next, performs, continues⟩ := Option.bind_eq_some_iff.mp executes
    have further := inductionHypothesis (run.after (taken _ _ (by simp) _ performs))
      (fun before label member after =>
        taken before label (List.mem_cons_of_mem _ member) after)
      continues
    rwa [List.append_assoc] at further

/-- An execution is a run. -/
theorem run_of_execute
    (taken : ∀ before, ∀ label ∈ labels, ∀ after, perform before label = some after →
      step before label after)
    (executes : LabelledRun.execute perform initial labels = some final) :
    Run step initial labels final :=
  Run.execute .start taken executes

/-- The steps that a test allows. -/
def guarded (allows : State → Label → Bool) (perform : State → Label → Option State)
    (state : State) (label : Label) : Option State :=
  if allows state label then perform state label else none

/-- An execution of steps that a test allows is a run of steps with its property. -/
theorem run_of_guarded
    {allows : State → Label → Bool}
    (taken : ∀ before label after, allows before label = true → perform before label = some after →
      step before label after)
    (executes : LabelledRun.execute (guarded allows perform) initial labels = some final) :
    Run step initial labels final := by
  refine run_of_execute (fun before label _ after performs => ?_) executes
  unfold guarded at performs
  split at performs
  case isTrue allowed => exact taken before label after allowed performs
  case isFalse => cases performs

end EchoKernel.LabelledRun
