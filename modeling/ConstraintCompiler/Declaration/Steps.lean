import ConstraintCompiler.Declaration.Compile

/-!
Contract: compilation of declarations with each check at the moment when what it checks is known.

Owns:
- `Plan.performInSteps`, which looks for the variable of a target, and compares a result with the
  composite's kind, only once these have been resolved and the model has changed;
- `Model.declareInSteps`, compilation in such steps.

Does not own: that no late check fails, so that this is `Model.declare`.
-/

namespace ConstraintCompiler

namespace Plan

/-- Resolve the target, and refuse it if no variable stands for it. -/
def bindTarget (plan : Plan) (refusal : Error) : Compile (Option Variable) :=
  match plan.target with
  | none => return none
  | some target => do
      match (← (target.resolve : StateM Model Argument)).asVariable? with
      | some v => return some v
      | none => throw refusal

/-- Resolve the other side of an equality, compare its kind with the composite's, and queue one
posting for both. -/
def fuseInSteps (plan : Plan) (composite : Composite) (other : Expression) : Compile Unit := do
  let result ← (other.resolve : StateM Model Argument)
  discard <| composite.constrain (some result) plan.negated plan.strength plan.priority

def stateInSteps (plan : Plan) (refusal : Error) : Compile Unit := do
  let target ← plan.bindTarget refusal
  let subjects ← (Expression.resolveEach plan.subjects : StateM Model (List Argument))
  Model.enqueuePosting (plan.posting subjects target)

def performInSteps (plan : Plan) (refusal : Error) : Compile Unit := do
  let model ← get
  match plan.equality?.bind fun (left, right) => fusion? model left right with
  | some (composite, other) => plan.fuseInSteps composite other
  | none => plan.stateInSteps refusal

section Cases

variable {plan : Plan} {model : Model} (refusal : Error)

theorem bindTarget_of_variable {target : Expression} {v : Variable}
    (found : plan.target = some target) (bound : (target.resolve model).1 = .var v) :
    plan.bindTarget refusal model = (.ok (some v), (target.resolve model).2) := by
  have bindings : plan.bindTarget refusal model =
      (match (target.resolve model).1.asVariable? with
        | some v => return some v
        | none => throw refusal : Compile (Option Variable)) (target.resolve model).2 := by
    rw [bindTarget, found]
    rfl
  rw [bindings, bound]
  rfl

private theorem performInSteps_eq_choice :
    plan.performInSteps refusal model =
      (match plan.equality?.bind fun sides => fusion? model sides.1 sides.2 with
        | some (composite, other) => plan.fuseInSteps composite other
        | none => plan.stateInSteps refusal) model := rfl

theorem performInSteps_of_fusion {composite : Composite} {other : Expression}
    (fusion : (plan.equality?.bind fun sides => fusion? model sides.1 sides.2) =
      some (composite, other)) :
    plan.performInSteps refusal model = plan.fuseInSteps composite other model := by
  rw [performInSteps_eq_choice, fusion]

theorem performInSteps_of_no_fusion
    (separate : (plan.equality?.bind fun sides => fusion? model sides.1 sides.2) = none) :
    plan.performInSteps refusal model = plan.stateInSteps refusal model := by
  rw [performInSteps_eq_choice, separate]

end Cases

end Plan

namespace Model

/-- Compile a declaration into the queue, where a target without a variable is refused last. -/
def declareInSteps (refusal : Error) (declaration : Declaration) : Compile Unit := do
  let plan ← (declaration.plan : Except Error Plan)
  plan.performInSteps refusal

end Model

end ConstraintCompiler
