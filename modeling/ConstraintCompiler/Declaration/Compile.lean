import ConstraintCompiler.Declaration.Plan
import ConstraintCompiler.Model.Definition

/-!
Contract: compilation of declarations into queued postings.

Owns:
- the choice between fusing a composite with the other side of an equality and comparing two
  arguments;
- `Plan.perform`, which resolves the subjects of a checked declaration and queues its posting;
- `Model.declare`, which plans first and touches the model only if that succeeds.
-/

namespace ConstraintCompiler

namespace Composite

/-- The composite has no variable in the model. -/
def isUndefined (composite : Composite) (model : Model) : Bool :=
  (model.definition? composite.label).isNone

end Composite

/-- The composite of an equality that can be tied to the other side in one posting, and that other
side. The left side is preferred. A composite that has a variable is not tied again, and neither is
one that stands on both sides. -/
def fusion? (model : Model) (left right : Expression) : Option (Composite × Expression) :=
  match left.composite?, right.composite? with
  | some composite, some other =>
      if composite.label = other.label then none
      else if composite.isUndefined model then some (composite, right)
      else if other.isUndefined model then some (other, left)
      else none
  | some composite, none => if composite.isUndefined model then some (composite, right) else none
  | none, some other => if other.isUndefined model then some (other, left) else none
  | none, none => none

namespace Plan

/-- The subjects of an equality that nothing is reified from. -/
def equality? (plan : Plan) : Option (Expression × Expression) :=
  match plan.primitive, plan.relation, plan.target, plan.subjects with
  | .relation, some .eq, none, [left, right] => some (left, right)
  | _, _, _, _ => none

def posting (plan : Plan) (subjects : List Argument) (target : Option Variable) : Posting :=
  { primitive := plan.primitive
    arguments := (if plan.swapped then subjects.reverse else subjects) ++ plan.constants
    relation := plan.relation
    negated := plan.negated
    strength := plan.strength
    target
    priority := plan.priority }

def state (plan : Plan) : StateM Model Unit := do
  let target ← (match plan.target with
    | none => pure none
    | some target => Argument.asVariable? <$> target.resolve)
  let subjects ← Expression.resolveEach plan.subjects
  Model.enqueuePosting (plan.posting subjects target)

/-- Queue what the plan demands: one fused posting where an equality allows it, and the plan's own
posting otherwise. -/
def perform (plan : Plan) : StateM Model Unit := do
  let model ← get
  match plan.equality?.bind fun (left, right) => fusion? model left right with
  | some (composite, other) =>
      let result ← other.resolve
      discard <| composite.fuse (some result) plan.negated plan.strength plan.priority
  | none => plan.state

end Plan

namespace Model

def declare (declaration : Declaration) : Compile Unit := do
  let plan ← (declaration.plan : Except Error Plan)
  plan.perform

end Model

end ConstraintCompiler
