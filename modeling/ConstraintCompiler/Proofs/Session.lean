import ConstraintCompiler.Declaration.Compile
import ConstraintCompiler.Declaration.Truth

/-!
Contract: runs of a model, as sequences of actions on a session.

Owns:
- what it means that an assignment fits a problem and that it satisfies one;
- `Composition`, every way to put a composite together from expressions at hand;
- `Action` and `Session.step`, what a user can do to a model, with the record of what was built,
  declared and resolved;
- `Session.Admits`, the one rule of a run: an action uses variables that its model has allocated,
  and composites that its model has built.

Does not own: any law of runs.
-/

namespace ConstraintCompiler

namespace Problem

def Knows (problem : Problem) (v : Variable) : Prop := problem.variableObjection? v = none

instance (problem : Problem) (v : Variable) : Decidable (problem.Knows v) :=
  inferInstanceAs (Decidable (problem.variableObjection? v = none))

def Respects (problem : Problem) (assignment : Assignment) : Prop :=
  ∀ (id : Nat) (domain : Domain) (value : Value),
    problem.domains[id]? = some domain → assignment id = some value → value.kind = domain.kind

def IsAssigned (problem : Problem) (assignment : Assignment) : Prop :=
  ∀ (id : Nat) (domain : Domain), problem.domains[id]? = some domain →
    ∃ value, assignment id = some value ∧ value.kind = domain.kind

def IsSatisfied (problem : Problem) (assignment : Assignment) : Prop :=
  ∀ posting ∈ problem.postings, posting.verdict assignment = some true

end Problem

/-- A composite expression before it has a label: a connective with expressions at hand. -/
inductive Composition where
  | logic (operator : LogicOperator) (left right : Expression)
  | all (items : VariableArray)
  | any (items : VariableArray)
  | aggregate (function : Aggregate) (items : VariableArray)
  | count (items : VariableArray) (item : Expression)
  | element (items index : Expression)
  | selection (function : Selection) (sets : VariableArray) (selector : Expression)

namespace Composition

def build : Composition → Label → Except Error Expression
  | .logic operator left right, label => Expression.logic operator left right label
  | .all items, label => Expression.all items label
  | .any items, label => Expression.any items label
  | .aggregate function items, label => Expression.aggregate function items label
  | .count items item, label => Expression.count items item label
  | .element items index, label => Expression.element items index label
  | .selection function sets selector, label => do
      return (← SelectedSets.select sets selector).combine function label

def parts : Composition → List Expression
  | .logic _ left right => [left, right]
  | .all items | .any items | .aggregate _ items => [.array items]
  | .count items item => [.array items, item]
  | .element items index => [items, index]
  | .selection _ sets selector => [.array sets, selector]

end Composition

namespace Statement

def expressions : Statement → List Expression
  | .relate left _ right => [left, right]
  | .truth subject _ => [subject]
  | .distinct subject => [subject]
  | .sorted subject => [subject]
  | .table subject _ => [subject]
  | .channel left right => [left, right]
  | .setOperation operation _ result => [operation.left, operation.right, result]
  | .setElements elements _ bound => [elements.set, bound]

end Statement

namespace Declaration

/-- Expressions in a declaration: those of its statement, and its target. -/
def expressions (declaration : Declaration) : List Expression :=
  declaration.statement.expressions ++ declaration.options.target.toList

end Declaration

/-- One thing a user does. Flushing and declaring may fail; a run goes on after that. -/
inductive Action where
  | allocate (domain : Domain)
  | allocateArray (count : Nat) (domain : Domain)
  | fresh (kind : Kind)
  | build (composition : Composition)
  /-- Ask for the argument that stands for an expression, and thereby give a composite its
  variable. -/
  | resolve (expression : Expression)
  | declare (declaration : Declaration)
  | flush

namespace Action

def expressions : Action → List Expression
  | .build composition => composition.parts
  | .resolve expression => [expression]
  | .declare declaration => declaration.expressions
  | .allocate _ | .allocateArray _ _ | .fresh _ | .flush => []

end Action

/-- A model with the record of its use: the composites built, each at the position of its label,
the expressions that were resolved, and the declarations that were accepted. -/
structure Session where
  model : Model
  built : List Expression := []
  resolved : List Expression := []
  declared : List Declaration := []

namespace Session

def start (settings : Model.Settings) : Session := { model := { settings } }

def step (session : Session) : Action → Session
  | .allocate domain => { session with model := (Model.allocate domain session.model).2 }
  | .allocateArray count domain =>
      { session with model := (Model.allocateArray count domain session.model).2 }
  | .fresh kind => { session with model := (Model.fresh kind session.model).2 }
  | .build composition =>
      match Model.build composition.build session.model with
      | (.ok expression, model) => { session with model, built := session.built ++ [expression] }
      | (.error _, model) => { session with model }
  | .resolve expression =>
      { session with
        model := (expression.resolve session.model).2
        resolved := session.resolved ++ [expression] }
  | .declare declaration =>
      match Model.declare declaration session.model with
      | (.ok (), model) => { session with model, declared := session.declared ++ [declaration] }
      | (.error _, model) => { session with model }
  | .flush => { session with model := (Model.flush session.model).2 }

def run (session : Session) (actions : List Action) : Session := actions.foldl step session

/-- What a run leaves behind that starts from an empty model and ends with a flush. -/
def flushedRun (settings : Model.Settings) (actions : List Action) : Session :=
  ((start settings).run actions).step .flush

/-- The expression can be handed to the session's model: it is a constant, its variables are
allocated, or it is a composite that was built here. -/
def AtHand (session : Session) : Expression → Prop
  | .variable v => session.model.problem.Knows v
  | .array items => ∀ v ∈ items.elements, session.model.problem.Knows v
  | .constant _ => True
  | .composite label connective operands kind =>
      session.built[label]? = some (.composite label connective operands kind)

def Permits (session : Session) (action : Action) : Prop :=
  ∀ expression ∈ action.expressions, session.AtHand expression

def Admits : Session → List Action → Prop
  | _, [] => True
  | session, action :: rest => session.Permits action ∧ (session.step action).Admits rest

/-- Expressions that the session's postings are there for. -/
def subjects (session : Session) : List Expression :=
  session.resolved ++ session.declared.flatMap Declaration.expressions

theorem mem_subjects_of_declared {session : Session} {declaration : Declaration}
    (declared : declaration ∈ session.declared) {expression : Expression}
    (member : expression ∈ declaration.expressions) : expression ∈ session.subjects :=
  List.mem_append_right _ (List.mem_flatMap.mpr ⟨declaration, declared, member⟩)

end Session

end ConstraintCompiler
