import ConstraintCompiler.Model

/-!
Contract: the postings that give composite expressions their values.

Owns:
- `Expression.resolve`, the argument that stands for an expression. A composite without a variable
  is given an added one, defined by one queued posting, after its operands have been resolved;
- `Composite.fuse`, the posting that ties a composite straight to a result, so that no variable is
  needed for it;
- the merging of nested conjunctions and of nested disjunctions.

A composite gets at most one variable. Later uses of it find the variable in the model.
-/

namespace ConstraintCompiler

namespace Connective

/-- Posting that compares the connective's value with a result: equal to it, where the primitive
leaves the choice. -/
def posting (connective : Connective) (operands : List Argument) (result : Argument) : Posting :=
  { primitive := .defining connective
    arguments := operands ++ [result]
    relation := if (Primitive.defining connective).needsRelation then some .eq else none }

end Connective

namespace Model

/-- Give a composite, whose operands are resolved, a variable and queue the posting that defines
it. -/
def define (label : Label) (connective : Connective) (operands : List Argument) (kind : Kind) :
    StateM Model Variable := do
  let v ← fresh kind
  report [.materialized connective v]
  modify fun model => { model with definitions := (label, v) :: model.definitions }
  enqueuePosting (connective.posting operands (.var v))
  return v

end Model

mutual

def Expression.resolve : Expression → StateM Model Argument
  | .variable v => return .var v
  | .array items => return .vars items.elements
  | .constant value => return value.argument
  | .composite label connective operands kind => do
      match (← get).definition? label with
      | some v => return .var v
      | none =>
          let arguments ←
            (if connective.flattens then Expression.resolveMerged connective operands
             else Expression.resolveEach operands)
          return .var (← Model.define label connective arguments kind)

def Expression.resolveEach : List Expression → StateM Model (List Argument)
  | [] => return []
  | expression :: rest => do
      let argument ← expression.resolve
      return argument :: (← Expression.resolveEach rest)

/-- Arguments that stand for the operands of a connective that flattens. An operand that is joined
by the same connective, and has no variable, is replaced by its own operands. -/
def Expression.resolveMerged (connective : Connective) :
    List Expression → StateM Model (List Argument)
  | [] => return []
  | .composite label inner operands kind :: rest => do
      let defined := ((← get).definition? label).isSome
      let arguments ←
        (if inner = connective ∧ !defined then Expression.resolveMerged connective operands
         else List.singleton <$> Expression.resolve (.composite label inner operands kind))
      return arguments ++ (← Expression.resolveMerged connective rest)
  | expression :: rest => do
      let argument ← expression.resolve
      return argument :: (← Expression.resolveMerged connective rest)

end

structure Composite where
  label : Label
  connective : Connective
  operands : List Expression
  kind : Kind

namespace Expression

def composite? : Expression → Option Composite
  | .composite label connective operands kind => some ⟨label, connective, operands, kind⟩
  | _ => none

end Expression

namespace Composite

def resolveOperands (composite : Composite) : StateM Model (List Argument) :=
  if composite.connective.flattens then
    Expression.resolveMerged composite.connective composite.operands
  else Expression.resolveEach composite.operands

/-- Queue one posting that compares the composite with a result, and answer the result. Without
one, an added variable takes its place; it does not become the composite's own. -/
def fuse (composite : Composite) (result : Option Argument) (negated : Bool)
    (strength : Strength) (priority : Option Priority) : StateM Model Argument := do
  let operands ← composite.resolveOperands
  let result ← (match result with
    | some argument => pure argument
    | none => Argument.var <$> Model.fresh composite.kind)
  Model.report [.fused composite.connective negated]
  Model.enqueuePosting
    { composite.connective.posting operands result with negated, strength, priority }
  return result

/-- A result that stands for one value must have the composite's kind. An array in its place has
no kind to be compared. -/
def checkResult (composite : Composite) (result : Option Argument) : Except Error Unit :=
  match result.bind Argument.scalarKind? with
  | some found =>
      if found = composite.kind then .ok ()
      else .error (.kindMismatch (.resultKind composite.connective) (.scalar found))
  | none => .ok ()

def constrain (composite : Composite) (result : Option Argument) (negated : Bool)
    (strength : Strength) (priority : Option Priority) : Compile Argument := do
  composite.checkResult result
  composite.fuse result negated strength priority

end Composite

end ConstraintCompiler
