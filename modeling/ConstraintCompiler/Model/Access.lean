import ConstraintCompiler.Expression.Build
import ConstraintCompiler.Model.Definition

/-!
Contract: what can be read off an expression in a model or in a solution.

Owns the variable, the items and the values of an expression, each refused with the capability that
the expression lacks. Reading changes nothing: a composite without a variable is not given one.
-/

namespace ConstraintCompiler.Expression

def lacks (expression : Expression) (capability : Capability) : Error :=
  .unsupportedCapability expression.shape capability

/-- The variable that an expression is, or has been given. -/
def variableIn (model : Model) (expression : Expression) : Except Error Variable :=
  match expression with
  | .variable v => .ok v
  | .composite label _ _ _ =>
      match model.definition? label with
      | some v => .ok v
      | none => .error (expression.lacks .definedVariable)
  | _ => .error (expression.lacks .variable)

def items (expression : Expression) : Except Error VariableArray :=
  match expression with
  | .array items => .ok items
  | _ => .error (expression.lacks .enumeration)

def length (expression : Expression) : Except Error Nat :=
  match expression with
  | .constant (.ints numbers) => .ok numbers.length
  | _ => return (← expression.items).length

def itemAt (expression : Expression) (position : Nat) : Except Error (Option Variable) :=
  return (← expression.items).elements[position]?

def solved (expression : Expression) (solution : Solution) (v : Variable) : Except Error Value :=
  match solution.value? v with
  | some value => .ok value
  | none => .error (expression.lacks .solvedValue)

def valueIn (model : Model) (solution : Solution) (expression : Expression) :
    Except Error Value :=
  match expression with
  | .constant literal =>
      match literal.value? with
      | some value => .ok value
      | none => .error (expression.lacks .value)
  | _ => do expression.solved solution (← expression.variableIn model)

def valuesIn (solution : Solution) (expression : Expression) : Except Error (List Value) :=
  match expression with
  | .constant (.ints numbers) => .ok (numbers.map .int)
  | _ => do (← expression.items).elements.mapM (expression.solved solution)

end ConstraintCompiler.Expression
