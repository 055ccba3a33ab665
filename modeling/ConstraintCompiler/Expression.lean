import ConstraintCompiler.Posting

/-!
Contract: constraint expressions as trees.

Owns:
- `Shape`, the kind of an expression: one value, or an array of values of one kind;
- `VariableArray`, an array of variables that all have its kind;
- `Expression`, variables, arrays, constants and labelled composites.

A composite carries a label that identifies it. Two occurrences with one label are one
expression used twice; the same tree written twice carries two labels. Which composites have a
variable of their own is part of a model, not of the tree.

Does not own: the rules by which expressions may be joined.
-/

namespace ConstraintCompiler

/-- What an expression stands for: one value, or an array of values, of a kind. -/
inductive Shape where
  | scalar (kind : Kind)
  | array (kind : Kind)
deriving DecidableEq

namespace Shape

def text : Shape → String
  | .scalar kind => kind.name
  | .array kind => kind.name ++ " enum"

def isArray : Shape → Bool
  | .scalar _ => false
  | .array _ => true

end Shape

/-- Variables of one kind, in an order that positions refer to. -/
structure VariableArray where
  kind : Kind
  elements : List Variable
  uniform : ∀ v ∈ elements, v.kind = kind
deriving DecidableEq

namespace VariableArray

def shape (items : VariableArray) : Shape := .array items.kind

def length (items : VariableArray) : Nat := items.elements.length

end VariableArray

inductive Constant where
  | bool (truth : Bool)
  | int (number : Int)
  | set (members : IntSet)
  | ints (numbers : List Int)
deriving DecidableEq

namespace Constant

def shape : Constant → Shape
  | .bool _ => .scalar .bool
  | .int _ => .scalar .int
  | .set _ => .scalar .set
  | .ints _ => .array .int

def argument : Constant → Argument
  | .bool truth => .bool truth
  | .int number => .int number
  | .set members => .set members
  | .ints numbers => .ints numbers

def value? : Constant → Option Value
  | .bool truth => some (.bool truth)
  | .int number => some (.int number)
  | .set members => some (.set members)
  | .ints _ => none

end Constant

abbrev Label := Nat

/-- A constraint expression. The kind of a composite is the kind of the value it stands for. -/
inductive Expression where
  | variable (v : Variable)
  | array (items : VariableArray)
  | composite (label : Label) (connective : Connective) (operands : List Expression) (kind : Kind)
  | constant (value : Constant)

namespace Expression

instance : Inhabited Expression := ⟨.constant (.bool true)⟩

def shape : Expression → Shape
  | .variable v => .scalar v.kind
  | .array items => items.shape
  | .composite _ _ _ kind => .scalar kind
  | .constant value => value.shape

/-- The expression is a constant list of integers, which can be indexed but not constrained. -/
def isConstantArray : Expression → Bool
  | .constant value => value.shape.isArray
  | _ => false

def label? : Expression → Option Label
  | .composite label _ _ _ => some label
  | _ => none

end Expression

end ConstraintCompiler
