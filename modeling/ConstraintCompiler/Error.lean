import ConstraintCompiler.Expression
import ConstraintCompiler.Problem

/-!
Contract: everything that can be wrong with an expression or a declaration.

Owns the causes, as data, and their wording in `Error.message`. Where several things are wrong at
once, the operation that reports decides which one is named.
-/

namespace ConstraintCompiler

inductive Demand where
  /-- Both sides of a logical connective are truth values. -/
  | logicSide (operator : LogicOperator)
  /-- A logical connective over an array takes truth values. -/
  | logicItems (operator : LogicOperator)
  /-- An aggregate takes integers. -/
  | aggregateItems (function : Aggregate)
  | countItems
  | countItem
  /-- Only arrays of truth values or integers can be indexed. -/
  | indexableItems
  | indexable
  | elementIndex
  | uniformItems
  | selectableSets
  | selector
  | setOperationSide
  | setOperationTarget
  | elementsOf
  | elementsBound
  | relationSubject
  | integerSides
  | setSides
  | sameShape
  | truthSubject (expected : Bool)
  | distinctItems
  | sortedItems
  | tableItems
  | channelSides
  | resultKind (connective : Connective)
deriving DecidableEq

namespace Demand

def context : Demand → String
  | .logicSide operator | .logicItems operator => operator.name
  | .aggregateItems function => function.name
  | .countItems | .countItem => "count"
  | .indexableItems | .indexable | .elementIndex => "element"
  | .uniformItems => "enumeration"
  | .selectableSets | .selector => "selected set"
  | .setOperationSide | .setOperationTarget => "set operation"
  | .elementsOf | .elementsBound => "set elements"
  | .relationSubject | .integerSides | .setSides | .sameShape => "relation"
  | .truthSubject true => "be_true"
  | .truthSubject false => "be_false"
  | .distinctItems => "distinct"
  | .sortedItems => "sorted"
  | .tableItems => "in_tuples"
  | .channelSides => "channel"
  | .resultKind connective => connective.name

def expected : Demand → String
  | .logicSide _ => "bool operands"
  | .logicItems _ => "bool enum"
  | .aggregateItems _ | .countItems | .distinctItems | .sortedItems => "int enum"
  | .countItem => "int value"
  | .indexableItems => "bool or int enum"
  | .indexable => "bool or int enum, or constant ints"
  | .elementIndex => "int index"
  | .uniformItems => "elements of one kind"
  | .selectableSets => "set enum"
  | .selector => "set selector"
  | .setOperationSide | .setSides => "set operands"
  | .setOperationTarget | .elementsOf => "set operand"
  | .elementsBound => "int operand"
  | .relationSubject => "bool, int or set operand"
  | .integerSides => "int operands"
  | .sameShape => "right-hand side of the same kind"
  | .truthSubject _ => "bool operand"
  | .tableItems => "int or bool enum"
  | .channelSides => "bool enum with int or set, int enum with int or set enum"
  | .resultKind _ => "result of the expression's kind"

end Demand

inductive OptionFault where
  /-- The declaration has no offset. -/
  | offset
  | setOperationOffset
  /-- A target must be a truth value. -/
  | targetShape (found : Shape)
  | constantTarget
  /-- A relation that does not compare integers was asked of the elements of a set. -/
  | notArithmetic (relation : Relation)
  /-- A row does not have one entry per variable. -/
  | rowLength (found expected : Nat)
deriving DecidableEq

namespace OptionFault

def option : OptionFault → String
  | .offset | .setOperationOffset => "offset"
  | .targetShape _ | .constantTarget => "reify"
  | .notArithmetic _ => "relation"
  | .rowLength _ _ => "tuples"

def reason : OptionFault → String
  | .offset => "only the bool enum / int channel takes an offset"
  | .setOperationOffset => "set operations take no offset"
  | .targetShape found => s!"expected a bool variable or expression, got {found.text}"
  | .constantTarget => "a constant cannot be a reification target"
  | .notArithmetic relation => s!"{relation.code} does not compare integers"
  | .rowLength found expected => s!"tuple of length {found} for {expected} variables"

end OptionFault

/-- Something an expression was asked for and cannot give. -/
inductive Capability where
  | variable
  /-- The expression is a composite without a variable of its own. -/
  | definedVariable
  | enumeration
  | value
  /-- The solution does not reach the expression's variable. -/
  | solvedValue
  /-- Being constrained by a declaration. -/
  | constraints
deriving DecidableEq

namespace Capability

def text : Capability → String
  | .variable => "variable"
  | .definedVariable => "variable (expression not materialized)"
  | .enumeration => "enumeration"
  | .value => "value"
  | .solvedValue => "value (variable not in solution)"
  | .constraints => "constraint receiver"

end Capability

/-- Why an expression was not built, a declaration not made, or a posting not recorded. -/
inductive Error where
  | kindMismatch (demand : Demand) (found : Shape)
  | unsupportedNegation (primitive : Primitive)
  | unsupportedReification (primitive : Primitive)
  | invalidOption (fault : OptionFault)
  | unsupportedCapability (shape : Shape) (capability : Capability)
  | rejected (rejection : Rejection)
deriving DecidableEq

namespace Error

def message : Error → String
  | .kindMismatch demand found =>
      s!"kind mismatch in {demand.context}: expected {demand.expected}, found {found.text}"
  | .unsupportedNegation primitive => s!"negated {primitive.name} constraint is not supported"
  | .unsupportedReification primitive =>
      s!"{primitive.name} constraint does not support reification"
  | .invalidOption fault => s!"invalid option `{fault.option}`: {fault.reason}"
  | .unsupportedCapability shape capability =>
      s!"{shape.text} operand does not provide `{capability.text}`"
  | .rejected rejection => rejection.message

end Error

end ConstraintCompiler
