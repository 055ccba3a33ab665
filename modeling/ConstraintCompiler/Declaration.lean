import ConstraintCompiler.Expression.Build

/-!
Contract: declarations, the constraints a user states about expressions.

Owns:
- `Options`, what may accompany a declaration, and how later options override earlier ones;
- `Statement`, everything that can be stated, and `Declaration`, a statement with its polarity and
  options.

Does not own: which declarations are admissible, or what becomes of them.
-/

namespace ConstraintCompiler

/-- What accompanies a declaration. The target receives the truth of the statement, which is then
not required to hold. -/
structure Options where
  strength : Option Strength := none
  target : Option Expression := none
  offset : Option Int := none
  priority : Option Priority := none

namespace Options

/-- The later options, and the earlier ones where the later leave something open. -/
def override (earlier later : Options) : Options where
  strength := later.strength.or earlier.strength
  target := later.target.or earlier.target
  offset := later.offset.or earlier.offset
  priority := later.priority.or earlier.priority

def defaultStrength : Strength := .domain

def resolvedStrength (options : Options) : Strength := options.strength.getD defaultStrength

theorem override_empty (options : Options) : options.override {} = options := by
  simp [override]

theorem empty_override (options : Options) : ({} : Options).override options = options := by
  simp [override]

/-- Overriding in steps is overriding once by the combined options. -/
theorem override_assoc (first second third : Options) :
    (first.override second).override third = first.override (second.override third) := by
  simp [override, Option.or_assoc]

end Options

inductive SetComparison where
  | equal
  | subset
  | superset
  | disjoint
deriving DecidableEq

namespace SetComparison

def relation : SetComparison → Relation
  | .equal => .eq
  | .subset => .subset
  | .superset => .superset
  | .disjoint => .disjoint

end SetComparison

inductive Statement where
  /-- Two values of one kind stand in a relation. -/
  | relate (left : Expression) (relation : Relation) (right : Expression)
  /-- A truth value is the expected one. -/
  | truth (subject : Expression) (expected : Bool)
  /-- All items of an array of integers differ. -/
  | distinct (subject : Expression)
  /-- The items of an array of integers ascend. -/
  | sorted (subject : Expression)
  /-- The items of an array are one of the rows. -/
  | table (subject : Expression) (rows : List (List Int))
  /-- Two views of one choice agree. -/
  | channel (left right : Expression)
  /-- The result of a set operation compares with a set. -/
  | setOperation (operation : SetOperation) (comparison : SetComparison) (result : Expression)
  /-- Every element of a set stands in a relation to an integer. -/
  | setElements (elements : SetElements) (relation : Relation) (bound : Expression)

structure Declaration where
  statement : Statement
  negated : Bool := false
  options : Options := {}

end ConstraintCompiler
