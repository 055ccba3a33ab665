import ConstraintCompiler.IntSet
import ConstraintCompiler.Representable

/-!
Contract: the connectives of composite expressions and the values they build.

Owns:
- the connectives, grouped by what they connect;
- each connective's function on plain values, with `none` where it has no value.

Does not own: expressions, or the primitive constraint that defines a connective's value.
-/

namespace ConstraintCompiler

inductive LogicOperator where
  | and
  | or
  | xor
  | implies
deriving DecidableEq

namespace LogicOperator

def name : LogicOperator → String
  | .and => "and"
  | .or => "or"
  | .xor => "xor"
  | .implies => "implies"

/-- The operator joins any number of truth values, and a nested occurrence joins the same ones
as its operands would in its place. -/
def flattens : LogicOperator → Bool
  | .and | .or => true
  | .xor | .implies => false

/-- Truth value of the joined operands. The two operators that do not flatten join exactly two. -/
def eval? : LogicOperator → List Bool → Option Bool
  | .and, operands => some (operands.all id)
  | .or, operands => some (operands.any id)
  | .xor, [left, right] => some (left ^^ right)
  | .implies, [left, right] => some (!left || right)
  | _, _ => none

end LogicOperator

inductive Aggregate where
  | sum
  | max
  | min
deriving DecidableEq

namespace Aggregate

def name : Aggregate → String
  | .sum => "sum"
  | .max => "max"
  | .min => "min"

/-- Integer made of the items. A sum is formed from the left and has no value once a partial sum
is not representable; an extremum of nothing has no value. -/
def eval? : Aggregate → List Int → Option Int
  | .sum, items => items.foldlM add? 0
  | .max, items => items.max?
  | .min, items => items.min?

end Aggregate

/-- Connectives that make one set of those members of an array of sets that a selector lists. -/
inductive Selection where
  | union
  | intersection
deriving DecidableEq

namespace Selection

def name : Selection → String
  | .union => "selected union"
  | .intersection => "selected intersection"

end Selection

/-- Item at a position counted from zero; a negative position or one past the end has none. -/
def itemAt? {α : Type} (items : List α) (position : Int) : Option α :=
  if position < 0 then none else items[position.toNat]?

namespace Selection

/-- Elements of the first set that all the others share; the intersection of no sets is empty. -/
def common : List IntSet → IntSet
  | [] => ∅
  | first :: others => first.filter fun element => others.all fun set => element ∈ set

/-- Set made of the selected members. It has no value when the selector lists a position that the
array does not have. -/
def eval? (selection : Selection) (sets : List IntSet) (selector : IntSet) : Option IntSet :=
  (selector.elements.mapM (itemAt? sets)).map fun selected =>
    match selection with
    | .union => selected.foldr IntSet.union ∅
    | .intersection => common selected

end Selection

/-- What joins the operands of a composite expression. -/
inductive Connective where
  | logic (operator : LogicOperator)
  | aggregate (function : Aggregate)
  | element
  | count
  | selection (function : Selection)
deriving DecidableEq

namespace Connective

def name : Connective → String
  | .logic operator => operator.name
  | .aggregate function => function.name
  | .element => "element"
  | .count => "count"
  | .selection function => function.name

def flattens : Connective → Bool
  | .logic operator => operator.flattens
  | _ => false

end Connective

end ConstraintCompiler
