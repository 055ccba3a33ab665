import ConstraintCompiler.Channel
import ConstraintCompiler.Posting

/-!
Contract: the truth of a posting under a partial assignment.

Owns:
- `Assignment`, which variables have which values;
- `Posting.condition?`, what the primitive says before negation and reification;
- `Posting.verdict`, true, false, or undecided.

A verdict is undecided when a value it reads is missing or does not fit the primitive. A primitive
whose left side has no value (an extremum of nothing, a sum out of range, a position outside an
array, a disjoint union of overlapping sets) is false under every relation.
-/

namespace ConstraintCompiler

/-- Value of each variable identifier, where it has one. -/
abbrev Assignment := Nat → Option Value

namespace Argument

def scalar? (assignment : Assignment) : Argument → Option Value
  | .var v => assignment v.id
  | .bool truth => some (.bool truth)
  | .int number => some (.int number)
  | .set members => some (.set members)
  | .vars _ | .ints _ | .tuples _ => none

def array? (assignment : Assignment) : Argument → Option (List Value)
  | .vars vs => vs.mapM fun v => assignment v.id
  | .ints numbers => some (numbers.map Value.int)
  | _ => none

def constant? : Argument → Option Int
  | .int number => some number
  | _ => none

def rows? : Argument → Option (List (List Int))
  | .tuples rows => some rows
  | _ => none

end Argument

def allDistinct (items : List Int) : Bool := (IntSet.ofList items).size == items.length

def isSorted : List Int → Bool
  | first :: second :: rest => first ≤ second && isSorted (second :: rest)
  | _ => true

namespace Posting

section Reading

variable (posting : Posting) (assignment : Assignment) (position : Nat)

def scalarAt? : Option Value := do (← posting.arguments[position]?).scalar? assignment

def intAt? : Option Int := do (← posting.scalarAt? assignment position).asInt?

def setAt? : Option IntSet := do (← posting.scalarAt? assignment position).asSet?

def arrayAt? : Option (List Value) := do (← posting.arguments[position]?).array? assignment

def boolsAt? : Option (List Bool) := do
  (← posting.arrayAt? assignment position).mapM Value.asBool?

def intsAt? : Option (List Int) := do
  (← posting.arrayAt? assignment position).mapM Value.asInt?

def setsAt? : Option (List IntSet) := do
  (← posting.arrayAt? assignment position).mapM Value.asSet?

end Reading

/-- Compare a left side with a right side by the posting's relation. Without a left side the
comparison is false, whatever the relation and the right side. -/
def compareSides? (posting : Posting) (left right : Option Value) : Option Bool :=
  match left with
  | none => some false
  | some left => do (← posting.relation).between? left (← right)

/-- Operands and result of a logical primitive. The result comes last, or third when there are
exactly two operands. -/
def logicSides (operator : LogicOperator) (arguments : List Argument) :
    List Argument × Option Argument :=
  if operator.flattens then (arguments.dropLast, arguments.getLast?)
  else (arguments.take 2, arguments[2]?)

def logicCondition? (operator : LogicOperator) (posting : Posting) (assignment : Assignment) :
    Option Bool := do
  let (operands, result) := logicSides operator posting.arguments
  let result ← (← (← result).scalar? assignment).asBool?
  let operands ← operands.mapM fun operand => do (← operand.scalar? assignment).asBool?
  return (← operator.eval? operands) == result

/-- Whether the value that a connective gives to the leading arguments stands in the posting's
relation to the last one. -/
def definingCondition? (posting : Posting) (assignment : Assignment) :
    Connective → Option Bool
  | .logic operator => logicCondition? operator posting assignment
  | .aggregate aggregate => do
      let items ← posting.intsAt? assignment 0
      let result ← posting.scalarAt? assignment 1
      posting.compareSides? ((aggregate.eval? items).map .int) (some result)
  | .element => do
      let items ← posting.arrayAt? assignment 0
      let index ← posting.intAt? assignment 1
      let result ← posting.scalarAt? assignment 2
      posting.compareSides? (itemAt? items index) (some result)
  | .count => do
      let items ← posting.intsAt? assignment 0
      let item ← posting.intAt? assignment 1
      let result ← posting.scalarAt? assignment 2
      posting.compareSides? (some (.int (items.count item))) (some result)
  | .selection selection => do
      let sets ← posting.setsAt? assignment 0
      let selector ← posting.setAt? assignment 1
      posting.compareSides? ((selection.eval? sets selector).map .set)
        (posting.scalarAt? assignment 2)

def channelCondition? (posting : Posting) (assignment : Assignment) : ChannelForm → Option Bool
  | .boolInt => do
      let flags ← posting.boolsAt? assignment 0
      let number ← posting.intAt? assignment 1
      let offset ← (← posting.arguments[2]?).constant?
      return Channel.boolInt flags number offset
  | .boolSet => do
      return Channel.boolSet (← posting.boolsAt? assignment 0) (← posting.setAt? assignment 1)
  | .intInt => do
      return Channel.intInt (← posting.intsAt? assignment 0) (← posting.intsAt? assignment 1)
  | .intSet => do
      return Channel.intSet (← posting.intsAt? assignment 0) (← posting.setsAt? assignment 1)

/-- Truth of the primitive on its arguments, before negation and reification. -/
def condition? (posting : Posting) (assignment : Assignment) : Option Bool :=
  match posting.primitive with
  | .defining connective => posting.definingCondition? assignment connective
  | .relation => do
      (← posting.relation).between? (← posting.scalarAt? assignment 0)
        (← posting.scalarAt? assignment 1)
  | .distinct => do return allDistinct (← posting.intsAt? assignment 0)
  | .sorted => do return isSorted (← posting.intsAt? assignment 0)
  | .table => do
      let codes ← (← posting.arrayAt? assignment 0).mapM Value.code?
      return (← (← posting.arguments[1]?).rows?).contains codes
  | .channel form => posting.channelCondition? assignment form
  | .setOperation operator => do
      let left ← posting.setAt? assignment 0
      let right ← posting.setAt? assignment 1
      posting.compareSides? ((operator.eval? left right).map .set) (posting.scalarAt? assignment 2)
  | .setElements => do
      let relation ← posting.relation
      guard relation.isArithmetic
      let bound ← posting.intAt? assignment 1
      return (← posting.setAt? assignment 0).elements.all fun element =>
        relation.compare element bound

/-- Truth of the posting: its condition, inverted when negated, and compared with the target's
truth value when there is a target. -/
def verdict (posting : Posting) (assignment : Assignment) : Option Bool := do
  let states := (← posting.condition? assignment) ^^ posting.negated
  match posting.target with
  | none => return states
  | some target => return (← (← assignment target.id).asBool?) == states

end Posting

end ConstraintCompiler
