import ConstraintCompiler.Declaration.Plan
import ConstraintCompiler.Expression.Evaluation

/-!
Contract: the truth of a declaration, read off the expressions in it.

Owns `Declaration.isTrue`, which evaluates every side of the statement directly. A statement about
an expression without a value is false, so its denial is true. A channel to an integer reads its
offset from the options.
-/

namespace ConstraintCompiler

namespace Statement

/-- Truth of a channel between two expressions whose shapes determine its form. -/
def channelHolds? (assignment : Assignment) (offset : Int) (left right : Expression) :
    Option Bool := do
  let (form, swapped) ← channelForm? left.shape right.shape
  let (items, other) := if swapped then (right, left) else (left, right)
  match form with
  | .boolInt => do
      let flags ← (← items.array? assignment).mapM Value.asBool?
      return Channel.boolInt flags (← (← other.value? assignment).asInt?) offset
  | .boolSet => do
      let flags ← (← items.array? assignment).mapM Value.asBool?
      return Channel.boolSet flags (← (← other.value? assignment).asSet?)
  | .intInt => return Channel.intInt (← items.ints? assignment) (← other.ints? assignment)
  | .intSet => return Channel.intSet (← items.ints? assignment) (← other.sets? assignment)

/-- Truth of a statement, where all its sides have values. -/
def holds? (assignment : Assignment) (offset : Int) : Statement → Option Bool
  | .relate left relation right => do
      relation.between? (← left.value? assignment) (← right.value? assignment)
  | .truth subject expected => return (← (← subject.value? assignment).asBool?) == expected
  | .distinct subject => return allDistinct (← subject.ints? assignment)
  | .sorted subject => return isSorted (← subject.ints? assignment)
  | .table subject rows => do
      return rows.contains (← (← subject.array? assignment).mapM Value.code?)
  | .channel left right => channelHolds? assignment offset left right
  | .setOperation operation comparison result => do
      let left ← (← operation.left.value? assignment).asSet?
      let right ← (← operation.right.value? assignment).asSet?
      comparison.relation.between? (.set (← operation.operator.eval? left right))
        (← result.value? assignment)
  | .setElements elements relation bound => do
      let members ← (← elements.set.value? assignment).asSet?
      let bound ← (← bound.value? assignment).asInt?
      return members.elements.all fun element => relation.compare element bound

end Statement

namespace Declaration

def assertion (declaration : Declaration) (assignment : Assignment) : Bool :=
  ((declaration.statement.holds? assignment (declaration.options.offset.getD 0)).getD false) ^^
    declaration.negated

/-- The assertion holds, or, where the declaration has a target, the target has a value that says
whether it does. -/
def isTrue (declaration : Declaration) (assignment : Assignment) : Bool :=
  match declaration.options.target with
  | none => declaration.assertion assignment
  | some target =>
      target.value? assignment == some (.bool (declaration.assertion assignment))

end Declaration

end ConstraintCompiler
