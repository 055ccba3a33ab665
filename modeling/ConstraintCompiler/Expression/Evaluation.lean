import ConstraintCompiler.Expression
import ConstraintCompiler.Posting.Verdict

/-!
Contract: the value of an expression, read off its tree.

Owns `Expression.value?` and `Expression.array?`, which evaluate the tree directly under an
assignment of its variables. Labels, added variables and postings play no part in them, so they say
what a compiled model must agree with.

An expression has no value when a variable in it has none, or when one of its connectives has none
for its operands.
-/

namespace ConstraintCompiler.Expression

def array? (assignment : Assignment) : Expression → Option (List Value)
  | .array items => items.elements.mapM fun v => assignment v.id
  | .constant (.ints numbers) => some (numbers.map .int)
  | _ => none

def ints? (assignment : Assignment) (items : Expression) : Option (List Int) := do
  (← items.array? assignment).mapM Value.asInt?

def sets? (assignment : Assignment) (items : Expression) : Option (List IntSet) := do
  (← items.array? assignment).mapM Value.asSet?

mutual

/-- Value of an expression that stands for a single one. -/
def value? (assignment : Assignment) : Expression → Option Value
  | .variable v => assignment v.id
  | .array _ => none
  | .constant literal => literal.value?
  | .composite _ (.logic operator) operands _ => do
      return .bool (← operator.eval? (← bools? assignment operands))
  | .composite _ (.aggregate function) [items] _ => do
      return .int (← function.eval? (← items.ints? assignment))
  | .composite _ .element [items, index] _ => do
      itemAt? (← items.array? assignment) (← (← value? assignment index).asInt?)
  | .composite _ .count [items, item] _ => do
      let numbers ← items.ints? assignment
      return .int (numbers.count (← (← value? assignment item).asInt?))
  | .composite _ (.selection function) [sets, selector] _ => do
      let members ← sets.sets? assignment
      return .set (← function.eval? members (← (← value? assignment selector).asSet?))
  | .composite _ _ _ _ => none

/-- Truth values of expressions, all of which must be truth values. -/
def bools? (assignment : Assignment) : List Expression → Option (List Bool)
  | [] => some []
  | expression :: rest => do
      let truth ← (← value? assignment expression).asBool?
      return truth :: (← bools? assignment rest)

end

end ConstraintCompiler.Expression
