import ConstraintCompiler.Posting

/-!
Contract: which argument lists fit which primitive.

Owns `Posting.isWellShaped`, decided from the kinds in the arguments alone. Whether the variables
are known, and which annotations are allowed, is for the problem that records the posting.
-/

namespace ConstraintCompiler.Posting

/-- Arguments of a channel: the array first, then the other side, then the offset that only a
channel to an integer takes. -/
def fitsChannel : ChannelForm → List Argument → Bool
  | .boolInt, [flags, position, .int _] => flags.isArrayOf .bool && position.isScalar .int
  | .boolSet, [flags, members] => flags.isArrayOf .bool && members.isScalar .set
  | .intInt, [left, right] => left.isArrayOf .int && right.isArrayOf .int
  | .intSet, [items, sets] => items.isArrayOf .int && sets.isArrayOf .set
  | _, _ => false

/-- Arguments of an element constraint: the result has the kind of the array's items, so an empty
array of variables leaves it open. -/
def fitsElement : Argument → Argument → Argument → Bool
  | .vars vs, index, result =>
      index.isScalar .int && vs.all fun v => some v.kind == result.scalarKind?
  | .ints _, index, result => index.isScalar .int && result.isScalar .int
  | _, _, _ => false

def fitsConnective : Connective → List Argument → Bool
  | .logic operator, arguments =>
      arguments.all (·.isScalar .bool) &&
        if operator.flattens then !arguments.isEmpty else arguments.length == 3
  | .aggregate _, [items, result] => items.isArrayOf .int && result.isScalar .int
  | .element, [items, index, result] => fitsElement items index result
  | .count, [items, item, result] =>
      items.isArrayOf .int && item.isScalar .int && result.isScalar .int
  | .selection _, [sets, selector, result] =>
      sets.isArrayOf .set && selector.isScalar .set && result.isScalar .set
  | _, _ => false

/-- The arguments have the number and the kinds that the primitive works on. -/
def isWellShaped (posting : Posting) : Bool :=
  match posting.primitive, posting.arguments with
  | .defining connective, arguments => fitsConnective connective arguments
  | .relation, [left, right] =>
      left.scalarKind?.isSome && left.scalarKind? == right.scalarKind?
  | .distinct, [items] => items.isArrayOf .int
  | .sorted, [items] => items.isArrayOf .int
  | .table, [.vars vs, .tuples rows] => rows.all fun row => row.length == vs.length
  | .channel form, arguments => fitsChannel form arguments
  | .setOperation _, [left, right, result] =>
      left.isScalar .set && right.isScalar .set && result.isScalar .set
  | .setElements, [members, bound] => members.isScalar .set && bound.isScalar .int
  | _, _ => false

end ConstraintCompiler.Posting
