import ConstraintCompiler.IntSet
import ConstraintCompiler.Representable

/-!
Contract: the conditions that channels state, on plain values.

Positions are counted from zero. Each condition is an equivalence demanded at every position, or
at every pair of positions, of the arrays it is given.
-/

namespace ConstraintCompiler.Channel

/-- The flag at a position is set exactly when the position plus the offset is the given integer.
A sum that is not representable equals no integer. -/
def boolInt (flags : List Bool) (number offset : Int) : Bool :=
  flags.zipIdx.all fun (flag, position) => flag == (add? position offset == some number)

def boolSet (flags : List Bool) (members : IntSet) : Bool :=
  flags.zipIdx.all fun (flag, position) => flag == decide ((position : Int) ∈ members)

/-- The left array holds a right position exactly when the right array holds, there, the position
on the left. -/
def intInt (left right : List Int) : Bool :=
  left.zipIdx.all fun (number, position) =>
    right.zipIdx.all fun (otherNumber, otherPosition) =>
      (number == otherPosition) == (otherNumber == position)

def intSet (items : List Int) (sets : List IntSet) : Bool :=
  items.zipIdx.all fun (number, position) =>
    sets.zipIdx.all fun (members, setPosition) =>
      (number == setPosition) == decide ((position : Int) ∈ members)

end ConstraintCompiler.Channel
