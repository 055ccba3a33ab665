import ConstraintCompiler.Primitive
import ConstraintCompiler.Relation

/-!
Contract: postings, the only thing a compiled model consists of beside its variables.

Owns:
- `Argument`, one argument of a primitive, and the variables it mentions;
- `Posting`, a primitive with its arguments and annotations.

Does not own: whether a posting is well shaped, or when it is true.
-/

namespace ConstraintCompiler

inductive Argument where
  | var (v : Variable)
  | vars (vs : List Variable)
  | bool (truth : Bool)
  | int (number : Int)
  | set (members : IntSet)
  | ints (numbers : List Int)
  | tuples (rows : List (List Int))
deriving DecidableEq

namespace Argument

/-- Kind of the single value an argument stands for; arrays and tables stand for none. -/
def scalarKind? : Argument → Option Kind
  | .var v => some v.kind
  | .bool _ => some .bool
  | .int _ => some .int
  | .set _ => some .set
  | .vars _ | .ints _ | .tuples _ => none

/-- Variables in the argument, in order and with repetitions. -/
def mentions : Argument → List Variable
  | .var v => [v]
  | .vars vs => vs
  | _ => []

def asVariable? : Argument → Option Variable
  | .var v => some v
  | _ => none

def isScalar (kind : Kind) (argument : Argument) : Bool := argument.scalarKind? == some kind

def isArrayOf (kind : Kind) : Argument → Bool
  | .vars vs => vs.all fun v => v.kind == kind
  | _ => false

end Argument

/-- How strongly a solver should propagate a posting. It has no effect on what is true. -/
inductive Strength where
  | default
  | bounds
  | domain
  | value
deriving DecidableEq

/-- What a solver should save when it propagates a posting. It has no effect on what is true. -/
inductive Priority where
  | speed
  | memory
deriving DecidableEq

/-- A primitive constraint on its arguments. A negated posting states the opposite, and one with a
target makes the target equal to the truth of the statement instead of stating it. -/
structure Posting where
  primitive : Primitive
  arguments : List Argument
  relation : Option Relation := none
  negated : Bool := false
  strength : Strength := .default
  target : Option Variable := none
  priority : Option Priority := none
deriving DecidableEq

namespace Posting

/-- Variables of the arguments in order, then the target. -/
def mentions (posting : Posting) : List Variable :=
  posting.arguments.flatMap Argument.mentions ++ posting.target.toList

def lastMention? (posting : Posting) : Option Nat :=
  (posting.mentions.map Variable.id).max?

end Posting

end ConstraintCompiler
