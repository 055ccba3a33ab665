import ConstraintCompiler.Connective

/-!
Contract: the primitive constraints that a problem is made of.

Owns:
- the primitives and their parameters;
- their two names, and which of them have a negated, a reified or a relational form.

Does not own: arguments, or the truth of a primitive.
-/

namespace ConstraintCompiler

inductive ChannelForm where
  | boolInt
  | boolSet
  | intInt
  | intSet
deriving DecidableEq

namespace ChannelForm

def tag : ChannelForm → String
  | .boolInt => "BoolInt"
  | .boolSet => "BoolSet"
  | .intInt => "IntInt"
  | .intSet => "IntSet"

end ChannelForm

inductive SetOperator where
  | union
  | disjointUnion
  | intersection
  | minus
deriving DecidableEq

namespace SetOperator

def tag : SetOperator → String
  | .union => "Union"
  | .disjointUnion => "DisjointUnion"
  | .intersection => "Intersection"
  | .minus => "Minus"

/-- Result of the operation; sets that share an element have no disjoint union. -/
def eval? : SetOperator → IntSet → IntSet → Option IntSet
  | .union, left, right => some (left.union right)
  | .disjointUnion, left, right =>
      if left.isDisjoint right then some (left.union right) else none
  | .intersection, left, right => some (left.intersection right)
  | .minus, left, right => some (left.difference right)

end SetOperator

/-- A primitive either compares the value that a connective gives to its leading arguments with its
last argument, or states a condition of its own. -/
inductive Primitive where
  | defining (connective : Connective)
  | relation
  | distinct
  | sorted
  | table
  | channel (form : ChannelForm)
  | setOperation (operator : SetOperator)
  | setElements
deriving DecidableEq

namespace Primitive

/-- Name in prose, as refusals and log lines use it. -/
def name : Primitive → String
  | .defining (.logic .and) => "conjunction"
  | .defining (.logic .or) => "disjunction"
  | .defining (.logic .xor) => "exclusive or"
  | .defining (.logic .implies) => "implication"
  | .defining (.aggregate .sum) => "linear"
  | .defining (.aggregate .max) => "maximum"
  | .defining (.aggregate .min) => "minimum"
  | .defining .element => "element"
  | .defining .count => "count"
  | .defining (.selection .union) => "selected union"
  | .defining (.selection .intersection) => "selected intersection"
  | .relation => "relation"
  | .distinct => "distinct"
  | .sorted => "sorted"
  | .table => "tuple"
  | .channel _ => "channel"
  | .setOperation _ => "set operation"
  | .setElements => "set elements"

/-- Identifier of the primitive, with its parameter in parentheses. -/
def tag : Primitive → String
  | .defining (.logic .and) => "BoolAnd"
  | .defining (.logic .or) => "BoolOr"
  | .defining (.logic .xor) => "BoolXor"
  | .defining (.logic .implies) => "BoolImp"
  | .defining (.aggregate .sum) => "Linear"
  | .defining (.aggregate .max) => "Max"
  | .defining (.aggregate .min) => "Min"
  | .defining .element => "Element"
  | .defining .count => "Count"
  | .defining (.selection .union) => "SelectedUnion"
  | .defining (.selection .intersection) => "SelectedIntersection"
  | .relation => "Rel"
  | .distinct => "Distinct"
  | .sorted => "Sorted"
  | .table => "Extensional"
  | .channel form => s!"Channel({form.tag})"
  | .setOperation operator => s!"SetOp({operator.tag})"
  | .setElements => "SetElements"

def supportsNegation : Primitive → Bool
  | .distinct | .table | .channel _ | .setOperation _ => false
  | _ => true

/-- The truth of the primitive can be bound to a variable; the same primitives that can be
negated can be bound. -/
def supportsReification (primitive : Primitive) : Bool := primitive.supportsNegation

def needsRelation : Primitive → Bool
  | .defining (.logic _) => false
  | .defining _ | .relation | .setOperation _ | .setElements => true
  | .distinct | .sorted | .table | .channel _ => false

end Primitive

end ConstraintCompiler
