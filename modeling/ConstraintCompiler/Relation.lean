import ConstraintCompiler.Value

/-!
Contract: binary relations between two values of one kind.

Owns:
- which relations each kind of value has;
- `Relation.between?`, the truth of a relation, undecided for values the relation does not fit.
-/

namespace ConstraintCompiler

inductive Relation where
  | eq
  | ne
  | lt
  | le
  | gt
  | ge
  | subset
  | superset
  | disjoint
deriving DecidableEq

namespace Relation

/-- Two-letter code or capitalised name. -/
def code : Relation → String
  | .eq => "Eq"
  | .ne => "Nq"
  | .lt => "Lt"
  | .le => "Le"
  | .gt => "Gt"
  | .ge => "Ge"
  | .subset => "Subset"
  | .superset => "Superset"
  | .disjoint => "Disjoint"

def isArithmetic : Relation → Bool
  | .eq | .ne | .lt | .le | .gt | .ge => true
  | .subset | .superset | .disjoint => false

def comparesSets : Relation → Bool
  | .eq | .ne | .subset | .superset | .disjoint => true
  | .lt | .le | .gt | .ge => false

def fits (relation : Relation) : Kind → Bool
  | .bool => relation == .eq || relation == .ne
  | .int => relation.isArithmetic
  | .set => relation.comparesSets

/-- Truth of the relation between integers; a relation of sets alone relates no integers. -/
def compare (relation : Relation) (left right : Int) : Bool :=
  match relation with
  | .eq => left == right
  | .ne => left != right
  | .lt => left < right
  | .le => left ≤ right
  | .gt => left > right
  | .ge => left ≥ right
  | .subset | .superset | .disjoint => false

/-- Truth of the relation between sets; an ordering of integers relates no sets. -/
def compareSets (relation : Relation) (left right : IntSet) : Bool :=
  match relation with
  | .eq => left == right
  | .ne => left != right
  | .subset => left.isSubset right
  | .superset => right.isSubset left
  | .disjoint => left.isDisjoint right
  | .lt | .le | .gt | .ge => false

/-- Truth of the relation between two values, or none when the kinds differ or the relation has
no meaning on their kind. -/
def between? (relation : Relation) : Value → Value → Option Bool
  | .bool left, .bool right =>
      match relation with
      | .eq => some (left == right)
      | .ne => some (left != right)
      | _ => none
  | .int left, .int right =>
      if relation.isArithmetic then some (relation.compare left right) else none
  | .set left, .set right =>
      if relation.comparesSets then some (relation.compareSets left right) else none
  | _, _ => none

/-- A relation decides two values exactly when they are of one kind that it fits. -/
theorem between?_isSome_iff (relation : Relation) (left right : Value) :
    (relation.between? left right).isSome = true ↔
      left.kind = right.kind ∧ relation.fits left.kind = true := by
  cases left <;> cases right <;> cases relation <;>
    simp [between?, fits, Value.kind, isArithmetic, comparesSets]

/-- Equality decides by comparing the values. -/
theorem between?_eq {left right : Value} (kinds : left.kind = right.kind) :
    eq.between? left right = some (decide (left = right)) := by
  cases left <;> cases right <;> simp only [Value.kind, reduceCtorEq] at kinds
  all_goals
    simp only [between?, isArithmetic, comparesSets, compare, compareSets, if_true,
      Option.some.injEq]
    rw [Bool.eq_iff_iff]
    simp only [beq_iff_eq, decide_eq_true_eq, Value.bool.injEq, Value.int.injEq, Value.set.injEq]

end Relation

end ConstraintCompiler
