import ConstraintCompiler.Posting.Verdict
import Mathlib.Data.Set.Basic

/-!
Contract: what a relation says of two integers, and of two sets.

Owns:
- `IntSet.toSet`, the integers in a set, whatever lists them, and `IntSet.positionsBelow`, those of
  them that are positions of an array;
- `Relation.HoldsOfIntegers` and `Relation.HoldsOfSets`, the meaning of a relation, which its
  computed truth agrees with;
- `Posting.exists_comparison_of_integers` and `Posting.exists_comparison_of_sets`, that a posting
  compares two sides according to that meaning.
-/

namespace ConstraintCompiler

def IntSet.toSet (set : IntSet) : Set Int := {element | element ∈ set}

@[simp] theorem IntSet.mem_toSet {set : IntSet} {element : Int} :
    element ∈ set.toSet ↔ element ∈ set := Iff.rfl

theorem IntSet.toSet_injective {left right : IntSet} (same : left.toSet = right.toSet) :
    left = right :=
  IntSet.ext_of_mem fun element => Set.ext_iff.mp same element

def IntSet.positionsBelow (count : Nat) (set : IntSet) : Set (Fin count) :=
  {position | ((position : Nat) : Int) ∈ set}

namespace Relation

/-- The relation holds of two integers; a relation of sets alone holds of none. -/
def HoldsOfIntegers (relation : Relation) (left right : Int) : Prop :=
  match relation with
  | .eq => left = right
  | .ne => left ≠ right
  | .lt => left < right
  | .le => left ≤ right
  | .gt => right < left
  | .ge => right ≤ left
  | .subset | .superset | .disjoint => False

theorem compare_eq_true_iff {relation : Relation} {left right : Int} :
    relation.compare left right = true ↔ relation.HoldsOfIntegers left right := by
  cases relation <;> simp [compare, HoldsOfIntegers]

def HoldsOfSets (relation : Relation) (left right : Set Int) : Prop :=
  match relation with
  | .eq => left = right
  | .ne => left ≠ right
  | .subset => left ⊆ right
  | .superset => right ⊆ left
  | .disjoint => left ∩ right = ∅
  | .lt | .le | .gt | .ge => False

theorem compareSets_eq_true_iff {relation : Relation} {left right : IntSet} :
    relation.compareSets left right = true ↔ relation.HoldsOfSets left.toSet right.toSet := by
  have equal : left = right ↔ left.toSet = right.toSet :=
    ⟨fun same => same ▸ rfl, IntSet.toSet_injective⟩
  cases relation with
  | eq | ne => simp [compareSets, HoldsOfSets, equal]
  | subset | superset => exact IntSet.isSubset_iff _ _
  | disjoint =>
      rw [compareSets, IntSet.isDisjoint_iff, HoldsOfSets, Set.eq_empty_iff_forall_notMem]
      simp only [Set.mem_inter_iff, IntSet.mem_toSet, not_and]
  | lt | le | gt | ge => simp [compareSets, HoldsOfSets]

end Relation

namespace Posting

variable {posting : Posting} {relation : Relation} (given : posting.relation = some relation)

include given

theorem exists_comparison_of_integers (arithmetic : relation.isArithmetic = true)
    (left right : Int) :
    ∃ truth, posting.compareSides? (some (.int left)) (some (.int right)) = some truth ∧
      (truth = true ↔ relation.HoldsOfIntegers left right) := by
  refine ⟨relation.compare left right, ?_, Relation.compare_eq_true_iff⟩
  simp [compareSides?, given, Relation.between?, arithmetic]

theorem exists_comparison_of_sets (comparesSets : relation.comparesSets = true)
    (left right : IntSet) :
    ∃ truth, posting.compareSides? (some (.set left)) (some (.set right)) = some truth ∧
      (truth = true ↔ relation.HoldsOfSets left.toSet right.toSet) := by
  refine ⟨relation.compareSets left right, ?_, Relation.compareSets_eq_true_iff⟩
  simp [compareSides?, given, Relation.between?, comparesSets]

end Posting

end ConstraintCompiler
