import ConstraintCompiler.Proofs.EarlyVerdicts
import ConstraintCompiler.Proofs.Relations

/-!
Contract: what a selection makes of an array of sets.

Owns:
- `Selection.members`, the elements of the sets at the selected positions, in terms of the array and
  the selector alone, which the computed set lists;
- that a selection of two sets is an operation on them, and what a smaller selector makes of the
  same array;
- `Posting.selections_exact`: a posting compares its last argument with that set, and is false when
  a selected position does not exist.

Does not own: the operations on two sets that no selection corresponds to.
-/

namespace ConstraintCompiler

theorem itemAt?_eq_some_iff {α : Type} {items : List α} {position : Int} {item : α} :
    itemAt? items position = some item ↔
      ∃ place : Fin items.length, ((place : Nat) : Int) = position ∧ items.get place = item := by
  unfold itemAt?
  split
  case isTrue negative =>
    simp only [reduceCtorEq, false_iff]
    rintro ⟨place, same, _⟩
    omega
  case isFalse positive =>
    rw [List.getElem?_eq_some_iff]
    constructor
    · rintro ⟨within, found⟩
      exact ⟨⟨position.toNat, within⟩, Int.toNat_of_nonneg (by omega), found⟩
    · rintro ⟨place, rfl, found⟩
      exact ⟨place.isLt, found⟩

namespace Selection

variable {selection : Selection} {sets : List IntSet} {selector : IntSet}

/-! ### The selected sets -/

theorem mem_foldr_union {element : Int} :
    element ∈ sets.foldr IntSet.union ∅ ↔ ∃ set ∈ sets, element ∈ set := by
  induction sets with
  | nil => simp
  | cons first others inductionHypothesis => simp [inductionHypothesis]

/-- What the first set shares with all others is what all sets share. -/
theorem mem_common {element : Int} :
    element ∈ common sets ↔ (∃ set, set ∈ sets) ∧ ∀ set ∈ sets, element ∈ set := by
  cases sets with
  | nil => simp [common]
  | cons first others =>
      simp only [common, IntSet.mem_filter, List.all_eq_true, decide_eq_true_eq,
        List.forall_mem_cons]
      exact (and_iff_right ⟨first, List.mem_cons_self⟩).symm

theorem mem_selected {selected : List IntSet}
    (found : selector.elements.mapM (itemAt? sets) = some selected) {set : IntSet} :
    set ∈ selected ↔ ∃ place ∈ selector.positionsBelow sets.length, sets.get place = set := by
  constructor
  · intro member
    obtain ⟨position, chosen, item⟩ := exists_of_mem_mapM found member
    obtain ⟨place, rfl, same⟩ := itemAt?_eq_some_iff.mp item
    exact ⟨place, chosen, same⟩
  · rintro ⟨place, chosen, rfl⟩
    obtain ⟨other, member, item⟩ := exists_of_mem_forall₂ (mapM_eq_some_iff.mp found) chosen
    rw [itemAt?_eq_some_iff.mpr ⟨place, rfl, rfl⟩] at item
    cases item
    exact member

/-- Elements of some selected set, or of all of them where there is one. -/
def members (selection : Selection) (sets : List IntSet) (selector : IntSet) : Set Int :=
  match selection with
  | .union => {element | ∃ place ∈ selector.positionsBelow sets.length, element ∈ sets.get place}
  | .intersection =>
      {element | (selector.positionsBelow sets.length).Nonempty ∧
        ∀ place ∈ selector.positionsBelow sets.length, element ∈ sets.get place}

def InRange (sets : List IntSet) (selector : IntSet) : Prop :=
  ∀ position ∈ selector, 0 ≤ position ∧ position < sets.length

instance : Decidable (InRange sets selector) :=
  inferInstanceAs
    (Decidable (∀ position ∈ selector.elements, 0 ≤ position ∧ position < sets.length))

theorem InRange.positions_nonempty (inRange : InRange sets selector)
    (nonempty : ∃ position, position ∈ selector) :
    (selector.positionsBelow sets.length).Nonempty := by
  obtain ⟨position, chosen⟩ := nonempty
  have within := inRange position chosen
  have same : ((position.toNat : Nat) : Int) = position := Int.toNat_of_nonneg within.1
  exact ⟨⟨position.toNat, by omega⟩, same.symm ▸ chosen⟩

/-- The computed set lists exactly the elements that it should. -/
theorem toSet_of_eval? {combined : IntSet} (found : selection.eval? sets selector = some combined) :
    combined.toSet = selection.members sets selector := by
  obtain ⟨selected, read, rfl⟩ := Option.map_eq_some_iff.mp found
  ext element
  -- Both sides speak of all selected sets at once, so that the order of selection is gone.
  cases selection with
  | union =>
      simp only [IntSet.mem_toSet, mem_foldr_union, mem_selected read, members,
        exists_exists_and_eq_and, Set.mem_ofPred_eq]
  | intersection =>
      have some_iff : (∃ set, set ∈ selected) ↔ (selector.positionsBelow sets.length).Nonempty := by
        simp only [mem_selected read]
        constructor
        · rintro ⟨_, place, chosen, _⟩
          exact ⟨place, chosen⟩
        · rintro ⟨place, chosen⟩
          exact ⟨_, place, chosen, rfl⟩
      rw [IntSet.mem_toSet, mem_common, some_iff]
      simp only [mem_selected read, members, forall_exists_index, and_imp,
        forall_apply_eq_imp_iff₂, Set.mem_ofPred_eq]

/-- A selection has a value when the selected positions exist. -/
theorem exists_eval? (selection : Selection) (inRange : InRange sets selector) :
    ∃ combined, selection.eval? sets selector = some combined ∧
      combined.toSet = selection.members sets selector := by
  have present : selection.eval? sets selector ≠ none := by
    rw [ne_eq, eval?_eq_none_iff]
    rintro ⟨position, chosen, missing⟩
    have within := inRange position chosen
    omega
  obtain ⟨combined, found⟩ := Option.ne_none_iff_exists'.mp present
  exact ⟨combined, found, toSet_of_eval? found⟩

/-! ### Selections of two sets, and of fewer -/

theorem eval?_empty : selection.eval? sets ∅ = some ∅ := by
  cases selection <;> rfl

def operator : Selection → SetOperator
  | .union => .union
  | .intersection => .intersection

/-- A selection of two positions, or of one that is given twice, is the operation on their sets. -/
theorem eval?_pair {first second : Fin sets.length}
    (pair : ∀ position, position ∈ selector ↔ position = first ∨ position = second) :
    selection.eval? sets selector =
      selection.operator.eval? (sets.get first) (sets.get second) := by
  have inRange : InRange sets selector := by
    intro position chosen
    rcases (pair position).mp chosen with rfl | rfl <;> omega
  have places : ∀ place : Fin sets.length,
      place ∈ selector.positionsBelow sets.length ↔ place = first ∨ place = second := by
    intro place
    refine (pair place).trans ?_
    rw [Int.natCast_inj, Int.natCast_inj, Fin.ext_iff, Fin.ext_iff]
  have nonempty : (selector.positionsBelow sets.length).Nonempty :=
    ⟨first, (places first).mpr (.inl rfl)⟩
  obtain ⟨combined, found, elements⟩ := exists_eval? selection inRange
  rw [found]
  have eq_of_members : ∀ result : IntSet,
      (∀ element, element ∈ selection.members sets selector ↔ element ∈ result) →
        some combined = some result := by
    intro result same
    rw [← elements] at same
    exact congrArg some (IntSet.ext_of_mem same)
  cases selection with
  | union => exact eq_of_members _ fun element => by simp [members, places]
  | intersection => exact eq_of_members _ fun element => by simp [members, places, nonempty]

section Subset

variable {fewer : IntSet} (subset : ∀ position ∈ fewer, position ∈ selector)
  (inRange : InRange sets selector)

include subset inRange

theorem InRange.of_subset : InRange sets fewer :=
  fun position chosen => inRange position (subset position chosen)

/-- Fewer sets have a smaller union. -/
theorem exists_union_subset :
    ∃ smaller larger, union.eval? sets fewer = some smaller ∧
      union.eval? sets selector = some larger ∧ smaller.toSet ⊆ larger.toSet := by
  obtain ⟨smaller, foundSmaller, ofFewer⟩ := exists_eval? union (inRange.of_subset subset)
  obtain ⟨larger, foundLarger, ofAll⟩ := exists_eval? union inRange
  refine ⟨smaller, larger, foundSmaller, foundLarger, ?_⟩
  rw [ofFewer, ofAll]
  rintro element ⟨place, chosen, member⟩
  exact ⟨place, subset _ chosen, member⟩

/-- Fewer sets, at least one, have a larger intersection. -/
theorem exists_intersection_subset (nonempty : ∃ position, position ∈ fewer) :
    ∃ smaller larger, intersection.eval? sets selector = some smaller ∧
      intersection.eval? sets fewer = some larger ∧ smaller.toSet ⊆ larger.toSet := by
  obtain ⟨smaller, foundSmaller, ofAll⟩ := exists_eval? intersection inRange
  obtain ⟨larger, foundLarger, ofFewer⟩ := exists_eval? intersection (inRange.of_subset subset)
  refine ⟨smaller, larger, foundSmaller, foundLarger, ?_⟩
  rw [ofAll, ofFewer]
  rintro element ⟨_, all⟩
  exact ⟨(inRange.of_subset subset).positions_nonempty nonempty,
    fun place chosen => all place (subset _ chosen)⟩

end Subset

end Selection

namespace Posting

/-- The posting compares a selection of an array of sets, both of which it reads from the
assignment. -/
structure SelectsSets (posting : Posting) (assignment : Assignment) (selection : Selection)
    (sets : List IntSet) (selector : IntSet) : Prop where
  primitive_eq : posting.primitive = .defining (.selection selection)
  sets_eq : posting.setsAt? assignment 0 = some sets
  selector_eq : posting.setAt? assignment 1 = some selector

structure CombinesSets (posting : Posting) (assignment : Assignment) (operator : SetOperator)
    (left right : IntSet) : Prop where
  primitive_eq : posting.primitive = .setOperation operator
  left_eq : posting.setAt? assignment 0 = some left
  right_eq : posting.setAt? assignment 1 = some right

/-- The postings compare what they make of their sets in the same way, with the same value, and use
the truth of this alike. -/
structure ComparesAlike (posting other : Posting) (assignment : Assignment) : Prop where
  relation_eq : posting.relation = other.relation
  negated_eq : posting.negated = other.negated
  target_eq : posting.target = other.target
  result_eq : posting.scalarAt? assignment 2 = other.scalarAt? assignment 2

section Condition

variable {posting other : Posting} {assignment : Assignment} {selection : Selection}
  {sets : List IntSet} {selector : IntSet}

theorem SelectsSets.condition? (selects : posting.SelectsSets assignment selection sets selector) :
    posting.condition? assignment =
      posting.compareSides? ((selection.eval? sets selector).map .set)
        (posting.scalarAt? assignment 2) := by
  simp [Posting.condition?, selects.primitive_eq, definingCondition?, selects.sets_eq,
    selects.selector_eq]

theorem CombinesSets.condition? {operator : SetOperator} {left right : IntSet}
    (combines : posting.CombinesSets assignment operator left right) :
    posting.condition? assignment =
      posting.compareSides? ((operator.eval? left right).map .set)
        (posting.scalarAt? assignment 2) := by
  simp [Posting.condition?, combines.primitive_eq, combines.left_eq, combines.right_eq]

theorem ComparesAlike.compareSides?_eq (alike : posting.ComparesAlike other assignment)
    (left : Option Value) :
    posting.compareSides? left (posting.scalarAt? assignment 2) =
      other.compareSides? left (other.scalarAt? assignment 2) := by
  simp only [compareSides?, alike.relation_eq, alike.result_eq]

theorem ComparesAlike.verdict_eq (alike : posting.ComparesAlike other assignment)
    (conditions : posting.condition? assignment = other.condition? assignment) :
    posting.verdict assignment = other.verdict assignment := by
  simp only [verdict, conditions, alike.negated_eq, alike.target_eq]

end Condition

/-- A posting on a selection is false, whatever its relation, when a selected position does not
exist. Otherwise it compares the elements of some selected set, or of all of them where there is
one, with its last argument, by any relation of sets. A selection of nothing is empty, one of two
positions has the verdict of the operation on the two sets, and fewer positions make a smaller union
and, where there are any, a larger intersection. -/
theorem selections_exact (assignment : Assignment) (sets : List IntSet) :
    (∀ (posting : Posting) (selection : Selection) (selector : IntSet),
        posting.SelectsSets assignment selection sets selector →
          ((∃ position ∈ selector, position < 0 ∨ (sets.length : Int) ≤ position) →
            posting.condition? assignment = some false) ∧
          (Selection.InRange sets selector → ∀ (relation : Relation) (target : IntSet),
            posting.relation = some relation → relation.comparesSets = true →
              posting.scalarAt? assignment 2 = some (.set target) →
                ∃ truth, posting.condition? assignment = some truth ∧
                  (truth = true ↔
                    relation.HoldsOfSets (selection.members sets selector) target.toSet))) ∧
      (∀ selection : Selection, selection.eval? sets ∅ = some ∅) ∧
      (∀ (posting other : Posting) (selection : Selection) (selector : IntSet)
        (first second : Fin sets.length),
        (∀ position, position ∈ selector ↔ position = first ∨ position = second) →
          posting.SelectsSets assignment selection sets selector →
            other.CombinesSets assignment selection.operator (sets.get first) (sets.get second) →
              posting.ComparesAlike other assignment →
                posting.verdict assignment = other.verdict assignment) ∧
      ∀ fewer more : IntSet, (∀ position ∈ fewer, position ∈ more) →
        (∃ position, position ∈ fewer) → Selection.InRange sets more →
          (∃ smaller larger, Selection.union.eval? sets fewer = some smaller ∧
            Selection.union.eval? sets more = some larger ∧ smaller.toSet ⊆ larger.toSet) ∧
          ∃ smaller larger, Selection.intersection.eval? sets more = some smaller ∧
            Selection.intersection.eval? sets fewer = some larger ∧
              smaller.toSet ⊆ larger.toSet := by
  refine ⟨fun posting selection selector selects => ⟨?_, ?_⟩, ?_, ?_, ?_⟩
  · intro outside
    rw [selects.condition?, Selection.eval?_eq_none_iff.mpr outside]
    rfl
  · intro inRange relation target given comparesSets result
    obtain ⟨combined, found, elements⟩ := Selection.exists_eval? selection inRange
    rw [selects.condition?, found, result, ← elements]
    exact exists_comparison_of_sets given comparesSets combined target
  · exact fun selection => Selection.eval?_empty
  · intro posting other selection selector first second pair selects combines alike
    refine alike.verdict_eq ?_
    rw [selects.condition?, combines.condition?, Selection.eval?_pair pair, alike.compareSides?_eq]
  · intro fewer more subset nonempty inRange
    exact ⟨Selection.exists_union_subset subset inRange,
      Selection.exists_intersection_subset subset inRange nonempty⟩

def threeSets : Assignment := fun id =>
  [ Value.set (.ofList [1, 2]), .set (.ofList [2, 3]), .set (.ofList [2]), .set (.ofList [0, 1]),
    .set (.ofList [-1, 0]) ][id]?

/-- The sets at the positions in a variable have the third set in common. -/
def selectsCommon (positions : Nat) : Posting where
  primitive := .defining (.selection .intersection)
  arguments := [.vars [⟨0, .set⟩, ⟨1, .set⟩, ⟨2, .set⟩], .var ⟨positions, .set⟩, .var ⟨2, .set⟩]
  relation := some .eq

def intersectsPair : Posting where
  primitive := .setOperation .intersection
  arguments := [.var ⟨0, .set⟩, .var ⟨1, .set⟩, .var ⟨2, .set⟩]
  relation := some .eq

/-- A negative position makes the selection false. The first two positions select what the sets at
them have in common, and the third position makes that no larger. -/
theorem selectsCommon_exact :
    let sets : List IntSet := [.ofList [1, 2], .ofList [2, 3], .ofList [2]]
    (selectsCommon 4).condition? threeSets = some false ∧
      Selection.intersection.members sets (.ofList [0, 1]) = (IntSet.ofList [2]).toSet ∧
      (selectsCommon 3).verdict threeSets = intersectsPair.verdict threeSets ∧
      ∃ smaller larger,
        Selection.intersection.eval? sets (.ofList [0, 1, 2]) = some smaller ∧
          Selection.intersection.eval? sets (.ofList [0, 1]) = some larger ∧
          smaller.toSet ⊆ larger.toSet := by
  intro sets
  obtain ⟨each, _, pair, subset⟩ := selections_exact threeSets sets
  have negative := each (selectsCommon 4) .intersection (.ofList [-1, 0]) ⟨rfl, rfl, rfl⟩
  have firstTwo := each (selectsCommon 3) .intersection (.ofList [0, 1]) ⟨rfl, rfl, rfl⟩
  refine ⟨negative.1 ⟨-1, by decide, .inl (by decide)⟩, ?_, ?_, ?_⟩
  · obtain ⟨truth, condition, holds⟩ := firstTwo.2 (by decide) .eq (.ofList [2]) rfl rfl rfl
    cases condition
    exact holds.mp rfl
  · exact pair (selectsCommon 3) intersectsPair .intersection (.ofList [0, 1])
      ⟨0, by decide⟩ ⟨1, by decide⟩ (by simp) ⟨rfl, rfl, rfl⟩ ⟨rfl, rfl, rfl⟩ ⟨rfl, rfl, rfl, rfl⟩
  · exact (subset (.ofList [0, 1]) (.ofList [0, 1, 2]) (by decide) ⟨0, by decide⟩ (by decide)).2

end Posting

end ConstraintCompiler
