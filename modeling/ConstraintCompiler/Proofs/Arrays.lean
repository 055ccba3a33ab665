import ConstraintCompiler.Proofs.Reading
import ConstraintCompiler.Proofs.Relations
import ConstraintCompiler.Proofs.Summation
import Mathlib.Data.Fintype.Fin
import Mathlib.Data.List.Perm.Basic
import Mathlib.Order.Bounds.Basic

/-!
Contract: what primitives say about the items of an array of integers.

Owns:
- `ArrayCondition`, everything that a primitive can state of such an array alone, and
  `ArrayCondition.Holds`, what it means for the items at their positions;
- the laws that connect the computation of each of them with this meaning;
- `Posting.Rearranges`, that two postings differ in the order of an array only;
- `Posting.array_conditions_exact`: a posting says what its condition means, and the order of the
  array makes no difference to it, ascending arrays apart.

Does not own: sums, for which the order of the items matters.
-/

namespace ConstraintCompiler

/-! ### Arrays and their items -/

theorem IntSet.size_ofList (items : List Int) : (ofList items).size = items.toFinset.card := by
  have nodup : (ofList items).elements.Nodup := (ofList items).ascending.imp Int.ne_of_lt
  have members : (ofList items).elements.toFinset = items.toFinset := by
    ext element
    rw [List.mem_toFinset, List.mem_toFinset, mem_elements, mem_ofList]
  rw [size, ← List.toFinset_card_of_nodup nodup, members]

/-- As many members as items means that no item is repeated. -/
theorem allDistinct_iff_nodup {items : List Int} : allDistinct items = true ↔ items.Nodup := by
  rw [allDistinct, beq_iff_eq, IntSet.size_ofList]
  exact Multiset.toFinset_card_eq_card_iff_nodup

/-- Neighbours in order put all items in order. -/
theorem isSorted_iff_pairwise {items : List Int} :
    isSorted items = true ↔ items.Pairwise (· ≤ ·) := by
  rw [← List.isChain_iff_pairwise]
  fun_induction isSorted items with
  | case1 first second rest inductionHypothesis =>
      rw [Bool.and_eq_true, decide_eq_true_eq, inductionHypothesis, List.isChain_cons_cons]
  | case2 items short =>
      match items with
      | [] | [_] => simp
      | first :: second :: rest => exact absurd rfl (short first second rest)

theorem Aggregate.eval?_max_eq_some_iff {items : List Int} {number : Int} :
    max.eval? items = some number ↔ IsGreatest {item | item ∈ items} number :=
  List.max?_eq_some_iff

theorem Aggregate.eval?_min_eq_some_iff {items : List Int} {number : Int} :
    min.eval? items = some number ↔ IsLeast {item | item ∈ items} number :=
  List.min?_eq_some_iff

theorem card_positions (items : List Int) (item : Int) :
    (Finset.univ.filter fun position : Fin items.length => items.get position = item).card =
      items.count item :=
  Fin.card_filter_univ_eq_vector_get_eq_count item ⟨items, rfl⟩

/-! ### Conditions on an array -/

/-- What a primitive states of an array of integers: that no two items are equal, that they ascend,
or that their largest, their smallest, or the number of those equal to a given one stands in a
relation to a bound. -/
inductive ArrayCondition where
  | distinct
  | sorted
  | greatest (relation : Relation) (bound : Int)
  | least (relation : Relation) (bound : Int)
  | count (item : Int) (relation : Relation) (bound : Int)

def ArrayCondition.Holds (items : List Int) : ArrayCondition → Prop
  | .distinct =>
      ∀ first second : Fin items.length, first ≠ second → items.get first ≠ items.get second
  | .sorted =>
      ∀ first second : Fin items.length, first ≤ second → items.get first ≤ items.get second
  | .greatest relation bound =>
      ∃ number, IsGreatest {item | item ∈ items} number ∧ relation.HoldsOfIntegers number bound
  | .least relation bound =>
      ∃ number, IsLeast {item | item ∈ items} number ∧ relation.HoldsOfIntegers number bound
  | .count item relation bound =>
      relation.HoldsOfIntegers
        (Finset.univ.filter fun position : Fin items.length => items.get position = item).card bound

namespace ArrayCondition

theorem holds_distinct_iff {items : List Int} : distinct.Holds items ↔ items.Nodup := by
  rw [List.nodup_iff_injective_get]
  constructor
  · intro apart first second equal
    by_contra different
    exact apart first second different equal
  · intro injective first second different equal
    exact different (injective equal)

theorem holds_sorted_iff {items : List Int} : sorted.Holds items ↔ items.Pairwise (· ≤ ·) := by
  rw [List.pairwise_iff_get]
  constructor
  · exact fun ascends first second before => ascends first second (Fin.le_of_lt before)
  · intro ascends first second notAfter
    rcases Fin.lt_or_eq_of_le notAfter with before | rfl
    · exact ascends first second before
    · exact Int.le_refl _

theorem lt_of_sorted_of_distinct {items : List Int} (ascends : sorted.Holds items)
    (apart : distinct.Holds items) {first second : Fin items.length} (before : first < second) :
    items.get first < items.get second :=
  lt_of_le_of_ne (ascends first second (Fin.le_of_lt before))
    (apart first second (Fin.ne_of_lt before))

end ArrayCondition

/-- What a computation finds exists, and nothing else is what it looks for. -/
private theorem existsUnique_of_found {extremum : Option Int} {isExtremum : Int → Prop}
    (found : ∀ number, extremum = some number ↔ isExtremum number) (present : extremum ≠ none) :
    ∃! number, isExtremum number := by
  obtain ⟨number, rfl⟩ := Option.ne_none_iff_exists'.mp present
  refine ⟨number, (found number).mp rfl, fun other holds => ?_⟩
  exact (Option.some.inj ((found other).mpr holds)).symm

theorem existsUnique_greatest {items : List Int} (nonempty : items ≠ []) :
    ∃! number, IsGreatest {item | item ∈ items} number :=
  existsUnique_of_found (fun _ => Aggregate.eval?_max_eq_some_iff)
    (mt List.max?_eq_none_iff.mp nonempty)

theorem existsUnique_least {items : List Int} (nonempty : items ≠ []) :
    ∃! number, IsLeast {item | item ∈ items} number :=
  existsUnique_of_found (fun _ => Aggregate.eval?_min_eq_some_iff)
    (mt List.min?_eq_none_iff.mp nonempty)

namespace Posting

inductive StatesOfArray (posting : Posting) (assignment : Assignment) (items : List Int) :
    ArrayCondition → Prop where
  | distinct (primitive : posting.primitive = .distinct)
      (read : posting.intsAt? assignment 0 = some items) :
      StatesOfArray posting assignment items .distinct
  | sorted (primitive : posting.primitive = .sorted)
      (read : posting.intsAt? assignment 0 = some items) :
      StatesOfArray posting assignment items .sorted
  | greatest {relation : Relation} {bound : Int}
      (primitive : posting.primitive = .defining (.aggregate .max))
      (given : posting.relation = some relation) (arithmetic : relation.isArithmetic = true)
      (read : posting.intsAt? assignment 0 = some items)
      (readBound : posting.scalarAt? assignment 1 = some (.int bound)) :
      StatesOfArray posting assignment items (.greatest relation bound)
  | least {relation : Relation} {bound : Int}
      (primitive : posting.primitive = .defining (.aggregate .min))
      (given : posting.relation = some relation) (arithmetic : relation.isArithmetic = true)
      (read : posting.intsAt? assignment 0 = some items)
      (readBound : posting.scalarAt? assignment 1 = some (.int bound)) :
      StatesOfArray posting assignment items (.least relation bound)
  | count {item : Int} {relation : Relation} {bound : Int}
      (primitive : posting.primitive = .defining .count)
      (given : posting.relation = some relation) (arithmetic : relation.isArithmetic = true)
      (read : posting.intsAt? assignment 0 = some items)
      (readItem : posting.intAt? assignment 1 = some item)
      (readBound : posting.scalarAt? assignment 2 = some (.int bound)) :
      StatesOfArray posting assignment items (.count item relation bound)

section Condition

variable {posting : Posting} {assignment : Assignment} {items : List Int}

/-- An extremum is compared with its bound where there is one, and the comparison is false where
there is none. -/
private theorem exists_comparison_of_extremum {relation : Relation} {bound : Int}
    (given : posting.relation = some relation) (arithmetic : relation.isArithmetic = true)
    {extremum : Option Int} {isExtremum : Int → Prop}
    (found : ∀ number, extremum = some number ↔ isExtremum number) :
    ∃ truth, posting.compareSides? (extremum.map .int) (some (.int bound)) = some truth ∧
      (truth = true ↔ ∃ number, isExtremum number ∧ relation.HoldsOfIntegers number bound) := by
  simp only [← found]
  cases extremum with
  | none => exact ⟨false, rfl, by simp⟩
  | some number =>
      obtain ⟨truth, compared, holds⟩ :=
        exists_comparison_of_integers given arithmetic number bound
      exact ⟨truth, compared, by simpa using holds⟩

theorem StatesOfArray.condition? {condition : ArrayCondition}
    (states : posting.StatesOfArray assignment items condition) :
    ∃ truth, posting.condition? assignment = some truth ∧
      (truth = true ↔ condition.Holds items) := by
  cases states with
  | distinct primitive read =>
      refine ⟨allDistinct items, by simp [Posting.condition?, primitive, read], ?_⟩
      rw [allDistinct_iff_nodup, ArrayCondition.holds_distinct_iff]
  | sorted primitive read =>
      refine ⟨isSorted items, by simp [Posting.condition?, primitive, read], ?_⟩
      rw [isSorted_iff_pairwise, ArrayCondition.holds_sorted_iff]
  | greatest primitive given arithmetic read readBound =>
      simp only [Posting.condition?, primitive, definingCondition?, read, readBound,
        Option.bind_eq_bind, Option.bind_some]
      exact exists_comparison_of_extremum given arithmetic
        fun _ => Aggregate.eval?_max_eq_some_iff
  | least primitive given arithmetic read readBound =>
      simp only [Posting.condition?, primitive, definingCondition?, read, readBound,
        Option.bind_eq_bind, Option.bind_some]
      exact exists_comparison_of_extremum given arithmetic
        fun _ => Aggregate.eval?_min_eq_some_iff
  | count primitive given arithmetic read readItem readBound =>
      simp only [Posting.condition?, primitive, definingCondition?, read, readItem, readBound,
        Option.bind_eq_bind, Option.bind_some, ArrayCondition.Holds, card_positions]
      exact exists_comparison_of_integers given arithmetic _ _

end Condition

end Posting

/-! ### The order of the items -/

/-- What is read from a list in another order is read in that order. -/
theorem exists_mapM_of_perm {α β : Type} {read : α → Option β} {items others : List α}
    {results : List β} (permuted : others.Perm items) (found : items.mapM read = some results) :
    ∃ reordered, others.mapM read = some reordered ∧ reordered.Perm results := by
  obtain ⟨reordered, each, same⟩ := List.perm_comp_forall₂ permuted (mapM_eq_some_iff.mp found)
  exact ⟨reordered, mapM_eq_some_iff.mpr each, same⟩

/-- Both arguments are arrays, of the same items in some order. -/
inductive Argument.Rearranges : Argument → Argument → Prop where
  | vars {items others : List Variable} (permuted : others.Perm items) :
      Rearranges (.vars items) (.vars others)
  | ints {items others : List Int} (permuted : others.Perm items) :
      Rearranges (.ints items) (.ints others)

namespace Argument.Rearranges

variable {argument other : Argument} (rearranges : argument.Rearranges other)

include rearranges

theorem symm : other.Rearranges argument := by
  cases rearranges with
  | vars permuted => exact .vars permuted.symm
  | ints permuted => exact .ints permuted.symm

theorem exists_array? {assignment : Assignment} {values : List Value}
    (read : argument.array? assignment = some values) :
    ∃ reordered, other.array? assignment = some reordered ∧ reordered.Perm values := by
  cases rearranges with
  | vars permuted => exact exists_mapM_of_perm permuted read
  | ints permuted =>
      cases read
      exact ⟨_, rfl, permuted.map _⟩

end Argument.Rearranges

/-- The primitives for which the order of an array makes no difference, whatever its items are. -/
def Primitive.orderless : List Primitive :=
  [.distinct, .defining (.aggregate .max), .defining (.aggregate .min), .defining .count]

/-- A largest and a smallest item depend on which items there are, not on their order. -/
theorem Aggregate.eval?_of_perm {aggregate : Aggregate} (extremum : aggregate ≠ .sum)
    {items others : List Int} (permuted : others.Perm items) :
    aggregate.eval? others = aggregate.eval? items := by
  have members : {item | item ∈ others} = {item | item ∈ items} :=
    Set.ext fun _ => permuted.mem_iff
  refine Option.ext fun number => ?_
  cases aggregate with
  | sum => exact absurd rfl extremum
  | max => rw [eval?_max_eq_some_iff, eval?_max_eq_some_iff, members]
  | min => rw [eval?_min_eq_some_iff, eval?_min_eq_some_iff, members]

theorem allDistinct_of_perm {items others : List Int} (permuted : others.Perm items) :
    allDistinct others = allDistinct items := by
  rw [Bool.eq_iff_iff, allDistinct_iff_nodup, allDistinct_iff_nodup, permuted.nodup_iff]

namespace Posting

def Rearranges (posting other : Posting) : Prop :=
  ∃ items others rest, posting.arguments = items :: rest ∧ items.Rearranges others ∧
    other = { posting with arguments := others :: rest }

namespace Rearranges

variable {posting other : Posting}

theorem symm (rearranges : posting.Rearranges other) : other.Rearranges posting := by
  obtain ⟨items, others, rest, given, arrays, rfl⟩ := rearranges
  exact ⟨others, items, rest, rfl, arrays.symm, by rw [← given]⟩

variable (rearranges : posting.Rearranges other) {assignment : Assignment}

include rearranges

theorem exists_intsAt? {items : List Int} (read : posting.intsAt? assignment 0 = some items) :
    ∃ reordered, other.intsAt? assignment 0 = some reordered ∧ reordered.Perm items := by
  obtain ⟨array, others, rest, given, arrays, rfl⟩ := rearranges
  simp only [intsAt?, arrayAt?, given, List.getElem?_cons_zero, Option.bind_eq_bind,
    Option.bind_some, Option.bind_eq_some_iff] at read ⊢
  obtain ⟨values, readValues, integers⟩ := read
  obtain ⟨reordered, readReordered, permuted⟩ := arrays.exists_array? readValues
  obtain ⟨numbers, readNumbers, same⟩ := exists_mapM_of_perm permuted integers
  exact ⟨numbers, ⟨reordered, readReordered, readNumbers⟩, same⟩

theorem scalarAt?_succ (position : Nat) :
    other.scalarAt? assignment (position + 1) = posting.scalarAt? assignment (position + 1) := by
  obtain ⟨array, others, rest, given, _, rfl⟩ := rearranges
  rw [scalarAt?, scalarAt?, given]
  rfl

theorem compareSides?_eq (left right : Option Value) :
    other.compareSides? left right = posting.compareSides? left right := by
  obtain ⟨_, _, _, _, _, rfl⟩ := rearranges
  rfl

theorem keeps_condition? (orderless : posting.primitive ∈ Primitive.orderless) :
    Keeps (posting.condition? assignment) (other.condition? assignment) := by
  have samePrimitive : other.primitive = posting.primitive := by
    obtain ⟨_, _, _, _, _, rfl⟩ := rearranges
    rfl
  intro truth found
  unfold Posting.condition? at found ⊢
  rw [samePrimitive]
  simp only [Primitive.orderless, List.mem_cons, List.not_mem_nil, or_false] at orderless
  -- Only the first argument differs, so that all four cases read the other arguments alike.
  rcases orderless with primitive | primitive | primitive | primitive
  all_goals
    simp only [primitive, definingCondition?, intAt?, rearranges.scalarAt?_succ 0,
      rearranges.scalarAt?_succ 1, rearranges.compareSides?_eq, Option.bind_eq_bind,
      Option.bind_eq_some_iff] at found ⊢
    obtain ⟨items, read, result⟩ := found
    obtain ⟨reordered, readReordered, permuted⟩ := rearranges.exists_intsAt? read
    refine ⟨reordered, readReordered, ?_⟩
  · rw [allDistinct_of_perm permuted]
    exact result
  · rw [Aggregate.eval?_of_perm (by decide) permuted]
    exact result
  · rw [Aggregate.eval?_of_perm (by decide) permuted]
    exact result
  · simp only [permuted.count_eq]
    exact result

theorem verdict_eq (orderless : posting.primitive ∈ Primitive.orderless) :
    other.verdict assignment = posting.verdict assignment := by
  have backOrderless : other.primitive ∈ Primitive.orderless := by
    obtain ⟨_, _, _, _, _, rfl⟩ := rearranges
    exact orderless
  have conditions : other.condition? assignment = posting.condition? assignment :=
    Keeps.antisymm (rearranges.symm.keeps_condition? backOrderless)
      (rearranges.keeps_condition? orderless)
  rw [verdict, verdict, conditions]
  obtain ⟨_, _, _, _, _, rfl⟩ := rearranges
  rfl

end Rearranges

/-- A posting on an array of integers is decided, and says of its items what its condition means. A
nonempty array has one largest and one smallest item. Postings that differ only in the order of such
an array have the same verdict under every assignment, if they state that its items differ, or
compare its largest item, its smallest one or a number of occurrences. An array that is stated to
ascend and to have no repetitions, both truly, ascends strictly. -/
theorem array_conditions_exact (assignment : Assignment) (items : List Int) :
    (∀ (posting : Posting) (condition : ArrayCondition),
        posting.StatesOfArray assignment items condition →
          ∃ truth, posting.condition? assignment = some truth ∧
            (truth = true ↔ condition.Holds items)) ∧
      (items ≠ [] → (∃! number, IsGreatest {item | item ∈ items} number) ∧
        ∃! number, IsLeast {item | item ∈ items} number) ∧
      (∀ posting other : Posting, posting.primitive ∈ Primitive.orderless →
        posting.Rearranges other → other.verdict assignment = posting.verdict assignment) ∧
      ∀ ascending different : Posting, ascending.StatesOfArray assignment items .sorted →
        different.StatesOfArray assignment items .distinct →
          ascending.condition? assignment = some true →
            different.condition? assignment = some true →
              ∀ first second : Fin items.length, first < second →
                items.get first < items.get second := by
  refine ⟨fun _ _ states => states.condition?,
    fun nonempty => ⟨existsUnique_greatest nonempty, existsUnique_least nonempty⟩,
    fun _ _ orderless rearranges => rearranges.verdict_eq orderless, ?_⟩
  intro ascending different statesOrder statesDifference ascends differs first second before
  obtain ⟨ordered, orderedFound, inOrder⟩ := statesOrder.condition?
  obtain ⟨apart, apartFound, inequality⟩ := statesDifference.condition?
  cases orderedFound.symm.trans ascends
  cases apartFound.symm.trans differs
  exact ArrayCondition.lt_of_sorted_of_distinct (inOrder.mp rfl) (inequality.mp rfl) before

/-- The largest of the integer variables in the given order is at least four. -/
def boundsGreatest (order : List Nat) : Posting where
  primitive := .defining (.aggregate .max)
  arguments := [.vars (order.map fun id => ⟨id, .int⟩), .int 4]
  relation := some .ge

def constrains (primitive : Primitive) (order : List Nat) : Posting where
  primitive
  arguments := [.vars (order.map fun id => ⟨id, .int⟩)]

/-- The bound is reached by the last item in one order, and by the one in the middle in another. In
the first order, the items ascend and differ. -/
theorem boundsGreatest_exact :
    let assignment := assigns [4, 1, 2]
    let items := [1, 2, 4]
    (∃ truth, (boundsGreatest [1, 2, 0]).condition? assignment = some truth ∧
        (truth = true ↔ (ArrayCondition.greatest .ge 4).Holds items)) ∧
      (∃! number, IsGreatest {item | item ∈ items} number) ∧
      (boundsGreatest [2, 0, 1]).verdict assignment =
        (boundsGreatest [1, 2, 0]).verdict assignment ∧
      ∀ first second : Fin items.length, first < second → items.get first < items.get second := by
  intro assignment items
  have states : (boundsGreatest [1, 2, 0]).StatesOfArray assignment items (.greatest .ge 4) :=
    .greatest rfl rfl rfl rfl rfl
  have rearranges : (boundsGreatest [1, 2, 0]).Rearranges (boundsGreatest [2, 0, 1]) :=
    ⟨_, _, _, rfl, .vars (by decide), rfl⟩
  obtain ⟨decided, extrema, ordered, strictly⟩ := array_conditions_exact assignment items
  refine ⟨decided _ _ states, (extrema (by decide)).1, ordered _ _ (by decide) rearranges, ?_⟩
  exact strictly (constrains .sorted [1, 2, 0]) (constrains .distinct [1, 2, 0]) (.sorted rfl rfl)
    (.distinct rfl rfl) rfl rfl

end Posting

end ConstraintCompiler
