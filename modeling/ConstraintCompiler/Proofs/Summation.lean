import ConstraintCompiler.Posting.Verdict
import Mathlib.Algebra.BigOperators.Group.List.Basic
import Mathlib.Algebra.Ring.Int.Defs

/-!
Contract: the value and the truth of sums that are formed within 64 bits.

Owns:
- `Aggregate.eval?_sum_eq_some_iff`, that a sum has a value exactly when no partial sum from the
  left leaves the range, and that this is the exact sum;
- `gains` and `losses`, the sums of the positive and of the negative items, which bound every
  partial sum of every order of the items;
- `Aggregate.summable_in_every_order_iff`, that these two decide whether there is a sum in every
  order;
- `Posting.StatesSum`, that a posting compares a sum with a bound, and `Posting.condition?_sum`,
  when it is true.

Does not own: sums whose items or bound have no values.
-/

namespace ConstraintCompiler

namespace Aggregate

/-- Adding items one by one succeeds exactly when every intermediate result fits, and then gives
the exact result. -/
theorem foldlM_add?_eq_some_iff (items : List Int) (start total : Int) :
    items.foldlM add? start = some total ↔
      (∀ part, part ≠ [] → part <+: items → Representable (start + part.sum)) ∧
        start + items.sum = total := by
  induction items generalizing start with
  | nil =>
      simp only [List.foldlM_nil, List.prefix_nil, List.sum_nil, Int.add_zero]
      constructor
      · intro same
        cases same
        exact ⟨fun part nonempty empty => absurd empty nonempty, rfl⟩
      · rintro ⟨_, rfl⟩
        rfl
  | cons item rest inductionHypothesis =>
      rw [List.foldlM_cons, Option.bind_eq_bind, Option.bind_eq_some_iff]
      simp only [add?_eq_some_iff, inductionHypothesis]
      constructor
      · rintro ⟨_, ⟨fits, rfl⟩, parts, rfl⟩
        refine ⟨fun part nonempty within => ?_, by rw [List.sum_cons, Int.add_assoc]⟩
        obtain ⟨head, tail, rfl⟩ := List.exists_cons_of_ne_nil nonempty
        obtain ⟨rfl, shorter⟩ := List.cons_prefix_cons.mp within
        rw [List.sum_cons, ← Int.add_assoc]
        by_cases empty : tail = []
        · simpa [empty] using fits
        · exact parts tail empty shorter
      · rintro ⟨parts, rfl⟩
        refine ⟨start + item, ⟨?_, rfl⟩, fun part _ within => ?_, ?_⟩
        · simpa using parts [item] nofun (by simp)
        · rw [Int.add_assoc, ← List.sum_cons]
          exact parts (item :: part) nofun (List.cons_prefix_cons.mpr ⟨rfl, within⟩)
        · rw [List.sum_cons, Int.add_assoc]

/-- A sum has a value exactly when every partial sum from the left fits, and this is the exact
sum. -/
theorem eval?_sum_eq_some_iff {items : List Int} {total : Int} :
    sum.eval? items = some total ↔
      (∀ part, part <+: items → Representable part.sum) ∧ items.sum = total := by
  have zero : Representable ([] : List Int).sum := by decide
  rw [eval?, foldlM_add?_eq_some_iff]
  simp only [Int.zero_add]
  constructor
  · rintro ⟨parts, exact⟩
    refine ⟨fun part within => ?_, exact⟩
    by_cases empty : part = []
    · rwa [empty]
    · exact parts part empty within
  · rintro ⟨parts, exact⟩
    exact ⟨fun part _ within => parts part within, exact⟩

end Aggregate

/-! ### The order of the items -/

def gains (items : List Int) : Int := (items.filter (0 < ·)).sum

def losses (items : List Int) : Int := (items.filter (· < 0)).sum

theorem gains_append (first second : List Int) :
    gains (first ++ second) = gains first + gains second := by
  simp [gains]

theorem losses_append (first second : List Int) :
    losses (first ++ second) = losses first + losses second := by
  simp [losses]

theorem gains_eq_of_perm {first second : List Int} (permuted : first.Perm second) :
    gains first = gains second :=
  (permuted.filter _).sum_eq

theorem losses_eq_of_perm {first second : List Int} (permuted : first.Perm second) :
    losses first = losses second :=
  (permuted.filter _).sum_eq

theorem gains_cons (item : Int) (rest : List Int) :
    gains (item :: rest) = max item 0 + gains rest := by
  by_cases positive : 0 < item
  · simp [gains, positive, Int.max_eq_left (Int.le_of_lt positive)]
  · simp [gains, positive, Int.max_eq_right (Int.not_lt.mp positive)]

theorem losses_cons (item : Int) (rest : List Int) :
    losses (item :: rest) = min item 0 + losses rest := by
  by_cases negative : item < 0
  · simp [losses, negative, Int.min_eq_left (Int.le_of_lt negative)]
  · simp [losses, negative, Int.min_eq_right (Int.not_lt.mp negative)]

/-- A sum consists of its gains, which raise it, and its losses, which lower it. -/
theorem gains_losses (items : List Int) :
    0 ≤ gains items ∧ losses items ≤ 0 ∧ gains items + losses items = items.sum := by
  induction items with
  | nil => decide
  | cons item rest inductionHypothesis =>
      rw [gains_cons, losses_cons, List.sum_cons]
      omega

/-- Gains and losses bound every partial sum. -/
theorem sum_bounds_of_prefix {part items : List Int} (within : part <+: items) :
    losses items ≤ part.sum ∧ part.sum ≤ gains items := by
  obtain ⟨rest, rfl⟩ := within
  have partBounds := gains_losses part
  have restBounds := gains_losses rest
  rw [gains_append, losses_append]
  omega

/-- The items have a sum in every order exactly when their gains fit, and their losses do. -/
theorem Aggregate.summable_in_every_order_iff {items : List Int} :
    (∀ reordered, reordered.Perm items → ∃ total, sum.eval? reordered = some total) ↔
      Representable (gains items) ∧ Representable (losses items) := by
  constructor
  · intro summable
    -- Adding the items of one sign first passes through their total.
    have passes (sign : Int → Bool) : Representable (items.filter sign).sum := by
      obtain ⟨total, found⟩ := summable _ (List.filter_append_perm sign items)
      exact (eval?_sum_eq_some_iff.mp found).1 _ (List.prefix_append _ _)
    exact ⟨passes _, passes _⟩
  · rintro ⟨gainsFit, lossesFit⟩ reordered permuted
    refine ⟨_, eval?_sum_eq_some_iff.mpr ⟨fun part within => ?_, rfl⟩⟩
    have bounds := sum_bounds_of_prefix within
    rw [gains_eq_of_perm permuted, losses_eq_of_perm permuted] at bounds
    exact ⟨Int.le_trans lossesFit.1 bounds.1, Int.le_trans bounds.2 gainsFit.2⟩

namespace Posting

/-- The posting states that a sum stands in a relation of integers to a bound, and its items and its
bound are read from the assignment. -/
structure StatesSum (posting : Posting) (assignment : Assignment) (items : List Int)
    (relation : Relation) (bound : Int) : Prop where
  primitive_eq : posting.primitive = .defining (.aggregate .sum)
  relation_eq : posting.relation = some relation
  arithmetic : relation.isArithmetic = true
  items_eq : posting.intsAt? assignment 0 = some items
  bound_eq : posting.scalarAt? assignment 1 = some (.int bound)

/-- The posting of a sum is decided. It is true exactly when no partial sum from the left leaves the
range, and the exact sum stands in the relation. -/
theorem condition?_of_statesSum {posting : Posting} {assignment : Assignment} {items : List Int}
    {relation : Relation} {bound : Int}
    (states : posting.StatesSum assignment items relation bound) :
    ∃ truth, posting.condition? assignment = some truth ∧
      (truth = true ↔ (∀ part, part <+: items → Representable part.sum) ∧
        relation.compare items.sum bound = true) := by
  have condition : posting.condition? assignment =
      posting.compareSides? ((Aggregate.sum.eval? items).map .int) (some (.int bound)) := by
    simp [condition?, states.primitive_eq, definingCondition?, states.items_eq, states.bound_eq]
  rw [condition]
  cases found : Aggregate.sum.eval? items with
  | none =>
      refine ⟨false, rfl, nofun, fun ⟨parts, _⟩ => ?_⟩
      rw [Aggregate.eval?_sum_eq_some_iff.mpr ⟨parts, rfl⟩] at found
      cases found
  | some total =>
      obtain ⟨parts, rfl⟩ := Aggregate.eval?_sum_eq_some_iff.mp found
      refine ⟨relation.compare items.sum bound, ?_, fun holds => ⟨parts, holds⟩, And.right⟩
      simp [compareSides?, states.relation_eq, Relation.between?, states.arithmetic]

/-- The posting of a sum is true exactly when no partial sum from the left leaves the range, and the
exact sum stands in the relation. Where the positive items have a sum that fits, and the negative
ones do, the order of the items makes no difference: the posting says whether the exact sum fits and
stands in the relation. -/
theorem condition?_sum {posting : Posting} {assignment : Assignment} {items reordered : List Int}
    {relation : Relation} {bound : Int} (permuted : reordered.Perm items)
    (states : posting.StatesSum assignment reordered relation bound) :
    ∃ truth, posting.condition? assignment = some truth ∧
      (truth = true ↔ (∀ part, part <+: reordered → Representable part.sum) ∧
        relation.compare items.sum bound = true) ∧
      (Representable (gains items) → Representable (losses items) →
        (truth = true ↔ Representable items.sum ∧ relation.compare items.sum bound = true)) := by
  obtain ⟨truth, condition, holds⟩ := condition?_of_statesSum states
  rw [permuted.sum_eq] at holds
  refine ⟨truth, condition, holds, fun gainsFit lossesFit => ?_⟩
  obtain ⟨total, found⟩ :=
    Aggregate.summable_in_every_order_iff.mpr ⟨gainsFit, lossesFit⟩ reordered permuted
  have parts := (Aggregate.eval?_sum_eq_some_iff.mp found).1
  have fits : Representable items.sum := by
    rw [← permuted.sum_eq]
    exact parts reordered List.prefix_rfl
  rw [holds]
  exact ⟨fun both => ⟨fits, both.2⟩, fun both => ⟨parts, both.2⟩⟩

def equatesSum (order : List Nat) (total : Int) : Posting where
  primitive := .defining (.aggregate .sum)
  arguments := [.vars (order.map fun id => ⟨id, .int⟩), .int total]
  relation := some .eq

def assigns (numbers : List Int) : Assignment := fun id => numbers[id]?.map .int

theorem equatesSum_condition :
    (equatesSum [2, 0, 1] 9223372036854775802).condition?
      (assigns [9223372036854775806, 1, -5]) = some true := by
  have states : (equatesSum [2, 0, 1] 9223372036854775802).StatesSum
      (assigns [9223372036854775806, 1, -5]) [-5, 9223372036854775806, 1] .eq
      9223372036854775802 := ⟨rfl, rfl, rfl, rfl, rfl⟩
  have permuted : [-5, 9223372036854775806, 1].Perm [9223372036854775806, (1 : Int), -5] := by
    decide
  obtain ⟨truth, condition, _, agrees⟩ := condition?_sum permuted states
  rw [condition, (agrees (by decide) (by decide)).mpr (by decide)]

/-- The exact sum fits and equals the number, but the first two items leave the range on the way.
In another order the same items satisfy the posting. -/
theorem equatesSum_depends_on_order :
    Representable ([9223372036854775807, 1, -1] : List Int).sum ∧
      Relation.eq.compare ([9223372036854775807, 1, -1] : List Int).sum 9223372036854775807 = true ∧
      (equatesSum [0, 1, 2] 9223372036854775807).condition?
        (assigns [9223372036854775807, 1, -1]) = some false ∧
      (equatesSum [2, 0, 1] 9223372036854775807).condition?
        (assigns [9223372036854775807, 1, -1]) = some true := by
  decide

end Posting

end ConstraintCompiler
