import ConstraintCompiler.Proofs.Limits
import Mathlib.Data.List.Perm.Basic

/-!
Contract: an exhaustive search finds the same, in whatever order it tries values.

Owns:
- the laws of the order of values, by which solutions are sorted;
- `Search.Shuffles`, that candidate lists are rearranged one by one;
- `Search.runOn_by_values`: a search without a limit on solutions visits equally many nodes for
  rearranged candidates, and if it is not cut it finds the same solutions.

Does not own: searches that stop at a number of solutions. These depend on the order of values.
-/

namespace ConstraintCompiler

/-! ### The order of solutions -/

namespace Value

instance : Std.OrientedCmp Value.order where
  eq_swap {first second} := by
    cases first <;> cases second <;> simp only [order]
    case bool.bool | int.int | set.set => exact Std.OrientedCmp.eq_swap
    all_goals rfl

instance : Std.TransCmp Value.order where
  isLE_trans {first second third} firstLess secondLess := by
    cases first <;> cases second <;> cases third <;> simp only [order] at firstLess secondLess ⊢
    case bool.bool.bool | int.int.int | set.set.set =>
      exact Std.TransCmp.isLE_trans firstLess secondLess
    all_goals simp_all [kind, Kind.rank, compare, compareOfLessAndEq]

instance : Std.LawfulEqCmp Value.order where
  eq_of_compare {first second} same := by
    cases first <;> cases second <;> simp only [order] at same
    case bool.bool | int.int => rw [Std.LawfulEqCmp.eq_of_compare same]
    case set.set members other =>
      obtain ⟨elements, ascending⟩ := members
      obtain ⟨others, othersAscending⟩ := other
      obtain rfl : elements = others := Std.LawfulEqCmp.eq_of_compare same
      rfl
    all_goals cases same

end Value

namespace Solution

theorem precedes_trans {first second third : Solution} (earlier : first.precedes second = true)
    (later : second.precedes third = true) : first.precedes third = true :=
  Std.TransCmp.isLE_trans earlier later

theorem precedes_total (first second : Solution) :
    (first.precedes second || second.precedes first) = true := by
  have swapped : List.compareLex Value.order first.values second.values =
      (List.compareLex Value.order second.values first.values).swap := Std.OrientedCmp.eq_swap
  rw [precedes, precedes, swapped]
  cases List.compareLex Value.order second.values first.values <;> rfl

theorem precedes_antisymm {first second : Solution} (forward : first.precedes second = true)
    (backward : second.precedes first = true) : first = second := by
  have same : List.compareLex Value.order first.values second.values = .eq :=
    Std.OrientedCmp.isLE_antisymm forward backward
  exact congrArg mk (Std.LawfulEqCmp.eq_of_compare same)

theorem mergeSort_congr {first second : List Solution} (perm : first.Perm second) :
    first.mergeSort precedes = second.mergeSort precedes := by
  have sorted : ∀ solutions : List Solution,
      (solutions.mergeSort precedes).Pairwise fun first second => first.precedes second = true :=
    List.pairwise_mergeSort (fun _ _ _ => precedes_trans) precedes_total
  apply List.Perm.eq_of_pairwise (fun _ _ _ _ => precedes_antisymm) (sorted first) (sorted second)
  exact (List.mergeSort_perm first _).trans (perm.trans (List.mergeSort_perm second _).symm)

end Solution

namespace Search

/-! ### Rearranged candidates -/

def Shuffles (lists shuffled : List (List Value)) : Prop := List.Forall₂ List.Perm lists shuffled

theorem product_shuffled {lists shuffled : List (List Value)} (shuffles : Shuffles lists shuffled) :
    (product lists).Perm (product shuffled) := by
  induction shuffles with
  | nil => exact .refl _
  | @cons candidates others rest othersRest head _ inductionHypothesis =>
      calc
        (product (candidates :: rest)).Perm
            (candidates.flatMap fun value => (product othersRest).map (value :: ·)) :=
          List.Perm.flatMap_left _ fun value _ => inductionHypothesis.map (value :: ·)
        List.Perm _ (product (others :: othersRest)) := head.flatMap_right _

theorem length_getD_shuffled {lists shuffled : List (List Value)}
    (shuffles : Shuffles lists shuffled) (depth : Nat) :
    (lists.getD depth []).length = (shuffled.getD depth []).length := by
  induction shuffles generalizing depth with
  | nil => rfl
  | cons head _ inductionHypothesis =>
      cases depth with
      | zero => exact head.length_eq
      | succ depth => exact inductionHypothesis depth

/-- The number of consistent lists of each length does not depend on the order of candidates, and
neither does the number of candidates. -/
theorem nodeCount_shuffled {lists shuffled : List (List Value)} (shuffles : Shuffles lists shuffled)
    (postings : List Posting) : nodeCount shuffled postings = nodeCount lists postings := by
  rw [nodeCount, nodeCount, shuffles.length_eq]
  refine Finset.sum_congr rfl fun depth _ => ?_
  have prefixes :=
    (product_shuffled (List.forall₂_take depth shuffles)).filter (consistent postings)
  rw [prefixes.length_eq, length_getD_shuffled shuffles]

/-! ### Searches -/

/-- A search of rearranged candidates that is not cut finds the same solutions. -/
theorem runOn_shuffled {settings : Settings} (unlimited : settings.maxSolutions = 0)
    {lists shuffled : List (List Value)} (shuffles : Shuffles lists shuffled)
    {postings : List Posting} (enough : nodeCount lists postings ≤ settings.nodeLimit) :
    (runOn settings shuffled postings).1.status = (runOn settings lists postings).1.status ∧
      (runOn settings shuffled postings).1.solutions.Perm
        (runOn settings lists postings).1.solutions := by
  have enoughShuffled : nodeCount shuffled postings ≤ settings.nodeLimit :=
    (nodeCount_shuffled shuffles postings).trans_le enough
  have consistentSame := ((product_shuffled shuffles).filter (consistent postings)).symm
  rw [runOn_of_unlimited unlimited enough, runOn_of_unlimited unlimited enoughShuffled]
  refine ⟨?_, consistentSame.map Solution.mk⟩
  simp only [← List.length_eq_zero_iff, consistentSame.length_eq]

/-- A search of rearranged candidates that is not cut finds every solution once. -/
theorem nodup_runOn_shuffled {settings : Settings} (unlimited : settings.maxSolutions = 0)
    {domains : List Domain} {lists shuffled : List (List Value)}
    (enumerate : List.Forall₂ Enumerates domains lists) (shuffles : Shuffles lists shuffled)
    {postings : List Posting} (enough : nodeCount lists postings ≤ settings.nodeLimit) :
    (runOn settings shuffled postings).1.solutions.Nodup := by
  have productNodup : (product lists).Nodup :=
    (pairwise_product (nodup_of_mem_lists enumerate)).imp Before.ne
  have found : (runOn settings lists postings).1.solutions.Nodup := by
    rw [runOn_of_unlimited unlimited enough]
    exact (productNodup.filter _).map fun _ _ same => Solution.mk.inj same
  exact (runOn_shuffled unlimited shuffles enough).2.nodup_iff.mpr found

/-- A search without a limit on solutions visits as many nodes for rearranged candidates, and is cut
by the limit on nodes either way or not at all. If it is not cut, it reports the same status and the
same solutions, each once. A search of the problem without a seed tries the candidates as they are
listed; with a seed, it reports the solutions that are found for rearranged candidates, sorted. -/
theorem runOn_by_values (settings : Settings) (problem : Problem)
    (unlimited : settings.maxSolutions = 0) (lists : List (List Value))
    (listed : candidateLists settings.maxDomainSize problem.domains = .ok lists)
    (shuffled : List (List Value)) (shuffles : Shuffles lists shuffled) :
    let straight := (runOn settings lists problem.postings).1
    let other := (runOn settings shuffled problem.postings).1
    other.nodes = straight.nodes ∧
      (other.IsCut ↔ straight.IsCut) ∧
      (¬straight.IsCut →
        other.status = straight.status ∧ other.solutions.Perm straight.solutions ∧
          other.solutions.Nodup) ∧
      (settings.fault? = none →
        (settings.seed = none → (run settings problem).1 = straight) ∧
          (settings.seed ≠ none → ¬straight.IsCut →
            (run settings problem).1 = other.sorted)) := by
  intro straight other
  have straightTruncates := runOn_truncates settings lists problem.postings
  have otherTruncates := runOn_truncates settings shuffled problem.postings
  rw [nodeCount_shuffled shuffles] at otherTruncates
  have nodes : other.nodes = straight.nodes :=
    (otherTruncates.nodes_eq unlimited).trans (straightTruncates.nodes_eq unlimited).symm
  have same : ¬straight.IsCut →
      other.status = straight.status ∧ other.solutions.Perm straight.solutions := fun finished =>
    runOn_shuffled unlimited shuffles (nodeCount_le_of_not_isCut unlimited finished)
  refine ⟨nodes, ?_, fun finished => ⟨(same finished).1, (same finished).2, ?_⟩, fun valid => ?_⟩
  · have otherCut := otherTruncates.limited_iff unlimited
    exact otherCut.trans (straightTruncates.limited_iff unlimited).symm
  · exact nodup_runOn_shuffled unlimited (candidateLists_spec listed) shuffles
      (nodeCount_le_of_not_isCut unlimited finished)
  · rw [run_of_listed valid listed]
    refine ⟨fun unseeded => by rw [unseeded]; rfl, fun seeded finished => ?_⟩
    obtain ⟨status, perm⟩ := same finished
    rw [if_pos (Option.isSome_iff_ne_none.mpr seeded), Outcome.sorted, Outcome.sorted, status,
      nodes, Solution.mergeSort_congr perm]

/-- The candidates of the integer and of the truth value are rearranged. -/
theorem boundOne_by_values :
    let lists : List (List Value) := [[.int 0, .int 1, .int 2], [.bool false, .bool true]]
    let shuffled : List (List Value) := [[.int 2, .int 0, .int 1], [.bool true, .bool false]]
    candidateLists 65536 boundOne.domains = .ok lists ∧ Shuffles lists shuffled ∧
      (runOn { maxSolutions := 0, nodeLimit := 6 } shuffled boundOne.postings).1.nodes = 6 ∧
      (runOn { maxSolutions := 0 } shuffled boundOne.postings).1.solutions.Perm
        [⟨[.int 0, .bool true]⟩, ⟨[.int 1, .bool true]⟩, ⟨[.int 2, .bool false]⟩] := by
  intro lists shuffled
  have shuffles : Shuffles lists shuffled := .cons (by decide) (.cons (by decide) .nil)
  obtain ⟨nodes, -⟩ := runOn_by_values { maxSolutions := 0, nodeLimit := 6 } boundOne rfl lists rfl
    shuffled shuffles
  obtain ⟨-, -, same, -⟩ := runOn_by_values { maxSolutions := 0 } boundOne rfl lists rfl shuffled
    shuffles
  exact ⟨rfl, shuffles, nodes.trans (by decide), (same (by decide)).2.1⟩

end Search

end ConstraintCompiler
