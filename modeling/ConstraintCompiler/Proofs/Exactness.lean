import ConstraintCompiler.Proofs.Enumeration
import ConstraintCompiler.Proofs.Exploration
import ConstraintCompiler.Proofs.Recording

/-!
Contract: a search that no limit stops is exact.

Owns:
- `Search.nodeCount`, the nodes of such a search, counted by depth;
- `Search.Before`, the order of value lists by the positions of their values among the candidates;
- `Search.run_exact`: the solutions are the values of the domains under which every posting is
  true, each once and in this order, and the status tells whether there are any.
-/

namespace ConstraintCompiler.Search

/-! ### The product of the candidate lists -/

theorem mem_product_iff {domains : List Domain} {lists : List (List Value)}
    (enumerate : List.Forall₂ Enumerates domains lists) {values : List Value} :
    values ∈ product lists ↔ List.Forall₂ Domain.Contains domains values := by
  induction enumerate generalizing values with
  | nil => simp [product]
  | cons head _ inductionHypothesis =>
      simp only [product, List.mem_flatMap, List.mem_map, inductionHypothesis, head.mem_iff,
        List.forall₂_cons_left_iff]
      constructor
      · rintro ⟨value, contains, others, rest, rfl⟩
        exact ⟨value, others, contains, rest, rfl⟩
      · rintro ⟨value, others, contains, rest, rfl⟩
        exact ⟨value, contains, others, rest, rfl⟩

theorem nodup_of_mem_lists {domains : List Domain} {lists : List (List Value)}
    (enumerate : List.Forall₂ Enumerates domains lists) :
    ∀ candidates ∈ lists, candidates.Nodup := by
  intro candidates member
  obtain ⟨domain, _, enumerates⟩ := exists_of_mem_forall₂ enumerate.flip member
  exact enumerates.nodup

/-- Where the lists of values first differ, the value of the first comes earlier among the
candidates. -/
inductive Before : List (List Value) → List Value → List Value → Prop where
  | head {candidates : List Value} {lists : List (List Value)} {first second : Value}
      {firsts seconds : List Value}
      (earlier : candidates.idxOf first < candidates.idxOf second) :
      Before (candidates :: lists) (first :: firsts) (second :: seconds)
  | tail {candidates : List Value} {lists : List (List Value)} {value : Value}
      {firsts seconds : List Value} (later : Before lists firsts seconds) :
      Before (candidates :: lists) (value :: firsts) (value :: seconds)

theorem Before.ne {lists : List (List Value)} {first second : List Value}
    (before : Before lists first second) : first ≠ second := by
  induction before with
  | head earlier =>
      intro same
      rw [(List.cons.inj same).1] at earlier
      exact Nat.lt_irrefl _ earlier
  | tail _ inductionHypothesis => exact fun same => inductionHypothesis (List.cons.inj same).2

theorem pairwise_idxOf {candidates : List Value} (nodup : candidates.Nodup) :
    candidates.Pairwise fun first second =>
      candidates.idxOf first < candidates.idxOf second := by
  rw [List.pairwise_iff_getElem]
  intro first second firstSmall secondSmall less
  rw [nodup.idxOf_getElem, nodup.idxOf_getElem]
  exact less

theorem pairwise_product {lists : List (List Value)}
    (nodup : ∀ candidates ∈ lists, candidates.Nodup) : (product lists).Pairwise (Before lists) := by
  induction lists with
  | nil => exact List.pairwise_singleton _ _
  | cons candidates rest inductionHypothesis =>
      refine List.pairwise_flatMap.mpr ⟨fun value _ => ?_, ?_⟩
      · rw [List.pairwise_map]
        refine (inductionHypothesis fun other member => ?_).imp .tail
        exact nodup other (List.mem_cons_of_mem _ member)
      · apply (pairwise_idxOf (nodup candidates (List.mem_cons_self ..))).imp
        intro first second earlier firstValues firstMember secondValues secondMember
        obtain ⟨_, _, rfl⟩ := List.mem_map.mp firstMember
        obtain ⟨_, _, rfl⟩ := List.mem_map.mp secondMember
        exact .head earlier

/-! ### A search without limits -/

/-- For every depth, the consistent lists of that length with every candidate of the depth. -/
def nodeCount (lists : List (List Value)) (postings : List Posting) : Nat :=
  ∑ depth ∈ Finset.range lists.length,
    ((product (lists.take depth)).filter (consistent postings)).length *
      (lists.getD depth []).length

theorem extensions_root (postings : List Posting) (lists : List (List Value)) :
    extensions postings [] lists = (product lists).filter (consistent postings) := by
  simp [extensions]

theorem nodeCount_eq (lists : List (List Value)) (postings : List Posting) :
    nodeCount lists postings = ∑ depth ∈ Finset.range lists.length,
      (extensions postings [] (lists.take depth)).length * (lists.getD depth []).length := by
  simp only [nodeCount, extensions_root]

/-- A search without a limit on solutions that does not exceed its limit on nodes finds the
consistent members of the product. -/
theorem runOn_of_unlimited {settings : Settings} {lists : List (List Value)}
    {postings : List Posting} (unlimited : settings.maxSolutions = 0)
    (enough : nodeCount lists postings ≤ settings.nodeLimit) :
    (runOn settings lists postings).1 =
      { status := if (product lists).filter (consistent postings) = [] then .infeasible
          else .complete
        solutions := ((product lists).filter (consistent postings)).map Solution.mk
        nodes := nodeCount lists postings } := by
  rw [runOn, constantsHold_eq_consistent]
  rw [nodeCount_eq] at enough ⊢
  rw [← extensions_root]
  split
  · rename_i holds
    have counted := visits_trace holds lists
    have found := solutions_trace holds lists
    rw [List.length_nil, ← levels_eq_levelsFrom] at counted found
    rw [← counted] at enough ⊢
    have start : ({} : Progress).nodes + visits (trace (levels lists postings) []) =
        visits (trace (levels lists postings) []) := Nat.zero_add _
    obtain ⟨halt, nodes, solved⟩ :=
      foldl_advance_of_unlimited unlimited rfl (start.trans_le enough)
    rw [← explore_eq_foldl rfl] at halt nodes solved
    rw [found] at solved
    dsimp only [Progress.outcome]
    rw [nodes, start, solved, Progress.status, halt, solved]
    cases extensions postings [] lists <;> rfl
  · rename_i fails
    simp [extensions_of_inconsistent fails]

/-- A valid search of a problem that was put together by allocating and posting, without a limit on
solutions, without a seed, and with limits on domains and nodes that are not exceeded, finds the
members of the product of the domains under which every posting is true, in the order of their
candidates and each once. It reports completion if there are any, and infeasibility otherwise. -/
theorem run_exact (settings : Settings) (problem : Problem) (reachable : problem.Reachable)
    (valid : settings.fault? = none) (unlimited : settings.maxSolutions = 0)
    (unseeded : settings.seed = none) (lists : List (List Value))
    (listed : candidateLists settings.maxDomainSize problem.domains = .ok lists)
    (enough : nodeCount lists problem.postings ≤ settings.nodeLimit) :
    (run settings problem).1.solutions =
        ((product lists).filter fun values => problem.postings.all fun posting =>
          posting.verdict (assigning values) == some true).map Solution.mk ∧
      (∀ values, (⟨values⟩ : Solution) ∈ (run settings problem).1.solutions ↔
        List.Forall₂ Domain.Contains problem.domains values ∧
          ∀ posting ∈ problem.postings, posting.verdict (assigning values) = some true) ∧
      ((run settings problem).1.solutions.map Solution.values).Pairwise (Before lists) ∧
      (run settings problem).1.solutions.Nodup ∧
      (run settings problem).1.status =
        (if (run settings problem).1.solutions = [] then .infeasible else .complete) ∧
      (run settings problem).1.nodes = nodeCount lists problem.postings := by
  have enumerate := candidateLists_spec listed
  have complete : ∀ values ∈ product lists,
      consistent problem.postings values =
        problem.postings.all fun posting => posting.verdict (assigning values) == some true := by
    intro values member
    have length := ((mem_product_iff enumerate).mp member).length_eq
    rw [Bool.eq_iff_iff, consistent_iff]
    simp only [List.all_eq_true, beq_iff_eq]
    refine forall₂_congr fun posting recorded => ⟨fun holds => holds ?_, fun holds _ => holds⟩
    intro v mentioned
    rw [← length]
    exact reachable.mentions_lt recorded v mentioned
  have searched : (run settings problem).1 = (runOn settings lists problem.postings).1 := by
    rw [run, valid, listed]
    simp [unseeded]
  rw [searched, runOn_of_unlimited unlimited enough, List.filter_congr complete]
  have ordered := (pairwise_product (nodup_of_mem_lists enumerate)).filter
    fun values => problem.postings.all fun posting =>
      posting.verdict (assigning values) == some true
  refine ⟨rfl, fun values => ?_, ?_, ?_, ?_, rfl⟩
  · simp [mem_product_iff enumerate]
  · rw [List.map_map]
    exact (List.map_id _).symm ▸ ordered
  · exact List.Nodup.map (fun _ _ same => Solution.mk.inj same) (ordered.imp Before.ne)
  · simp only [List.map_eq_nil_iff]

def bindsBound : Posting where
  primitive := .relation
  arguments := [.var ⟨0, .int⟩, .int 1]
  relation := some .le
  target := some ⟨1, .bool⟩

def statesConstant : Posting where
  primitive := .relation
  arguments := [.int 1, .int 1]
  relation := some .eq

def boundOne : Problem := ⟨[.int 0 2, .bool], [bindsBound, statesConstant]⟩

theorem reachable_boundOne : boundOne.Reachable := by
  have allocated := (Problem.Reachable.empty.allocate (.int 0 2)).allocate .bool
  have first : Problem.post ⟨[.int 0 2, .bool], []⟩ bindsBound =
      .ok ⟨[.int 0 2, .bool], [bindsBound]⟩ := rfl
  have second : Problem.post ⟨[.int 0 2, .bool], [bindsBound]⟩ statesConstant = .ok boundOne := rfl
  exact (allocated.post first).post second

theorem boundOne_exact :
    boundOne.Reachable ∧
      nodeCount [[.int 0, .int 1, .int 2], [.bool false, .bool true]] boundOne.postings ≤ 9 ∧
      (run { maxSolutions := 0 } boundOne).1.solutions =
        [⟨[.int 0, .bool true]⟩, ⟨[.int 1, .bool true]⟩, ⟨[.int 2, .bool false]⟩] := by
  have counted : nodeCount [[.int 0, .int 1, .int 2], [.bool false, .bool true]]
      boundOne.postings ≤ 9 := by
    decide
  refine ⟨reachable_boundOne, counted, ?_⟩
  exact (run_exact { maxSolutions := 0 } boundOne reachable_boundOne rfl rfl rfl
    [[.int 0, .int 1, .int 2], [.bool false, .bool true]] rfl
    (counted.trans (by decide))).1

end ConstraintCompiler.Search
