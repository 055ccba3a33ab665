import ConstraintCompiler.Proofs.Locality
import Mathlib.Algebra.BigOperators.Group.Finset.Basic
import Mathlib.Algebra.BigOperators.Ring.Finset

/-!
Contract: what depth-first search does, step by step.

Owns:
- `Search.trace`, the nodes and solutions of a search that nothing stops, in order, and
  `Search.explore_eq_foldl`, that a search under limits is a fold along it;
- `Search.product`, the lists with one value from each candidate list, and `Search.consistent`,
  that every posting all of whose variables have values is true;
- `Search.solutions_trace` and `Search.visits_trace`, which solutions and how many nodes a trace
  has.

Does not own: which values a candidate list has.
-/

namespace ConstraintCompiler.Search

/-! ### The trace of a search -/

inductive Step where
  | visit
  | solution (values : List Value)

namespace Step

def solution? : Step → Option (List Value)
  | .visit => none
  | .solution values => some values

def isVisit : Step → Bool
  | .visit => true
  | .solution _ => false

end Step

def solutions (steps : List Step) : List (List Value) := steps.filterMap Step.solution?

def visits (steps : List Step) : Nat := steps.countP Step.isVisit

/-- Steps of a search of the levels that remain, below the values chosen so far, if nothing stops
it. -/
def trace : List Level → List Value → List Step
  | [], values => [.solution values]
  | level :: deeper, values =>
      level.candidates.flatMap fun value =>
        .visit ::
          if level.admits (values ++ [value]) then trace deeper (values ++ [value]) else []

namespace Progress

/-- Progress after one more step, if the search has not halted and does not halt before it. -/
def advance (settings : Settings) (progress : Progress) (step : Step) : Progress :=
  if progress.halt.isSome then progress
  else match step with
    | .visit =>
        if settings.nodeLimit ≤ progress.nodes then { progress with halt := some .nodeLimit }
        else progress.visit
    | .solution values => progress.record settings ⟨values⟩

theorem advance_of_halted {settings : Settings} {progress : Progress}
    (halted : progress.halt.isSome = true) (step : Step) :
    progress.advance settings step = progress :=
  if_pos halted

theorem foldl_advance_of_halted {settings : Settings} {progress : Progress}
    (halted : progress.halt.isSome = true) (steps : List Step) :
    steps.foldl (advance settings) progress = progress := by
  induction steps with
  | nil => rfl
  | cons step rest inductionHypothesis =>
      rw [List.foldl_cons, advance_of_halted halted]
      exact inductionHypothesis

end Progress

/-- A search under limits follows the trace until it halts. -/
theorem explore_eq_foldl {settings : Settings} {progress : Progress}
    (running : progress.halt = none) (levels : List Level) (values : List Value) :
    explore settings levels values progress =
      (trace levels values).foldl (Progress.advance settings) progress := by
  induction levels generalizing values progress with
  | nil => simp [explore, trace, Progress.advance, running]
  | cons level deeper inductionHypothesis =>
      rw [explore, trace, List.foldl_flatMap]
      clear running
      congr 1
      funext progress value
      rw [List.foldl_cons, Progress.advance]
      by_cases halted : progress.halt.isSome = true
      · rw [if_pos halted, if_pos halted, Progress.foldl_advance_of_halted halted]
      · rw [if_neg halted, if_neg halted]
        have running : progress.visit.halt = none := by
          simpa [Progress.visit] using halted
        by_cases limited : settings.nodeLimit ≤ progress.nodes
        · simp only [if_pos limited]
          rw [Progress.foldl_advance_of_halted rfl]
        · simp only [if_neg limited]
          split
          · exact inductionHypothesis running (values ++ [value])
          · rfl

/-- Without a limit on solutions, and with a limit on nodes that is not exceeded, a search takes
every step. -/
theorem foldl_advance_of_unlimited {settings : Settings} (unlimited : settings.maxSolutions = 0)
    {steps : List Step} {progress : Progress} (running : progress.halt = none)
    (enough : progress.nodes + visits steps ≤ settings.nodeLimit) :
    (steps.foldl (Progress.advance settings) progress).halt = none ∧
      (steps.foldl (Progress.advance settings) progress).nodes = progress.nodes + visits steps ∧
      (steps.foldl (Progress.advance settings) progress).solutions =
        progress.solutions ++ (solutions steps).map Solution.mk := by
  induction steps generalizing progress with
  | nil => exact ⟨running, rfl, (List.append_nil _).symm⟩
  | cons step rest inductionHypothesis =>
      rw [List.foldl_cons]
      cases step with
      | visit =>
          have counted : visits (.visit :: rest) = visits rest + 1 := List.countP_cons_of_pos rfl
          rw [counted] at enough ⊢
          have visited : progress.advance settings .visit = progress.visit := by
            have room : ¬settings.nodeLimit ≤ progress.nodes := by omega
            simp [Progress.advance, running, room]
          have stillRunning : progress.visit.halt = none := running
          have nodesVisited : progress.visit.nodes = progress.nodes + 1 := rfl
          obtain ⟨halt, nodes, found⟩ := inductionHypothesis stillRunning (by omega)
          rw [visited]
          exact ⟨halt, by omega, found⟩
      | solution values =>
          have counted : visits (.solution values :: rest) = visits rest :=
            List.countP_cons_of_neg (by simp [Step.isVisit])
          rw [counted] at enough ⊢
          have recorded : progress.advance settings (.solution values) =
              progress.record settings ⟨values⟩ := by
            simp [Progress.advance, running]
          have stillRunning : (progress.record settings ⟨values⟩).halt = none := by
            simp [Progress.record, unlimited, running]
          obtain ⟨halt, nodes, found⟩ := inductionHypothesis stillRunning enough
          rw [recorded]
          refine ⟨halt, nodes, found.trans ?_⟩
          simp [Progress.record, Progress.solutions, solutions, Step.solution?]

/-! ### Consistent values -/

/-- Every posting is true whose variables all have values. -/
def consistent (postings : List Posting) (values : List Value) : Bool :=
  postings.all fun posting =>
    !(posting.mentions.all fun v => v.id < values.length) ||
      posting.verdict (assigning values) == some true

theorem consistent_iff {postings : List Posting} {values : List Value} :
    consistent postings values = true ↔
      ∀ posting ∈ postings, (∀ v ∈ posting.mentions, v.id < values.length) →
        posting.verdict (assigning values) = some true := by
  simp only [consistent, List.all_eq_true, Bool.or_eq_true, Bool.not_eq_true', beq_iff_eq,
    ← Bool.not_eq_true, decide_eq_true_eq, ← imp_iff_not_or]

theorem constantsHold_eq_consistent (postings : List Posting) :
    constantsHold postings = consistent postings [] := by
  rw [Bool.eq_iff_iff, consistent_iff]
  simp only [constantsHold, List.all_eq_true, List.mem_filter, beq_iff_eq,
    Posting.lastMention?_eq_none_iff, and_imp, List.length_nil, Nat.not_lt_zero]
  refine forall₂_congr fun posting _ => imp_congr_left ?_
  rw [List.eq_nil_iff_forall_not_mem]

theorem consistent_of_append {postings : List Posting} {values rest : List Value}
    (holds : consistent postings (values ++ rest) = true) : consistent postings values = true := by
  rw [consistent_iff] at holds ⊢
  intro posting member reaches
  rw [← Posting.verdict_append reaches rest]
  apply holds posting member
  intro v mentioned
  rw [List.length_append]
  exact Nat.lt_add_right _ (reaches v mentioned)

def watching (postings : List Posting) (depth : Nat) (candidates : List Value) : Level :=
  ⟨candidates, postings.filter fun posting => posting.lastMention? == some depth⟩

/-- Where the values so far are consistent, checking the postings of a level is checking all. -/
theorem admits_watching {postings : List Posting} {values candidates : List Value}
    (holds : consistent postings values = true) (value : Value) :
    (watching postings values.length candidates).admits (values ++ [value]) =
      consistent postings (values ++ [value]) := by
  rw [Bool.eq_iff_iff, consistent_iff]
  rw [consistent_iff] at holds
  simp only [Level.admits, watching, List.all_eq_true, List.mem_filter, beq_iff_eq, and_imp,
    List.length_append, List.length_singleton]
  refine forall₂_congr fun posting member => ⟨fun watched reaches => ?_, fun checked last => ?_⟩
  · by_cases before : ∀ v ∈ posting.mentions, v.id < values.length
    · rw [Posting.verdict_append before]
      exact holds posting member before
    · refine watched (Posting.lastMention?_eq_some_iff.mpr ⟨?_, ?_⟩)
      · simp only [not_forall, Nat.not_lt] at before
        obtain ⟨v, mentioned, least⟩ := before
        exact ⟨v, mentioned, Nat.le_antisymm (Nat.le_of_lt_succ (reaches v mentioned)) least⟩
      · exact fun v mentioned => Nat.le_of_lt_succ (reaches v mentioned)
  · exact checked fun v mentioned =>
      Nat.lt_succ_of_le ((Posting.lastMention?_eq_some_iff.mp last).2 v mentioned)

/-! ### Products -/

/-- Lists with one value from each candidate list, the first value changing slowest. -/
def product : List (List Value) → List (List Value)
  | [] => [[]]
  | candidates :: rest => candidates.flatMap fun value => (product rest).map (value :: ·)

/-- Consistent lists that begin with the given values and go on with one from each candidate
list. -/
def extensions (postings : List Posting) (values : List Value) (lists : List (List Value)) :
    List (List Value) :=
  ((product lists).map (values ++ ·)).filter (consistent postings)

theorem extensions_nil (postings : List Posting) (values : List Value) :
    extensions postings values [] = if consistent postings values then [values] else [] := by
  simp [extensions, product, List.filter_cons]

theorem extensions_cons (postings : List Posting) (values candidates : List Value)
    (rest : List (List Value)) :
    extensions postings values (candidates :: rest) =
      candidates.flatMap fun value => extensions postings (values ++ [value]) rest := by
  simp [extensions, product, List.map_flatMap, List.filter_flatMap, Function.comp_def]

theorem extensions_of_inconsistent {postings : List Posting} {values : List Value}
    (fails : ¬consistent postings values = true) (lists : List (List Value)) :
    extensions postings values lists = [] := by
  rw [extensions, List.filter_eq_nil_iff]
  intro longer member holds
  obtain ⟨rest, _, rfl⟩ := List.mem_map.mp member
  exact fails (consistent_of_append holds)

/-! ### Levels -/

def levelsFrom (postings : List Posting) : Nat → List (List Value) → List Level
  | _, [] => []
  | depth, candidates :: rest =>
      watching postings depth candidates :: levelsFrom postings (depth + 1) rest

theorem levels_eq_levelsFrom (lists : List (List Value)) (postings : List Posting) :
    levels lists postings = levelsFrom postings 0 lists := by
  have startingAt : ∀ depth,
      (lists.zipIdx depth).map (fun entry => watching postings entry.2 entry.1) =
        levelsFrom postings depth lists := by
    induction lists with
    | nil => exact fun _ => rfl
    | cons candidates rest inductionHypothesis =>
        intro depth
        rw [List.zipIdx_cons, List.map_cons, inductionHypothesis]
        rfl
  exact startingAt 0

/-- Below consistent values, a search finds the consistent lists that begin with them. -/
theorem solutions_trace {postings : List Posting} {values : List Value}
    (holds : consistent postings values = true) (lists : List (List Value)) :
    solutions (trace (levelsFrom postings values.length lists) values) =
      extensions postings values lists := by
  induction lists generalizing values with
  | nil => simp [levelsFrom, trace, solutions, Step.solution?, extensions_nil, holds]
  | cons candidates rest inductionHypothesis =>
      rw [levelsFrom, trace, extensions_cons, solutions, List.filterMap_flatMap]
      apply List.flatMap_congr
      intro value _
      rw [admits_watching holds, List.filterMap_cons_none rfl]
      split
      · rename_i longer
        have found := inductionHypothesis longer
        rw [List.length_append, List.length_singleton] at found
        exact found
      · rename_i fails
        exact (extensions_of_inconsistent fails rest).symm

private theorem sum_exchange (candidates : List Value) (counts : Value → Nat → Nat)
    (widths : Nat → Nat) (depths : Nat) :
    (candidates.map fun value =>
        1 + ∑ depth ∈ Finset.range depths, counts value depth * widths depth).sum =
      (∑ depth ∈ Finset.range depths,
        (candidates.map fun value => counts value depth).sum * widths depth) +
          candidates.length := by
  induction candidates with
  | nil => simp
  | cons value rest inductionHypothesis =>
      simp only [List.map_cons, List.sum_cons, inductionHypothesis, List.length_cons, add_mul,
        Finset.sum_add_distrib]
      omega

/-- Below consistent values, a search tries every candidate of each depth after every consistent
list that begins with the values and ends before the depth. -/
theorem visits_trace {postings : List Posting} {values : List Value}
    (holds : consistent postings values = true) (lists : List (List Value)) :
    visits (trace (levelsFrom postings values.length lists) values) =
      ∑ depth ∈ Finset.range lists.length,
        (extensions postings values (lists.take depth)).length *
          (lists.getD depth []).length := by
  induction lists generalizing values with
  | nil => rfl
  | cons candidates rest inductionHypothesis =>
      have below : ∀ value, visits (.visit ::
          if (watching postings values.length candidates).admits (values ++ [value]) then
            trace (levelsFrom postings (values.length + 1) rest) (values ++ [value])
          else []) =
            1 + ∑ depth ∈ Finset.range rest.length,
              (extensions postings (values ++ [value]) (rest.take depth)).length *
                (rest.getD depth []).length := by
        intro value
        rw [admits_watching holds, visits, List.countP_cons_of_pos rfl, Nat.add_comm]
        split
        · rename_i longer
          have counted := inductionHypothesis longer
          rw [List.length_append, List.length_singleton] at counted
          exact congrArg (1 + ·) counted
        · rename_i fails
          simp [extensions_of_inconsistent fails]
      calc
        visits (trace (levelsFrom postings values.length (candidates :: rest)) values) =
            (candidates.map fun value => 1 + ∑ depth ∈ Finset.range rest.length,
              (extensions postings (values ++ [value]) (rest.take depth)).length *
                (rest.getD depth []).length).sum := by
          rw [levelsFrom, trace, visits, List.countP_flatMap]
          exact congrArg List.sum (List.map_congr_left fun value _ => below value)
        _ = (∑ depth ∈ Finset.range rest.length,
              (candidates.map fun value =>
                (extensions postings (values ++ [value]) (rest.take depth)).length).sum *
                  (rest.getD depth []).length) + candidates.length :=
          sum_exchange candidates _ _ _
        _ = ∑ depth ∈ Finset.range (candidates :: rest).length,
              (extensions postings values ((candidates :: rest).take depth)).length *
                ((candidates :: rest).getD depth []).length := by
          rw [List.length_cons, Finset.sum_range_succ']
          simp [extensions_cons, extensions_nil, holds, List.length_flatMap]

end ConstraintCompiler.Search
