import ConstraintCompiler.Proofs.PostingOrder
import ConstraintCompiler.Proofs.Recording
import ConstraintCompiler.Proofs.Simulation

/-!
Contract: searches of recorded problems stay within bounds.

Owns:
- `Problem.applyAll`, the problem that allocations and postings make of another one, where refused
  postings change nothing;
- `Search.contains_of_solution`, that a search in any order of candidates finds values of the
  domains only;
- `Search.recorded_in_bounds`: recorded postings mention known variables, now and later, and a
  machine search of the problem stays within bounds.

Does not own: what the machine computes on the way.
-/

namespace ConstraintCompiler

namespace Problem

inductive Operation where
  | allocate (domain : Domain)
  | post (posting : Posting)

def Operation.Fits : Operation → Prop
  | .allocate domain => domain.Fits
  | .post _ => True

/-- The problem after an operation. A refused posting changes nothing. -/
def apply (problem : Problem) : Operation → Problem
  | .allocate domain => problem.allocate domain
  | .post posting =>
      match problem.post posting with
      | .ok next => next
      | .error _ => problem

def applyAll (problem : Problem) (operations : List Operation) : Problem :=
  operations.foldl apply problem

section Operations

variable {problem : Problem}

/-- An operation allocates at the end, records at the end, or does nothing. -/
theorem apply_cases (operation : Operation) :
    (∃ domain, operation = .allocate domain ∧
        problem.apply operation = problem.allocate domain) ∨
      (∃ posting, problem.post posting = .ok (problem.apply operation)) ∨
      problem.apply operation = problem := by
  cases operation with
  | allocate domain => exact .inl ⟨domain, rfl, rfl⟩
  | post posting =>
      rw [apply]
      cases posted : problem.post posting with
      | ok next => exact .inr (.inl ⟨posting, posted⟩)
      | error rejection => exact .inr (.inr rfl)

theorem Reachable.apply (reachable : problem.Reachable) (operation : Operation) :
    (problem.apply operation).Reachable := by
  rcases apply_cases operation with ⟨domain, -, allocated⟩ | ⟨posting, posted⟩ | same
  · rw [allocated]
    exact reachable.allocate domain
  · exact reachable.post posted
  · rw [same]
    exact reachable

theorem Reachable.applyAll (reachable : problem.Reachable) (operations : List Operation) :
    (problem.applyAll operations).Reachable := by
  induction operations generalizing problem with
  | nil => exact reachable
  | cons operation rest inductionHypothesis => exact inductionHypothesis (reachable.apply operation)

theorem postings_prefix_apply (operation : Operation) :
    problem.postings <+: (problem.apply operation).postings := by
  rcases apply_cases operation with ⟨domain, -, allocated⟩ | ⟨posting, posted⟩ | same
  · rw [allocated]
    exact List.prefix_rfl
  · rw [(post_eq_ok.mp posted).2]
    exact List.prefix_append _ _
  · rw [same]

theorem postings_prefix_applyAll (operations : List Operation) :
    problem.postings <+: (problem.applyAll operations).postings := by
  induction operations generalizing problem with
  | nil => exact List.prefix_rfl
  | cons operation rest inductionHypothesis =>
      exact (postings_prefix_apply operation).trans inductionHypothesis

theorem fits_apply (fit : ∀ domain ∈ problem.domains, domain.Fits) {operation : Operation}
    (fits : operation.Fits) : ∀ domain ∈ (problem.apply operation).domains, domain.Fits := by
  rcases apply_cases operation with ⟨domain, rfl, allocated⟩ | ⟨posting, posted⟩ | same
  · rw [allocated]
    intro other member
    rcases List.mem_append.mp member with earlier | last
    · exact fit other earlier
    · rw [List.mem_singleton.mp last]
      exact fits
  · rw [(post_eq_ok.mp posted).2]
    exact fit
  · rw [same]
    exact fit

theorem fits_applyAll (fit : ∀ domain ∈ problem.domains, domain.Fits)
    {operations : List Operation} (fits : ∀ operation ∈ operations, operation.Fits) :
    ∀ domain ∈ (problem.applyAll operations).domains, domain.Fits := by
  induction operations generalizing problem with
  | nil => exact fit
  | cons operation rest inductionHypothesis =>
      apply inductionHypothesis (fits_apply fit (fits operation (List.mem_cons_self ..)))
      exact fun other member => fits other (List.mem_cons_of_mem _ member)

/-- A recorded posting mentions variables by the kinds of their domains. -/
theorem Reachable.kind_of_mentioned (reachable : problem.Reachable) {posting : Posting}
    (recorded : posting ∈ problem.postings) {v : Variable} (mentioned : v ∈ posting.mentions) :
    ∃ known : v.id < problem.domains.length, problem.domains[v.id].kind = v.kind := by
  have accepted := objection?_eq_none_iff.mp (reachable.accepted posting recorded)
  obtain ⟨domain, found, kind⟩ := variableObjection?_eq_none_iff.mp (accepted.1 v mentioned)
  obtain ⟨known, listed⟩ := List.getElem?_eq_some_iff.mp found
  refine ⟨known, ?_⟩
  rw [listed, kind]

end Operations

end Problem

namespace Search

/-- Whatever the order of the candidates and whatever the limits, the values of a solution lie in
the domains. -/
theorem contains_of_solution {domains : List Domain} {lists shuffled : List (List Value)}
    (enumerate : List.Forall₂ Enumerates domains lists) (shuffles : Shuffles lists shuffled)
    {settings : Settings} {postings : List Posting} {solution : Solution}
    (found : solution ∈ (runOn settings shuffled postings).1.solutions) :
    List.Forall₂ Domain.Contains domains solution.values := by
  have searched := (runOn_truncates settings shuffled postings).begins.subset found
  obtain ⟨values, consistent, rfl⟩ := List.mem_map.mp searched
  have member := (product_shuffled shuffles).mem_iff.mpr (List.mem_filter.mp consistent).1
  exact (mem_product_iff enumerate).mp member

theorem contains_of_run {settings : Settings} {problem : Problem} {solution : Solution}
    (found : solution ∈ (run settings problem).1.solutions) :
    List.Forall₂ Domain.Contains problem.domains solution.values := by
  cases valid : settings.fault? with
  | some fault =>
      rw [run, valid] at found
      exact absurd found List.not_mem_nil
  | none =>
      cases listed : candidateLists settings.maxDomainSize problem.domains with
      | error oversize =>
          rw [run, valid, listed] at found
          exact absurd found List.not_mem_nil
      | ok lists =>
          have straight : Shuffles lists lists :=
            List.forall₂_same.mpr fun values _ => .refl values
          have searched : solution ∈ (runOn settings lists problem.postings).1.solutions := by
            rw [run_of_listed valid listed] at found
            split at found
            · exact List.mem_mergeSort.mp found
            · exact found
          exact contains_of_solution (candidateLists_spec listed) straight searched

theorem shuffles_ordered {shuffle : Nat → List (List Value) → List (List Value)}
    (shuffles : ∀ seed lists, Shuffles lists (shuffle seed lists)) (settings : Settings)
    (lists : List (List Value)) : Shuffles lists (Machine.ordered settings shuffle lists) := by
  unfold Machine.ordered
  split
  · exact List.forall₂_same.mpr fun candidates _ => .refl candidates
  · exact shuffles _ lists

/-- A machine search of known variables has an outcome, whatever the limits, the clock and the
order of candidates are. -/
theorem exists_run? {settings : Settings} {problem : Problem}
    (fit : ∀ domain ∈ problem.domains, domain.Fits)
    (known : ∀ posting ∈ problem.postings, ∀ v ∈ posting.mentions, v.id < problem.size)
    (limitFits : settings.nodeLimit < 2 ^ Machine.wordBits) (elapsed : Nat → Int)
    {shuffle : Nat → List (List Value) → List (List Value)}
    (shuffles : ∀ seed lists, Shuffles lists (shuffle seed lists)) :
    ∃ outcome, Machine.run? settings elapsed shuffle problem = some outcome ∧
      outcome.nodes ≤ settings.nodeLimit ∧
      (settings.seed = none → (∀ nodes, elapsed nodes < settings.timeLimit) →
        outcome = (run settings problem).1) ∧
      ∀ solution ∈ outcome.solutions,
        List.Forall₂ Domain.Contains problem.domains solution.values := by
  cases valid : settings.fault? with
  | some fault =>
      refine ⟨_, Machine.run?_of_fault valid, Nat.zero_le _, fun _ _ => ?_, ?_⟩
      · rw [run, valid]
      · exact fun solution found => absurd found List.not_mem_nil
  | none =>
      cases listed : candidateLists settings.maxDomainSize problem.domains with
      | error oversize =>
          refine ⟨_, Machine.run?_of_oversize fit valid listed, Nat.zero_le _, fun _ _ => ?_, ?_⟩
          · rw [run, valid, listed]
          · exact fun solution found => absurd found List.not_mem_nil
      | ok lists =>
          have enumerate := candidateLists_spec listed
          have reordered := shuffles_ordered shuffles settings lists
          have count : (Machine.ordered settings shuffle lists).length = problem.size :=
            reordered.length_eq.symm.trans enumerate.length_eq.symm
          refine ⟨_, Machine.run?_eq fit limitFits valid listed count known, ?_, ?_, ?_⟩
          · have truncates := runOn_truncates (Machine.budgeted settings elapsed)
              (Machine.ordered settings shuffle lists) problem.postings
            exact truncates.nodes_le.trans (Machine.budget_le settings elapsed)
          · intro unseeded early
            have whole : Machine.budgeted settings elapsed = settings := by
              rw [Machine.budgeted, Machine.budget_of_early early]
            have straight : Machine.ordered settings shuffle lists = lists := by
              rw [Machine.ordered, unseeded]
            rw [run_of_listed valid listed, whole, straight, unseeded]
            rfl
          · exact fun solution found => contains_of_solution enumerate reordered found

/-- Take any allocations and attempts to post, with integer ranges between 64-bit integers. What
they record stays recorded, and mentions allocated variables by the kinds of their domains, whatever
is done later. A machine search of the resulting problem, under any limits that fit in a word, any
clock, and any rearrangement of candidates, stays within bounds and within its limit on nodes.
Without a seed and before the time limit, it is the search of the problem. The solutions of both
have exactly one value for each variable, which lies in its domain. -/
theorem recorded_in_bounds (operations : List Problem.Operation)
    (fits : ∀ operation ∈ operations, operation.Fits) (settings : Settings)
    (limitFits : settings.nodeLimit < 2 ^ Machine.wordBits) (elapsed : Nat → Int)
    (shuffle : Nat → List (List Value) → List (List Value))
    (shuffles : ∀ seed lists, Shuffles lists (shuffle seed lists)) :
    let problem := Problem.applyAll {} operations
    (∀ later : List Problem.Operation,
        problem.postings <+: (problem.applyAll later).postings ∧
          ∀ posting ∈ (problem.applyAll later).postings, ∀ v ∈ posting.mentions,
            ∃ known : v.id < (problem.applyAll later).domains.length,
              (problem.applyAll later).domains[v.id].kind = v.kind) ∧
      ∃ outcome, Machine.run? settings elapsed shuffle problem = some outcome ∧
        outcome.nodes ≤ settings.nodeLimit ∧
        (settings.seed = none → (∀ nodes, elapsed nodes < settings.timeLimit) →
          outcome = (run settings problem).1) ∧
        ∀ reported ∈ [outcome, (run settings problem).1], ∀ solution ∈ reported.solutions,
          solution.values.length = problem.size ∧
            List.Forall₂ Domain.Contains problem.domains solution.values := by
  intro problem
  have reachable : problem.Reachable := Problem.Reachable.empty.applyAll operations
  have fit : ∀ domain ∈ problem.domains, domain.Fits :=
    Problem.fits_applyAll (fun _ member => absurd member List.not_mem_nil) fits
  have known : ∀ posting ∈ problem.postings, ∀ v ∈ posting.mentions, v.id < problem.size :=
    fun posting recorded => reachable.mentions_lt recorded
  constructor
  · intro later
    exact ⟨Problem.postings_prefix_applyAll later, fun posting recorded v mentioned =>
      (reachable.applyAll later).kind_of_mentioned recorded mentioned⟩
  · obtain ⟨outcome, ran, nodes, straight, contains⟩ :=
      exists_run? fit known limitFits elapsed shuffles
    refine ⟨outcome, ran, nodes, straight, ?_⟩
    intro reported member solution found
    have lies : List.Forall₂ Domain.Contains problem.domains solution.values := by
      rcases List.mem_pair.mp member with rfl | rfl
      · exact contains solution found
      · exact contains_of_run found
    exact ⟨lies.length_eq.symm, lies⟩

def statesMinimum : Posting where
  primitive := .relation
  arguments := [.var ⟨0, .int⟩, .int 1]
  relation := some .ge

/-- The second variable is a set, which the first posting takes for a truth value. -/
def singleValues : List Problem.Operation :=
  [.allocate (.int 3 3), .allocate (.set (.ofList [1]) (.ofList [1])), .post bindsBound,
    .post statesMinimum]

theorem singleValues_in_bounds :
    let problem := Problem.applyAll {} singleValues
    let settings : Settings :=
      { maxSolutions := 0, nodeLimit := 18446744073709551615, seed := some 7 }
    (∀ operation ∈ singleValues, operation.Fits) ∧
      settings.nodeLimit < 2 ^ Machine.wordBits ∧
      problem.postings = [statesMinimum] ∧
      ∃ outcome, Machine.run? settings (fun nodes => 3 * nodes)
          (fun _ lists => lists.map List.reverse) problem = some outcome ∧
        outcome.nodes ≤ 18446744073709551615 ∧
        outcome.solutions = [⟨[.int 3, .set (.ofList [1])]⟩] ∧
        ∀ solution ∈ outcome.solutions, solution.values.length = 2 := by
  intro problem settings
  have fits : ∀ operation ∈ singleValues, operation.Fits := by
    simp [singleValues, Problem.Operation.Fits, Domain.Fits, Representable]
  have shuffles : ∀ (_ : Nat) lists, Shuffles lists (lists.map List.reverse) := by
    intro _ lists
    exact List.forall₂_map_right_iff.mpr
      (List.forall₂_same.mpr fun values _ => values.reverse_perm.symm)
  obtain ⟨-, outcome, ran, nodes, -, solved⟩ := recorded_in_bounds singleValues fits settings
    (by decide) (fun nodes => 3 * nodes) (fun _ lists => lists.map List.reverse) shuffles
  refine ⟨fits, by decide, by decide, outcome, ran, nodes, ?_, fun solution found => ?_⟩
  · have expected : Machine.run? settings (fun nodes => 3 * nodes)
        (fun _ lists => lists.map List.reverse) problem =
          some ⟨.complete, [⟨[.int 3, .set (.ofList [1])]⟩], 2⟩ := by
      decide
    rw [Option.some.inj (ran.symm.trans expected)]
  · exact (solved outcome (List.mem_cons_self ..) solution found).1

/-- A posting of a variable that was never allocated leaves the watch lists. -/
example : Machine.run? {} (fun _ => 0) (fun _ lists => lists) ⟨[.bool], [statesBound]⟩ = none := by
  decide

end Search

end ConstraintCompiler
