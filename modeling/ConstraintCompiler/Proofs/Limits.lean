import ConstraintCompiler.Proofs.Exactness

/-!
Contract: what a search under limits makes of the search that nothing stops.

Owns:
- `Search.Progress.Follows`, how far a search got along the steps ahead of it, and why it went no
  further;
- `Search.Outcome.Truncates`, what an outcome under limits says about the outcome without them;
- `Search.run_truncates`: every valid search without a seed truncates the search that visits all
  nodes and keeps all solutions.
-/

namespace ConstraintCompiler.Search

/-! ### Along the trace -/

theorem visits_append (first second : List Step) :
    visits (first ++ second) = visits first + visits second :=
  List.countP_append

theorem solutions_append (first second : List Step) :
    solutions (first ++ second) = solutions first ++ solutions second :=
  List.filterMap_append

namespace Progress

structure IsRunning (settings : Settings) (progress : Progress) : Prop where
  running : progress.halt = none
  nodes_le : progress.nodes ≤ settings.nodeLimit
  room : settings.maxSolutions ≠ 0 → progress.found.size < settings.maxSolutions

/-- The search went on from the first progress to the second by taking some of the steps ahead of
it. It left some out only if it halted: at the limit on nodes in front of another visit, or at the
limit on solutions. -/
structure Follows (settings : Settings) (progress after : Progress) (taken left : List Step) :
    Prop where
  nodes_eq : after.nodes = progress.nodes + visits taken
  found_eq : after.solutions = progress.solutions ++ (Search.solutions taken).map Solution.mk
  nodes_le : after.nodes ≤ settings.nodeLimit
  found_le : settings.maxSolutions ≠ 0 → after.found.size ≤ settings.maxSolutions
  exhausted : after.halt = none → left = []
  limited : after.halt = some .nodeLimit → after.nodes = settings.nodeLimit ∧ 0 < visits left
  enough : after.halt = some .enoughSolutions →
    settings.maxSolutions ≠ 0 ∧ after.found.size = settings.maxSolutions

theorem length_solutions (progress : Progress) :
    progress.solutions.length = progress.found.size := by
  rw [solutions, List.length_map, Array.length_toList]

section Record

variable {settings : Settings} {progress : Progress} (values : List Value)

theorem solutions_record :
    (progress.record settings ⟨values⟩).solutions = progress.solutions ++ [⟨values⟩] := by
  simp [record, solutions]

/-- Recording a solution either reaches the limit on solutions and halts, or leaves the search
running. -/
theorem record_cases (isRunning : progress.IsRunning settings) :
    (progress.record settings ⟨values⟩).IsRunning settings ∨
      (progress.record settings ⟨values⟩).halt = some .enoughSolutions ∧
        settings.maxSolutions ≠ 0 ∧
        (progress.record settings ⟨values⟩).found.size = settings.maxSolutions := by
  have size : (progress.record settings ⟨values⟩).found.size = progress.found.size + 1 :=
    Array.size_push _
  by_cases limit : settings.maxSolutions ≠ 0 ∧ settings.maxSolutions ≤ progress.found.size + 1
  · refine .inr ⟨?_, limit.1, ?_⟩
    · simp [record, limit]
    · have room := isRunning.room limit.1
      omega
  · have below : settings.maxSolutions ≠ 0 → progress.found.size + 1 < settings.maxSolutions :=
      fun bounded => Nat.lt_of_not_le fun reached => limit ⟨bounded, reached⟩
    refine .inl ⟨?_, isRunning.nodes_le, fun bounded => size.trans_lt (below bounded)⟩
    simpa [record, isRunning.running] using below

end Record

/-- A running search follows the steps ahead of it as far as its limits allow. -/
theorem exists_follows {settings : Settings} {progress : Progress}
    (isRunning : progress.IsRunning settings) (steps : List Step) :
    ∃ taken left, steps = taken ++ left ∧
      progress.Follows settings (steps.foldl (advance settings) progress) taken left := by
  induction steps generalizing progress with
  | nil =>
      refine ⟨[], [], rfl, rfl, (List.append_nil _).symm, isRunning.nodes_le, ?_, fun _ => rfl,
        ?_, ?_⟩
      · exact fun bounded => Nat.le_of_lt (isRunning.room bounded)
      · exact fun halted => absurd (halted.symm.trans isRunning.running) (Option.some_ne_none _)
      · exact fun halted => absurd (halted.symm.trans isRunning.running) (Option.some_ne_none _)
  | cons step rest inductionHypothesis =>
      rw [List.foldl_cons]
      cases step with
      | visit =>
          by_cases limit : settings.nodeLimit ≤ progress.nodes
          · have halts : progress.advance settings .visit =
                { progress with halt := some .nodeLimit } := by
              simp [advance, isRunning.running, limit]
            rw [halts, foldl_advance_of_halted rfl]
            refine ⟨[], .visit :: rest, rfl, rfl, (List.append_nil _).symm, isRunning.nodes_le, ?_,
              fun exhausted => absurd exhausted (Option.some_ne_none _), fun _ => ⟨?_, ?_⟩,
              fun enough => absurd enough (by simp)⟩
            · exact fun bounded => Nat.le_of_lt (isRunning.room bounded)
            · exact Nat.le_antisymm isRunning.nodes_le limit
            · exact List.countP_pos_iff.mpr ⟨.visit, List.mem_cons_self .., rfl⟩
          · have visits : progress.advance settings .visit = progress.visit := by
              simp [advance, isRunning.running, limit]
            have visited : progress.visit.IsRunning settings :=
              ⟨isRunning.running, Nat.succ_le_of_lt (Nat.lt_of_not_le limit), isRunning.room⟩
            obtain ⟨taken, left, rfl, follows⟩ := inductionHypothesis visited
            rw [visits]
            refine ⟨.visit :: taken, left, rfl, ?_, follows.found_eq, follows.nodes_le,
              follows.found_le, follows.exhausted, follows.limited, follows.enough⟩
            rw [follows.nodes_eq, Search.visits, Search.visits, List.countP_cons_of_pos rfl]
            show progress.nodes + 1 + _ = _
            omega
      | solution values =>
          have records : progress.advance settings (.solution values) =
              progress.record settings ⟨values⟩ := by
            simp [advance, isRunning.running]
          rw [records]
          rcases record_cases values isRunning with stillRunning | ⟨halted, bounded, reached⟩
          · obtain ⟨taken, left, rfl, follows⟩ := inductionHypothesis stillRunning
            refine ⟨.solution values :: taken, left, rfl, follows.nodes_eq, ?_, follows.nodes_le,
              follows.found_le, follows.exhausted, follows.limited, follows.enough⟩
            rw [follows.found_eq, solutions_record, List.append_assoc]
            rfl
          · have stopped : (progress.record settings ⟨values⟩).halt.isSome = true := by
              rw [halted]
              rfl
            rw [foldl_advance_of_halted stopped]
            refine ⟨[.solution values], rest, rfl, rfl, solutions_record values, isRunning.nodes_le,
              fun _ => Nat.le_of_eq reached, ?_, ?_, fun _ => ⟨bounded, reached⟩⟩
            · exact fun exhausted => absurd (halted.symm.trans exhausted) (Option.some_ne_none _)
            · exact fun limited => absurd (halted.symm.trans limited) (by decide)

end Progress

/-! ### Outcomes -/

/-- Under its limits a search reports this, where the search without them has the given solutions
and number of nodes. -/
structure Outcome.Truncates (settings : Settings) (outcome : Outcome) (full : List Solution)
    (total : Nat) : Prop where
  begins : outcome.solutions <+: full
  found_le : settings.maxSolutions ≠ 0 → outcome.solutions.length ≤ settings.maxSolutions
  nodes_le : outcome.nodes ≤ settings.nodeLimit
  nodes_eq : settings.maxSolutions = 0 → outcome.nodes = min total settings.nodeLimit
  limited_iff : settings.maxSolutions = 0 →
    ((outcome.status = .timeout ∨ outcome.status = .feasible) ↔ settings.nodeLimit < total)
  searched : outcome.status ≠ .modelInvalid
  complete : outcome.status = .complete → outcome.solutions = full
  infeasible : outcome.status = .infeasible → full = []
  timeout : outcome.status = .timeout →
    outcome.solutions = [] ∧ outcome.nodes = settings.nodeLimit ∧ settings.nodeLimit < total
  feasible : outcome.status = .feasible →
    outcome.solutions ≠ [] ∧
      (settings.maxSolutions ≠ 0 ∧ outcome.solutions.length = settings.maxSolutions ∨
        outcome.nodes = settings.nodeLimit)

def Outcome.IsCut (outcome : Outcome) : Prop :=
  outcome.status = .timeout ∨ outcome.status = .feasible

instance (outcome : Outcome) : Decidable outcome.IsCut :=
  inferInstanceAs (Decidable (_ ∨ _))

namespace Progress

/-- With something found, the status tells whether the search halted. -/
theorem status_of_found {progress : Progress} (found : progress.solutions ≠ [])
    {halt : Option Halt} (halted : progress.halt = halt) :
    progress.status = if halt.isSome then .feasible else .complete := by
  obtain ⟨first, rest, solutions⟩ := List.exists_cons_of_ne_nil found
  rw [status, solutions, halted]
  cases halt <;> rfl

section FromTheBeginning

variable {settings : Settings} {progress : Progress} {taken left : List Step}
  (follows : Follows settings {} progress taken left)

include follows

theorem Follows.of_running (running : progress.halt = none) :
    progress.solutions = (Search.solutions (taken ++ left)).map Solution.mk ∧
      progress.nodes = visits (taken ++ left) := by
  rw [follows.exhausted running, List.append_nil]
  exact ⟨follows.found_eq, follows.nodes_eq.trans (Nat.zero_add _)⟩

theorem Follows.of_limited (halted : progress.halt = some .nodeLimit) :
    progress.nodes = settings.nodeLimit ∧ settings.nodeLimit < visits (taken ++ left) := by
  obtain ⟨limit, more⟩ := follows.limited halted
  have nodes : progress.nodes = visits taken := follows.nodes_eq.trans (Nat.zero_add _)
  rw [visits_append]
  exact ⟨limit, by omega⟩

/-- What each status says about the steps that were taken. -/
theorem Follows.status_cases :
    progress.status = .timeout ∧ progress.solutions = [] ∧
        progress.nodes = settings.nodeLimit ∧ settings.nodeLimit < visits (taken ++ left) ∨
      (progress.status = .infeasible ∧ progress.solutions = [] ∨
          progress.status = .complete ∧ progress.solutions ≠ []) ∧
        progress.solutions = (Search.solutions (taken ++ left)).map Solution.mk ∧
        progress.nodes = visits (taken ++ left) ∨
      progress.status = .feasible ∧ progress.solutions ≠ [] ∧
        (settings.maxSolutions ≠ 0 ∧ progress.solutions.length = settings.maxSolutions ∨
          progress.nodes = settings.nodeLimit ∧
            settings.nodeLimit < visits (taken ++ left)) := by
  rcases halt : progress.halt with _ | _ | _
  · have all := follows.of_running halt
    refine .inr (.inl ⟨?_, all⟩)
    by_cases empty : progress.solutions = []
    · exact .inl ⟨by rw [status, empty, halt], empty⟩
    · exact .inr ⟨status_of_found empty halt, empty⟩
  · have limited := follows.of_limited halt
    by_cases empty : progress.solutions = []
    · exact .inl ⟨by rw [status, empty, halt], empty, limited⟩
    · exact .inr (.inr ⟨status_of_found empty halt, empty, .inr limited⟩)
  · obtain ⟨bounded, reached⟩ := follows.enough halt
    rw [← length_solutions] at reached
    have found : progress.solutions ≠ [] := by
      intro empty
      rw [empty] at reached
      exact bounded reached.symm
    exact .inr (.inr ⟨status_of_found found halt, found, .inl ⟨bounded, reached⟩⟩)

/-- A search that followed steps from the beginning truncates the search that takes all of them. -/
theorem Follows.truncates :
    progress.outcome.Truncates settings ((Search.solutions (taken ++ left)).map Solution.mk)
      (visits (taken ++ left)) := by
  have bound := follows.nodes_le
  have enough : settings.maxSolutions ≠ 0 → progress.solutions.length ≤ settings.maxSolutions :=
    fun bounded => (length_solutions progress).trans_le (follows.found_le bounded)
  have begins : progress.solutions <+: (Search.solutions (taken ++ left)).map Solution.mk := by
    rw [solutions_append, List.map_append, follows.found_eq]
    exact List.prefix_append _ _
  show Outcome.Truncates settings ⟨progress.status, progress.solutions, progress.nodes⟩ _ _
  rcases follows.status_cases with ⟨status, empty, limit, more⟩ | ⟨status, found, nodes⟩ |
    ⟨status, found, stopped⟩
  · refine ⟨begins, enough, bound, fun _ => ?_, fun _ => ?_, ?_, ?_, ?_, ?_, ?_⟩
    · show progress.nodes = _
      omega
    · simp [status, more]
    · simp [status]
    · simp [status]
    · simp [status]
    · exact fun _ => ⟨empty, limit, more⟩
    · simp [status]
  · have all : ¬settings.nodeLimit < visits (taken ++ left) := by omega
    refine ⟨begins, enough, bound, fun _ => ?_, fun _ => ?_, ?_, fun _ => found, ?_, ?_, ?_⟩
    · show progress.nodes = _
      omega
    · rcases status with ⟨status, _⟩ | ⟨status, _⟩ <;> simp [status, all]
    · rcases status with ⟨status, _⟩ | ⟨status, _⟩ <;> simp [status]
    · rw [← found]
      rcases status with ⟨_, empty⟩ | ⟨status, _⟩
      · exact fun _ => empty
      · simp [status]
    · rcases status with ⟨status, _⟩ | ⟨status, _⟩ <;> simp [status]
    · rcases status with ⟨status, _⟩ | ⟨status, _⟩ <;> simp [status]
  · have limited : settings.maxSolutions = 0 → progress.nodes = settings.nodeLimit ∧
        settings.nodeLimit < visits (taken ++ left) := by
      intro unlimited
      exact stopped.resolve_left fun reached => reached.1 unlimited
    refine ⟨begins, enough, bound, fun unlimited => ?_, fun unlimited => ?_, ?_, ?_, ?_, ?_, ?_⟩
    · have := limited unlimited
      show progress.nodes = _
      omega
    · simp [status, limited unlimited]
    · simp [status]
    · simp [status]
    · simp [status]
    · simp [status]
    · exact fun _ => ⟨found, stopped.imp_right And.left⟩

end FromTheBeginning

end Progress

/-! ### Searches -/

theorem isRunning_start (settings : Settings) : Progress.IsRunning settings {} :=
  ⟨rfl, Nat.zero_le _, fun bounded => Nat.pos_of_ne_zero bounded⟩

/-- A search of given lists truncates the consistent members of their product. -/
theorem runOn_truncates (settings : Settings) (lists : List (List Value))
    (postings : List Posting) :
    (runOn settings lists postings).1.Truncates settings
      (((product lists).filter (consistent postings)).map Solution.mk)
      (nodeCount lists postings) := by
  rw [nodeCount_eq, ← extensions_root, runOn, constantsHold_eq_consistent]
  split
  · rename_i holds
    have counted := visits_trace holds lists
    have found := solutions_trace holds lists
    rw [List.length_nil, ← levels_eq_levelsFrom] at counted found
    obtain ⟨taken, left, split, follows⟩ :=
      Progress.exists_follows (isRunning_start settings) (trace (levels lists postings) [])
    rw [← counted, ← found, explore_eq_foldl rfl, split]
    rw [split] at follows
    exact follows.truncates
  · -- A false posting without variables ends the search before its first step.
    rename_i fails
    obtain ⟨taken, left, split, follows⟩ := Progress.exists_follows (isRunning_start settings) []
    obtain ⟨rfl, rfl⟩ := List.append_eq_nil_iff.mp split.symm
    have nodes : ∑ depth ∈ Finset.range lists.length,
        (extensions postings [] (lists.take depth)).length * (lists.getD depth []).length = 0 := by
      simp [extensions_of_inconsistent fails]
    rw [extensions_of_inconsistent fails, nodes]
    exact follows.truncates

/-- A search without a limit on solutions that was not cut needs no more nodes than it may visit. -/
theorem nodeCount_le_of_not_isCut {settings : Settings} (unlimited : settings.maxSolutions = 0)
    {lists : List (List Value)} {postings : List Posting}
    (finished : ¬(runOn settings lists postings).1.IsCut) :
    nodeCount lists postings ≤ settings.nodeLimit := by
  have truncates := runOn_truncates settings lists postings
  exact Nat.le_of_not_lt fun exceeded => finished ((truncates.limited_iff unlimited).mpr exceeded)

/-- A valid search whose domains can be listed is a search of the lists. With a seed, its solutions
are sorted. -/
theorem run_of_listed {settings : Settings} {problem : Problem} (valid : settings.fault? = none)
    {lists : List (List Value)}
    (listed : candidateLists settings.maxDomainSize problem.domains = .ok lists) :
    (run settings problem).1 =
      if settings.seed.isSome then (runOn settings lists problem.postings).1.sorted
      else (runOn settings lists problem.postings).1 := by
  rw [run, valid, listed]

theorem fault?_limited {settings : Settings} (valid : settings.fault? = none)
    (maxSolutions nodeLimit : Nat) :
    ({ settings with maxSolutions, nodeLimit := nodeLimit + 1 } : Settings).fault? = none := by
  simp only [Settings.fault?] at valid ⊢
  split at valid
  · cases valid
  · rename_i time
    split at valid
    · cases valid
    · rw [if_neg time, if_neg (Nat.succ_ne_zero nodeLimit)]
      exact valid

/-- Let a search without a limit on solutions, and with more nodes than it needs, list what it
finds in a problem. It visits, for every depth, the consistent lists of that length with every
candidate of the depth. Every valid search without a seed truncates it. -/
theorem run_truncates (settings : Settings) (problem : Problem)
    (valid : settings.fault? = none) (unseeded : settings.seed = none)
    (lists : List (List Value))
    (listed : candidateLists settings.maxDomainSize problem.domains = .ok lists) :
    let total := nodeCount lists problem.postings
    let unlimited := (run { settings with maxSolutions := 0, nodeLimit := total + 1 } problem).1
    unlimited.nodes = total ∧
      (run settings problem).1.Truncates settings unlimited.solutions total := by
  intro total unlimited
  have searched : ∀ limited : Settings, limited.fault? = none → limited.seed = none →
      limited.maxDomainSize = settings.maxDomainSize →
      (run limited problem).1 = (runOn limited lists problem.postings).1 := by
    intro limited limitedValid limitedUnseeded sameSize
    rw [run, limitedValid, sameSize, listed]
    simp [limitedUnseeded]
  have all : unlimited = (runOn { settings with maxSolutions := 0, nodeLimit := total + 1 } lists
      problem.postings).1 :=
    searched _ (fault?_limited valid 0 total) unseeded rfl
  rw [all, runOn_of_unlimited rfl (Nat.le_succ total), searched settings valid unseeded rfl]
  exact ⟨rfl, runOn_truncates settings lists problem.postings⟩

/-- Six of the nine nodes are visited, which is enough for two of the three solutions. -/
theorem boundOne_truncates :
    let settings : Settings := { maxSolutions := 0, nodeLimit := 6 }
    settings.fault? = none ∧
      candidateLists settings.maxDomainSize boundOne.domains =
        .ok [[.int 0, .int 1, .int 2], [.bool false, .bool true]] ∧
      (run settings boundOne).1.nodes = 6 ∧
      ((run settings boundOne).1.status = .timeout ∨
        (run settings boundOne).1.status = .feasible) ∧
      (run settings boundOne).1.solutions <+:
        [⟨[.int 0, .bool true]⟩, ⟨[.int 1, .bool true]⟩, ⟨[.int 2, .bool false]⟩] := by
  intro settings
  obtain ⟨-, truncates⟩ := run_truncates settings boundOne rfl rfl
    [[.int 0, .int 1, .int 2], [.bool false, .bool true]] rfl
  have counted : nodeCount [[.int 0, .int 1, .int 2], [.bool false, .bool true]]
      boundOne.postings = 9 := by
    decide
  rw [counted] at truncates
  exact ⟨rfl, rfl, truncates.nodes_eq rfl, (truncates.limited_iff rfl).mpr (by decide),
    truncates.begins⟩

end ConstraintCompiler.Search
