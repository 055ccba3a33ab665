import ConstraintCompiler.Proofs.Bounds
import ConstraintCompiler.Proofs.ValueOrder
import Mathlib.Order.Nat

/-!
Contract: a machine search does what an unbounded search does, under a limit that the clock sets.

Owns:
- `Machine.budget`, the number of nodes at which a search stops, by its count or by its clock;
- `Machine.explore?_eq`, that exploration stays within bounds and follows the trace of the search;
- `Machine.run?_eq`, that a machine run of known variables has the outcome of the search of the
  rearranged candidates under that budget.

Does not own: where the candidates and the watch lists come from.
-/

namespace ConstraintCompiler.Search

theorem Progress.nodes_advance_le {settings : Settings} {progress : Progress}
    (within : progress.nodes ≤ settings.nodeLimit) (step : Step) :
    (progress.advance settings step).nodes ≤ settings.nodeLimit := by
  unfold advance
  split
  · exact within
  · cases step with
    | visit =>
        dsimp only
        split
        · exact within
        · show progress.nodes + 1 ≤ settings.nodeLimit
          omega
    | solution values => exact within

/-- No search visits more nodes than its limit. -/
theorem Progress.nodes_foldl_advance_le {settings : Settings} {progress : Progress}
    (within : progress.nodes ≤ settings.nodeLimit) (steps : List Step) :
    (steps.foldl (advance settings) progress).nodes ≤ settings.nodeLimit := by
  induction steps generalizing progress with
  | nil => exact within
  | cons step rest inductionHypothesis => exact inductionHypothesis (nodes_advance_le within step)

namespace Machine

/-! ### The budget -/

section Budget

variable (settings : Settings) (elapsed : Nat → Int)

theorem exists_outOfBudget : ∃ nodes, outOfBudget settings elapsed nodes = true :=
  ⟨settings.nodeLimit, by simp [outOfBudget]⟩

/-- The least number of nodes at which the search is out of budget. -/
def budget : Nat := Nat.find (exists_outOfBudget settings elapsed)

/-- The settings under which an unbounded search stops where the clock or the limit stops the
machine. -/
def budgeted : Settings := { settings with nodeLimit := budget settings elapsed }

theorem budget_le : budget settings elapsed ≤ settings.nodeLimit := by
  apply Nat.find_min'
  simp [outOfBudget]

variable {settings elapsed}

/-- A search that never went on without budget sees only whether it has reached it. -/
theorem outOfBudget_iff {nodes : Nat} (within : nodes ≤ budget settings elapsed) :
    outOfBudget settings elapsed nodes = true ↔ budget settings elapsed ≤ nodes := by
  constructor
  · intro out
    exact Nat.find_min' (exists_outOfBudget settings elapsed) out
  · intro reached
    rw [Nat.le_antisymm within reached]
    exact Nat.find_spec (exists_outOfBudget settings elapsed)

/-- A clock that never shows the time limit leaves the limit on nodes. -/
theorem budget_of_early (early : ∀ nodes, elapsed nodes < settings.timeLimit) :
    budget settings elapsed = settings.nodeLimit := by
  apply Nat.le_antisymm (budget_le settings elapsed)
  have spent : outOfBudget settings elapsed (budget settings elapsed) = true :=
    Nat.find_spec (exists_outOfBudget settings elapsed)
  have running : ¬settings.timeLimit ≤ elapsed (budget settings elapsed) :=
    Int.not_le.mpr (early _)
  simpa [outOfBudget, running] using spent

end Budget

/-! ### States -/

namespace State

variable (total : Nat) (values : List Value) (progress : Progress)

/-- The state in which the first variables of a total have values, with some progress made. -/
def below : State where
  assignment := values.map some ++ List.replicate (total - values.length) none
  nodes := progress.nodes
  solutions := progress.solutions
  limitHit := decide (progress.halt = some .nodeLimit)

def trying (entry : Option Value) : State :=
  { below total values progress with
    assignment := values.map some ++ entry :: List.replicate (total - values.length - 1) none }

variable {total values progress}

theorem trying_none (more : values.length < total) :
    trying total values progress none = below total values progress := by
  have one : total - values.length = total - values.length - 1 + 1 := by omega
  rw [trying, below, one, List.replicate_succ]
  rfl

theorem trying_some (value : Value) :
    trying total values progress (some value) = below total (values ++ [value]) progress := by
  have shorter : total - (values ++ [value]).length = total - values.length - 1 := by
    rw [List.length_append, List.length_singleton]
    omega
  rw [trying, below, below, shorter, List.map_append, List.append_assoc]
  rfl

theorem length_assignment_below (fits : values.length ≤ total) :
    (below total values progress).assignment.length = total := by
  rw [below, List.length_append, List.length_map, List.length_replicate]
  omega

theorem nodes_trying (entry : Option Value) :
    (trying total values progress entry).nodes = progress.nodes := rfl

/-- The entry of the next variable is one that the state has. -/
theorem assign?_trying (entry next : Option Value) :
    (trying total values progress entry).assign? values.length next =
      some (trying total values progress next) := by
  have position : values.length < (trying total values progress entry).assignment.length := by
    rw [trying, List.length_append, List.length_map, List.length_cons]
    omega
  rw [assign?, set?, if_pos position]
  simp [trying]

/-- The count of nodes fits in a word below any limit that does. -/
theorem visit?_trying (entry : Option Value) (small : progress.nodes + 1 < 2 ^ wordBits) :
    (trying total values progress entry).visit? =
      some (trying total values progress.visit entry) := by
  have counted : unsigned? wordBits ((trying total values progress entry).nodes + 1) =
      some (progress.nodes + 1) := unsigned?_of_lt small
  rw [visit?, bind_of_some counted]
  rfl

theorem reads_below : (below total values progress).reads = assigning values := by
  funext id
  rw [reads, below, assigning, List.getElem?_append]
  split
  · rw [List.getElem?_map]
    cases values[id]? <;> rfl
  · rename_i beyond
    rw [List.length_map] at beyond
    rw [List.getElem?_eq_none (Nat.le_of_not_lt beyond), List.getElem?_replicate]
    split <;> rfl

/-- A machine that ended its search reports the status of its progress. -/
theorem status_below :
    (below total values progress).status progress.halt.isNone = progress.status := by
  simp only [status, Progress.status, below]
  cases progress.solutions <;> rcases progress.halt with _ | _ | _ <;> rfl

/-- Recording tells whether the search goes on, and adds the solution that all entries make. -/
theorem record_below {settings limited : Settings}
    (wanted : limited.maxSolutions = settings.maxSolutions) (complete : values.length = total)
    (running : progress.halt = none) :
    (below total values progress).record settings =
      ((progress.record limited ⟨values⟩).halt.isNone,
        below total values (progress.record limited ⟨values⟩)) := by
  have entries : (below total values progress).assignment.filterMap id = values := by
    simp [below, complete, List.filterMap_map]
  have found : (progress.record limited ⟨values⟩).solutions =
      progress.solutions ++ [⟨values⟩] := Progress.solutions_record values
  have counted : ((below total values progress).solutions ++ [Solution.mk values]).length =
      progress.found.size + 1 := by
    rw [List.length_append, below, Progress.length_solutions]
    rfl
  have halt : (progress.record limited ⟨values⟩).halt =
      if settings.maxSolutions != 0 && decide (settings.maxSolutions ≤ progress.found.size + 1)
      then some .enoughSolutions else none := by
    simp [Progress.record, wanted, running]
  have goesOn : (settings.maxSolutions == 0 ||
      decide (progress.found.size + 1 < settings.maxSolutions)) =
        (progress.record limited ⟨values⟩).halt.isNone := by
    rw [halt]
    by_cases unlimited : settings.maxSolutions = 0
    · simp [unlimited]
    · by_cases room : progress.found.size + 1 < settings.maxSolutions
      · simp [room, Nat.not_le_of_lt room]
      · simp [unlimited, room, Nat.le_of_not_lt room]
  have limitHit : decide (progress.halt = some .nodeLimit) =
      decide ((progress.record limited ⟨values⟩).halt = some .nodeLimit) := by
    rw [halt, running]
    split <;> rfl
  rw [record, entries, counted, goesOn]
  simp only [below, found, limitHit]
  rfl

end State

/-! ### Exploration -/

section Exploration

variable {settings : Settings} {elapsed : Nat → Int}

def report (total : Nat) (values : List Value) (progress : Progress) : Bool × State :=
  (progress.halt.isNone, State.below total values progress)

theorem trace_cons (value : Value) (rest : List Value) (watched : List Posting)
    (deeper : List Level) (values : List Value) :
    trace (⟨value :: rest, watched⟩ :: deeper) values =
      .visit ::
        ((if watched.all fun posting => posting.verdict (assigning (values ++ [value])) == some true
          then trace deeper (values ++ [value]) else []) ++
          trace (⟨rest, watched⟩ :: deeper) values) := rfl

section Values

variable {watched : List (List Posting)} {below : State → Option (Bool × State)} {total : Nat}
  {values : List Value} {progress : Progress}

theorem assign?_none (more : values.length < total) (entry : Option Value) :
    (State.trying total values progress entry).assign? values.length none =
      some (State.below total values progress) := by
  rw [State.assign?_trying, State.trying_none more]

/-- Out of budget, the search stops in front of the next value. -/
theorem tryValues?_out (more : values.length < total)
    (out : outOfBudget settings elapsed progress.nodes = true) (value : Value)
    (rest : List Value) (entry : Option Value) :
    tryValues? settings elapsed watched below values.length (value :: rest)
        (State.trying total values progress entry) =
      some (report total values { progress with halt := some .nodeLimit }) := by
  have cleared : (State.trying total values { progress with halt := some .nodeLimit }
      entry).assign? values.length none =
        some (State.below total values { progress with halt := some .nodeLimit }) :=
    assign?_none more entry
  rw [tryValues?, State.nodes_trying, if_pos out]
  exact bind_of_some cleared _

/-- Within budget, the next value is checked, and the search goes on below it or behind it. -/
theorem tryValues?_visit (within : ¬outOfBudget settings elapsed progress.nodes = true)
    (small : progress.nodes + 1 < 2 ^ wordBits) {postings : List Posting}
    (watches : watched[values.length]? = some postings) (value : Value) (rest : List Value)
    (entry : Option Value) :
    tryValues? settings elapsed watched below values.length (value :: rest)
        (State.trying total values progress entry) =
      if postings.all fun posting => posting.verdict (assigning (values ++ [value])) == some true
      then do
        let (goesOn, state) ← below (State.below total (values ++ [value]) progress.visit)
        if goesOn then tryValues? settings elapsed watched below values.length rest state
        else do
          let state ← state.assign? values.length none
          some (false, state)
      else tryValues? settings elapsed watched below values.length rest
        (State.trying total values progress.visit (some value)) := by
  rw [tryValues?, State.nodes_trying, if_neg within,
    bind_of_some (State.visit?_trying entry small),
    bind_of_some (State.assign?_trying entry (some value)), State.trying_some,
    bind_of_some watches, State.reads_below]

end Values

/-- Trying values follows the trace of their level, if every search below a value does. -/
theorem tryValues?_eq (limitFits : settings.nodeLimit < 2 ^ wordBits)
    {watched : List (List Posting)} {below : State → Option (Bool × State)} {total : Nat}
    {postings : List Posting} {deeper : List Level} {values : List Value}
    (more : values.length < total) (watches : watched[values.length]? = some postings)
    (follows : ∀ (value : Value) (progress : Progress), progress.halt = none →
      progress.nodes ≤ budget settings elapsed →
        below (State.below total (values ++ [value]) progress) =
          some (report total (values ++ [value])
            ((trace deeper (values ++ [value])).foldl
              (Progress.advance (budgeted settings elapsed)) progress)))
    (candidates : List Value) (entry : Option Value) {progress : Progress}
    (running : progress.halt = none) (within : progress.nodes ≤ budget settings elapsed) :
    tryValues? settings elapsed watched below values.length candidates
        (State.trying total values progress entry) =
      some (report total values
        ((trace (⟨candidates, postings⟩ :: deeper) values).foldl
          (Progress.advance (budgeted settings elapsed)) progress)) := by
  induction candidates generalizing entry progress with
  | nil =>
      rw [tryValues?, bind_of_some (assign?_none more entry), report]
      simp [trace, running]
  | cons value rest inductionHypothesis =>
      rw [trace_cons, List.foldl_cons, List.foldl_append]
      by_cases out : outOfBudget settings elapsed progress.nodes = true
      · have halts : progress.advance (budgeted settings elapsed) .visit =
            { progress with halt := some .nodeLimit } := by
          have reached := (outOfBudget_iff within).mp out
          simp [Progress.advance, running, budgeted, reached]
        have stops : ∀ steps : List Step, steps.foldl
            (Progress.advance (budgeted settings elapsed))
              { progress with halt := some .nodeLimit } =
                { progress with halt := some .nodeLimit } :=
          Progress.foldl_advance_of_halted rfl
        rw [tryValues?_out more out, halts, stops, stops]
      · have unreached : ¬budget settings elapsed ≤ progress.nodes :=
          mt (outOfBudget_iff within).mpr out
        have visits : progress.advance (budgeted settings elapsed) .visit = progress.visit := by
          simp [Progress.advance, running, budgeted, unreached]
        have stillRunning : progress.visit.halt = none := running
        have visited : progress.visit.nodes ≤ budget settings elapsed := by
          show progress.nodes + 1 ≤ _
          omega
        have small : progress.nodes + 1 < 2 ^ wordBits := by
          have bound := budget_le settings elapsed
          omega
        rw [visits, tryValues?_visit out small watches]
        split
        · have searched := follows value progress.visit stillRunning visited
          have bounded : ((trace deeper (values ++ [value])).foldl
              (Progress.advance (budgeted settings elapsed)) progress.visit).nodes ≤
                (budgeted settings elapsed).nodeLimit :=
            Progress.nodes_foldl_advance_le visited _
          generalize (trace deeper (values ++ [value])).foldl
            (Progress.advance (budgeted settings elapsed)) progress.visit = after
            at searched bounded
          rw [bind_of_some searched, report, ← State.trying_some]
          cases halted : after.halt with
          | none => exact inductionHypothesis (some value) halted bounded
          | some halt =>
              have stopped : after.halt.isSome = true := by
                rw [halted]
                rfl
              rw [Progress.foldl_advance_of_halted stopped, report, halted]
              exact bind_of_some (assign?_none more (some value)) _
        · rw [inductionHypothesis (some value) stillRunning visited]
          rfl

/-- The search of the lists that remain is as many calls deep as there are lists. It stays within
bounds and follows the trace. -/
theorem explore?_eq (limitFits : settings.nodeLimit < 2 ^ wordBits) {lists : List (List Value)}
    {postings : List Posting} {done rest : List (List Value)} (split : lists = done ++ rest)
    {values : List Value} (depth : values.length = done.length) {progress : Progress}
    (running : progress.halt = none) (within : progress.nodes ≤ budget settings elapsed) :
    explore? settings elapsed lists (completed lists.length postings) rest.length values.length
        (State.below lists.length values progress) =
      some (report lists.length values
        ((trace (levelsFrom postings values.length rest) values).foldl
          (Progress.advance (budgeted settings elapsed)) progress)) := by
  induction rest generalizing done values progress with
  | nil =>
      rw [List.append_nil] at split
      have complete : values.length = lists.length := by rw [split, depth]
      have entries : (State.below lists.length values progress).assignment.length = lists.length :=
        State.length_assignment_below complete.le
      have records : progress.advance (budgeted settings elapsed) (.solution values) =
          progress.record (budgeted settings elapsed) ⟨values⟩ := by
        simp [Progress.advance, running]
      have recorded : (State.below lists.length values progress).record settings =
          report lists.length values (progress.record (budgeted settings elapsed) ⟨values⟩) :=
        State.record_below rfl complete running
      rw [List.length_nil, explore?, entries, if_pos complete, recorded, ← records]
      rfl
  | cons candidates rest inductionHypothesis =>
      have more : values.length < lists.length := by
        rw [split, depth, List.length_append, List.length_cons]
        omega
      have entries : (State.below lists.length values progress).assignment.length = lists.length :=
        State.length_assignment_below more.le
      have listed : lists[values.length]? = some candidates := by
        rw [split, depth, List.getElem?_append_right (Nat.le_refl _), Nat.sub_self]
        rfl
      rw [List.length_cons, explore?, entries, if_neg (Nat.ne_of_lt more), bind_of_some listed]
      rw [← State.trying_none more]
      apply tryValues?_eq limitFits more (getElem?_completed more postings)
      · intro value progress running within
        have longer : (values ++ [value]).length = (done ++ [candidates]).length := by
          rw [List.length_append, List.length_append, depth]
          rfl
        have shifted : lists = (done ++ [candidates]) ++ rest := by
          rw [split, List.append_assoc]
          rfl
        have deeper := inductionHypothesis shifted longer running within
        rw [List.length_append] at deeper
        exact deeper
      · exact running
      · exact within

/-- From the start, the machine makes the progress of the unbounded search. -/
theorem explore?_start (limitFits : settings.nodeLimit < 2 ^ wordBits) (lists : List (List Value))
    (postings : List Posting) :
    explore? settings elapsed lists (completed lists.length postings) lists.length 0
        { assignment := List.replicate lists.length none } =
      some (report lists.length []
        (explore (budgeted settings elapsed) (levels lists postings) [] {})) := by
  have start : State.below lists.length [] {} =
      { assignment := List.replicate lists.length none } := rfl
  have within : ({} : Progress).nodes ≤ budget settings elapsed := Nat.zero_le _
  have depth : ([] : List Value).length = ([] : List (List Value)).length := rfl
  rw [explore_eq_foldl rfl, levels_eq_levelsFrom, ← start]
  exact explore?_eq limitFits (List.nil_append lists).symm depth rfl within

end Exploration

/-! ### Runs -/

section Runs

variable {settings : Settings} {elapsed : Nat → Int}
  {shuffle : Nat → List (List Value) → List (List Value)} {problem : Problem}

theorem run?_of_fault {fault : SettingsFault} (invalid : settings.fault? = some fault) :
    run? settings elapsed shuffle problem = some { status := .modelInvalid } := by
  rw [run?, invalid]
  rfl

variable (fit : ∀ domain ∈ problem.domains, domain.Fits)

include fit

theorem run?_of_oversize (valid : settings.fault? = none) {oversize : Oversize}
    (refused : candidateLists settings.maxDomainSize problem.domains = .error oversize) :
    run? settings elapsed shuffle problem = some { status := .modelInvalid } := by
  rw [run?, valid, run_candidateLists? settings.maxDomainSize fit, refused]
  rfl

/-- A machine run has the outcome of the search of the lists in their order, under the budget that
the clock leaves. -/
theorem run?_eq (limitFits : settings.nodeLimit < 2 ^ wordBits) (valid : settings.fault? = none)
    {lists : List (List Value)}
    (listed : candidateLists settings.maxDomainSize problem.domains = .ok lists)
    (count : (ordered settings shuffle lists).length = problem.size)
    (known : ∀ posting ∈ problem.postings, ∀ v ∈ posting.mentions, v.id < problem.size) :
    run? settings elapsed shuffle problem =
      some (runOn (budgeted settings elapsed) (ordered settings shuffle lists)
        problem.postings).1 := by
  rw [← count] at known
  rw [run?, valid, run_candidateLists? settings.maxDomainSize fit, listed]
  show (watchLists? (ordered settings shuffle lists).length problem.postings >>= _) = _
  generalize ordered settings shuffle lists = candidates at known
  rw [bind_of_some (watchLists?_eq known), runOn]
  split
  · rw [bind_of_some (explore?_start limitFits candidates problem.postings), report]
    dsimp only
    rw [State.status_below]
    rfl
  · rfl

end Runs

end Machine

end ConstraintCompiler.Search
