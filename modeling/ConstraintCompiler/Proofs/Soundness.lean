import ConstraintCompiler.Proofs.Completion

/-!
Contract: compiled problems have no solutions that their models do not have.

Owns `Session.flushedRun_sound`: after every admitted run and a last flush, an assignment that makes
the recorded postings true gives each composite's variable the composite's value, and makes every
accepted declaration true.
-/

namespace ConstraintCompiler

namespace Session

/-- After every admitted run and a last flush nothing waits, and an assignment of all variables
that makes the recorded postings true gives the variable of each composite the value that direct
evaluation gives to the composite, and makes every accepted declaration true. -/
theorem flushedRun_sound (settings : Model.Settings) (actions : List Action)
    (admits : (start settings).Admits actions) :
    (flushedRun settings actions).model.queue = [] ∧
      ∀ assignment, (flushedRun settings actions).model.problem.IsAssigned assignment →
        (flushedRun settings actions).model.problem.IsSatisfied assignment →
        (∀ label v, (flushedRun settings actions).model.definition? label = some v →
          ∃ expression value, (flushedRun settings actions).built[label]? = some expression ∧
            expression.value? assignment = some value ∧ assignment v.id = some value) ∧
        ∀ declaration ∈ (flushedRun settings actions).declared,
          declaration.isTrue assignment = true := by
  obtain ⟨compiled, nothingWaits, recorded⟩ := flushedRun_spec admits
  refine ⟨nothingWaits, fun assignment assigned satisfied => ?_⟩
  obtain ⟨faithful, declarations⟩ := (compiled.isSatisfied_iff assigned recorded).mp satisfied
  refine ⟨fun label v found => ?_, declarations⟩
  exact faithful label v (compiled.definition?_iff.mp found)

/-- A conjunction gets a variable from a reified comparison and is then nested in a disjunction,
which an equality ties to a variable without giving it one. -/
def sharedConjunction : List Action :=
  let first : Expression := .variable ⟨0, .bool⟩
  let second : Expression := .variable ⟨1, .bool⟩
  let third : Expression := .variable ⟨2, .bool⟩
  let conjunction : Expression := .composite 0 (.logic .and) [first, second] .bool
  let disjunction : Expression := .composite 1 (.logic .or) [conjunction, third] .bool
  [ .allocateArray 3 .bool,
    .build (.logic .and first second),
    .build (.logic .or conjunction third),
    .declare
      { statement := .relate conjunction .ne first
        options := { target := some third } },
    .flush,
    .declare { statement := .relate second .eq disjunction, negated := true } ]

theorem admits_sharedConjunction : (start {}).Admits sharedConjunction := by
  refine ⟨nofun, ?_, ?_, ?_, nofun, ?_, trivial⟩
  · intro expression member
    rcases List.mem_pair.mp member with rfl | rfl <;> rfl
  · intro expression member
    rcases List.mem_pair.mp member with rfl | rfl <;> rfl
  · intro expression member
    simp only [Action.expressions, Declaration.expressions, Statement.expressions] at member
    rcases member with _ | ⟨_, _ | ⟨_, _ | ⟨_, _ | _⟩⟩⟩ <;> rfl
  · intro expression member
    rcases List.mem_pair.mp member with rfl | rfl <;> rfl

theorem sharedConjunction_sound :
    (start {}).Admits sharedConjunction ∧
      (flushedRun {} sharedConjunction).model.problem.IsAssigned
        (Search.assigning [.bool true, .bool false, .bool true, .bool false]) ∧
      (flushedRun {} sharedConjunction).model.problem.IsSatisfied
        (Search.assigning [.bool true, .bool false, .bool true, .bool false]) ∧
      (∃ expression value, (flushedRun {} sharedConjunction).built[0]? = some expression ∧
        expression.value?
          (Search.assigning [.bool true, .bool false, .bool true, .bool false]) = some value ∧
        Search.assigning [.bool true, .bool false, .bool true, .bool false] 3 = some value) ∧
      ∀ declaration ∈ (flushedRun {} sharedConjunction).declared,
        declaration.isTrue
          (Search.assigning [.bool true, .bool false, .bool true, .bool false]) = true := by
  have assigned : (flushedRun {} sharedConjunction).model.problem.IsAssigned
      (Search.assigning [.bool true, .bool false, .bool true, .bool false]) :=
    Problem.isAssigned_assigning (by decide)
  have satisfied : (flushedRun {} sharedConjunction).model.problem.IsSatisfied
      (Search.assigning [.bool true, .bool false, .bool true, .bool false]) := by
    unfold Problem.IsSatisfied
    decide
  obtain ⟨values, declarations⟩ :=
    (flushedRun_sound {} sharedConjunction admits_sharedConjunction).2 _ assigned satisfied
  exact ⟨admits_sharedConjunction, assigned, satisfied, values 0 ⟨3, .bool⟩ rfl, declarations⟩

end Session

end ConstraintCompiler
