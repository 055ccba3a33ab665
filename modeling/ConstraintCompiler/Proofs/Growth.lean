import ConstraintCompiler.Proofs.Runs

/-!
Contract: what a session has, it keeps.

Owns:
- `Model.Elaborates.grows`, that giving variables to composites takes nothing away, and
  `Model.Elaborates.covers`, that it allocates no other variables;
- `Session.Compiled.step_grows` and `Session.Compiled.run_grows`, that a session has all that it had
  before permitted actions.
-/

namespace ConstraintCompiler

namespace Model.Elaborates

variable {scope : Expression → Prop} {first second : Model}

/-- Variables beyond those of the earlier model are variables of composites. -/
theorem covers (elaborates : first.Elaborates scope second) {id : Nat}
    (new : first.problem.size ≤ id) (allocated : id < second.problem.size) :
    ∃ label v, (label, v) ∈ second.definitions ∧ v.id = id := by
  induction elaborates with
  | refl => exact absurd allocated (Nat.not_lt.mpr new)
  | @define model label _ _ kind _ _ _ _ _ inductionHypothesis =>
      rw [define_problem, Problem.size_allocate] at allocated
      rcases Nat.lt_succ_iff_lt_or_eq.mp allocated with earlier | rfl
      · obtain ⟨other, v, defined, same⟩ := inductionHypothesis earlier
        exact ⟨other, v, List.mem_cons_of_mem _ defined, same⟩
      · exact ⟨label, model.problem.nextVariable kind, List.mem_cons_self .., rfl⟩

/-- A variable of a composite is one that the earlier model has, or the composite is in the
scope. -/
theorem from_scope (elaborates : first.Elaborates scope second) :
    ∀ entry ∈ second.definitions,
      entry ∈ first.definitions ∨
        ∃ composite, scope composite ∧ composite.label? = some entry.1 := by
  induction elaborates with
  | refl => exact fun _ member => .inl member
  | define _ inScope _ _ inductionHypothesis =>
      intro entry member
      rcases List.mem_cons.mp member with rfl | earlier
      · exact .inr ⟨_, inScope, rfl⟩
      · exact inductionHypothesis entry earlier

theorem grows {session : Session} (elaborates : session.model.Elaborates scope second) :
    session.Grows { session with model := second } := by
  refine ⟨fun _ _ => id, elaborates.settings, ?_, elaborates.grown, ?_, fun _ => id, fun _ => id⟩
  · intro id domain found
    induction elaborates with
    | refl => exact found
    | define _ _ _ _ inductionHypothesis =>
        exact getElem?_append_of_some inductionHypothesis _
  · intro posting member
    induction elaborates with
    | refl => exact member
    | define _ _ _ _ inductionHypothesis =>
        simp only [Model.stated, define_problem, Problem.allocate, define_queue,
          List.filterMap_append, ← List.append_assoc]
        exact List.mem_append_left _ inductionHypothesis

end Model.Elaborates

namespace Session

/-! ### Growth along a run -/

theorem Grows.refl (session : Session) : session.Grows session :=
  ⟨fun _ _ => id, rfl, fun _ _ => id, fun _ => id, fun _ => id, fun _ => id, fun _ => id⟩

theorem Grows.trans {first second third : Session} (earlier : first.Grows second)
    (later : second.Grows third) : first.Grows third where
  built := fun label expression found => later.built label expression (earlier.built _ _ found)
  settings := later.settings.trans earlier.settings
  domains := fun id domain found => later.domains id domain (earlier.domains _ _ found)
  definitions := fun entry member => later.definitions entry (earlier.definitions _ member)
  stated := fun posting member => later.stated posting (earlier.stated _ member)
  subjects := fun subject member => later.subjects subject (earlier.subjects _ member)
  declared := fun declaration member => later.declared declaration (earlier.declared _ member)

theorem Grows.domain_iff {before after : Session} (grows : before.Grows after) {id : Nat}
    (small : id < before.model.problem.size) {domain : Domain} :
    after.model.problem.domains[id]? = some domain ↔
      before.model.problem.domains[id]? = some domain := by
  refine ⟨fun found => ?_, grows.domains id domain⟩
  have earlier : before.model.problem.domains[id]? = some before.model.problem.domains[id] :=
    List.getElem?_eq_getElem small
  rw [← found, grows.domains id _ earlier, earlier]

theorem Grows.size_le {before after : Session} (grows : before.Grows after) :
    before.model.problem.size ≤ after.model.problem.size := by
  by_contra larger
  have last : before.model.problem.size - 1 < before.model.problem.size := by omega
  have kept := (grows.domain_iff last).mpr (List.getElem?_eq_getElem last)
  have small : before.model.problem.size - 1 < after.model.problem.size :=
    (List.getElem?_eq_some_iff.mp kept).1
  omega

namespace Compiled

variable {session : Session} (compiled : session.Compiled)

include compiled

theorem step_grows {action : Action} (permits : session.Permits action) :
    session.Grows (session.step action) := by
  cases action with
  | allocate domain | allocateArray count domain | fresh kind =>
      refine ⟨fun _ _ => id, rfl, ?_, fun _ => id, fun _ => id, fun _ => id, fun _ => id⟩
      intro id domain found
      exact getElem?_append_of_some found _
  | build composition =>
      cases built : composition.build session.model.nextLabel with
      | error error =>
          rw [step_build_error built]
          exact .refl session
      | ok expression =>
          rw [step_build_ok built]
          refine ⟨?_, rfl, fun _ _ => id, fun _ => id, fun _ => id, fun _ => id, fun _ => id⟩
          intro label expression found
          exact getElem?_append_of_some found _
  | resolve expression =>
      have atHand := permits expression (List.mem_singleton_self _)
      obtain ⟨elaborates, _⟩ :=
        Expression.resolve_spec (atHand.isListed compiled.wellBuilt) session.model
      obtain ⟨built, settings, domains, definitions, stated, _, declared⟩ := elaborates.grows
      refine ⟨built, settings, domains, definitions, stated, ?_, declared⟩
      intro subject member
      rcases List.mem_append.mp member with resolved | inDeclared
      · exact List.mem_append_left _ (List.mem_append_left _ resolved)
      · exact List.mem_append_right _ inDeclared
  | declare declaration =>
      cases planned : declaration.plan with
      | error error =>
          rw [step_declare_error planned]
          exact .refl session
      | ok plan =>
          obtain ⟨middle, posting, journal, elaborates, _, after⟩ :=
            compiled.step_declare planned permits
          obtain ⟨built, settings, domains, definitions, stated, _, _⟩ := elaborates.grows
          rw [after]
          refine ⟨built, settings, domains, definitions, ?_, ?_, fun _ => List.mem_append_left _⟩
          · intro other member
            simp only [Model.stated, List.filterMap_append, ← List.append_assoc]
            exact List.mem_append_left _ (stated other member)
          · intro subject member
            rcases List.mem_append.mp member with resolved | inDeclared
            · exact List.mem_append_left _ resolved
            · refine List.mem_append_right _ ?_
              rw [List.flatMap_append]
              exact List.mem_append_left _ inDeclared
  | flush =>
      obtain ⟨executed, journal, flushed⟩ := compiled.step_flush
      rw [flushed]
      exact ⟨fun _ _ => id, rfl, fun _ _ => id, fun _ => id,
        fun _ member => List.mem_append_left [] member, fun _ => id, fun _ => id⟩

/-- Admitted actions take nothing away from a session. -/
theorem run_grows {actions : List Action} (admits : session.Admits actions) :
    session.Grows (session.run actions) := by
  induction actions generalizing session with
  | nil => exact .refl session
  | cons action rest inductionHypothesis =>
      exact (compiled.step_grows admits.1).trans
        (inductionHypothesis (compiled.step admits.1) admits.2)

end Compiled

end Session

end ConstraintCompiler
