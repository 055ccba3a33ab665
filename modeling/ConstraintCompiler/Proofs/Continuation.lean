import ConstraintCompiler.Proofs.Completion
import ConstraintCompiler.Proofs.Growth
import ConstraintCompiler.Proofs.Materialization

/-!
Contract: what one more declaration makes of the solutions.

Owns:
- `Problem.IsSolution`, values in the domains under which every recorded posting is true;
- `Session.Continues`, that a flushed session comes from another by one accepted declaration;
- `Session.Continues.restricts` and `Session.Continues.exists_extension`: its solutions are, on the
  variables of the earlier session, the solutions of the earlier one under which the declaration is
  true and everything that was resolved for it is defined;
- `Session.Realizes`, a solution over an assignment of the user's variables, and
  `Session.Continues.exists_realizes_iff`, which of these solutions one more declaration leaves;
- `Plan.Meets`, what a plan asks of a solution beside the truth of its declaration, and
  `Session.flushedRun_realizes_iff`, which solutions a declaration leaves after a run, wherever the
  values of composites lie.

Does not own: what is resolved for a declaration, and which composites get variables for it.
-/

namespace ConstraintCompiler

namespace Problem

def IsContained (problem : Problem) (assignment : Assignment) : Prop :=
  ∀ (id : Nat) (domain : Domain), problem.domains[id]? = some domain →
    ∃ value, assignment id = some value ∧ domain.Contains value

/-- Every allocated variable has a value of its domain, and every recorded posting is true. -/
structure IsSolution (problem : Problem) (assignment : Assignment) : Prop where
  contained : problem.IsContained assignment
  satisfied : problem.IsSatisfied assignment

theorem IsContained.isAssigned {problem : Problem} {assignment : Assignment}
    (contained : problem.IsContained assignment) : problem.IsAssigned assignment := by
  intro id domain found
  obtain ⟨value, valueFound, member⟩ := contained id domain found
  exact ⟨value, valueFound, Domain.kind_eq_of_contains member⟩

end Problem

section Definedness

variable {session : Session} {assignment : Assignment} (wellBuilt : session.IsWellBuilt)
  (assigned : session.model.problem.IsAssigned assignment)
  (faithful : session.IsFaithful assignment)

include wellBuilt assigned faithful

theorem Model.Represents.isDefined {expression : Expression} {argument : Argument}
    (represents : session.model.Represents expression argument)
    (atHand : session.AtHand expression) : expression.IsDefined assignment :=
  (represents.denotes wellBuilt assigned atHand (faithful.to atHand)).hasValue.isDefined

theorem Model.Represents.areDefined {expressions : List Expression} {arguments : List Argument}
    (represents : List.Forall₂ session.model.Represents expressions arguments)
    (atHand : ∀ expression ∈ expressions, session.AtHand expression) :
    ∀ expression ∈ expressions, expression.IsDefined assignment := by
  induction represents with
  | nil => exact fun _ member => absurd member List.not_mem_nil
  | cons head _ inductionHypothesis =>
      intro expression member
      rcases List.mem_cons.mp member with rfl | rest
      · exact head.isDefined wellBuilt assigned faithful (atHand expression (List.mem_cons_self ..))
      · exact inductionHypothesis (fun other found => atHand other (List.mem_cons_of_mem _ found))
          expression rest

/-- The operands of a composite are defined where they are represented. Where they are merged, the
operands of nested occurrences are represented in the place of these, which joins them into truth
values. -/
theorem Model.RepresentsOperands.areDefined {composite : Composite} {arguments : List Argument}
    (represents : session.model.RepresentsOperands composite.connective composite.operands
      arguments)
    (atHand : session.AtHand composite.expression) :
    ∀ operand ∈ composite.operands, operand.IsDefined assignment := by
  obtain ⟨label, connective, operands, kind⟩ := composite
  obtain ⟨joins, operandsAtHand⟩ := Session.AtHand.joins wellBuilt atHand
  by_cases flattens : connective.flattens = true
  · rw [Model.RepresentsOperands, if_pos flattens] at represents
    cases joins with
    | logic shapes =>
        obtain ⟨_, truths, _, read, _⟩ := Model.Merges.eval? wellBuilt assigned flattens represents
          operandsAtHand shapes fun operand member part within =>
            faithful.to ((operandsAtHand operand member).within wellBuilt within)
        intro operand member
        obtain ⟨value, found⟩ := Expression.exists_value?_of_bools? read operand member
        exact Expression.isDefined_of_value? (shapes operand member) found
    | _ => cases flattens
  · rw [Model.RepresentsOperands, if_neg flattens] at represents
    exact Model.Represents.areDefined wellBuilt assigned faithful represents operandsAtHand

theorem Plan.ResolvedIn.areDefined {plan : Plan} {earlier : Model}
    (resolved : plan.ResolvedIn earlier session.model)
    (atHand : ∀ expression ∈ plan.expressions, session.AtHand expression) :
    ∀ expression ∈ plan.resolved earlier, expression.IsDefined assignment := by
  cases resolved with
  | fused equality fusion represents operands =>
      obtain ⟨compositeMember, otherMember⟩ := Plan.mem_expressions_of_fusion equality fusion
      rw [Plan.resolved_of_fusion equality fusion]
      intro expression member
      rcases List.mem_cons.mp member with rfl | operand
      · exact represents.isDefined wellBuilt assigned faithful (atHand _ otherMember)
      · exact operands.areDefined wellBuilt assigned faithful (atHand _ compositeMember) expression
          operand
  | plain separate represented =>
      rw [Plan.resolved_of_no_fusion separate]
      intro expression member
      obtain ⟨argument, represents⟩ := represented expression member
      exact represents.isDefined wellBuilt assigned faithful (atHand expression member)

end Definedness

/-- If the expression has a value, it lies in the domain that an added variable of its kind has. -/
def Expression.FitsAdded (settings : Model.Settings) (assignment : Assignment)
    (expression : Expression) : Prop :=
  ∀ value, expression.value? assignment = some value →
    (settings.auxiliaryDomain value.kind).Contains value

/-- The assignment defines everything that the plan resolves in the model, and what the plan needs
variables for lies in their domains. -/
structure Plan.Meets (plan : Plan) (model : Model) (assignment : Assignment) : Prop where
  defined : ∀ expression ∈ plan.resolved model, expression.IsDefined assignment
  fits : ∀ part ∈ plan.needed model, part.FitsAdded model.settings assignment

theorem Plan.meets_iff {plan : Plan} {model : Model} {assignment : Assignment} :
    plan.Meets model assignment ↔
      (∀ expression ∈ plan.resolved model, expression.IsDefined assignment) ∧
        ∀ part ∈ plan.needed model, part.FitsAdded model.settings assignment :=
  ⟨fun ⟨defined, fits⟩ => ⟨defined, fits⟩, fun ⟨defined, fits⟩ => ⟨defined, fits⟩⟩

namespace Session

theorem AtHand.readsSame {session : Session} {expression : Expression}
    (wellBuilt : session.IsWellBuilt) (atHand : session.AtHand expression)
    {first second : Assignment}
    (same : ∀ id < session.model.problem.size, first id = second id) :
    expression.ReadsSame first second := by
  refine .of_agree fun v mentioned => same v.id ?_
  exact (atHand.knows wellBuilt v mentioned).id_lt

/-- The later session comes from the earlier one by accepting the declaration, for which the
expressions were resolved. Nothing waits in either. -/
structure Continues (before after : Session) (declaration : Declaration)
    (resolved : List Expression) : Prop where
  compiled : before.Compiled
  recorded : before.model.stated = before.model.problem.postings
  compiledAfter : after.Compiled
  recordedAfter : after.model.stated = after.model.problem.postings
  grows : before.Grows after
  built : after.built = before.built
  declared : after.declared = before.declared ++ [declaration]
  atHand : ∀ expression ∈ declaration.expressions, before.AtHand expression
  resolvedAtHand : ∀ expression ∈ resolved, before.AtHand expression
  introduced : ∀ label v, (label, v) ∈ after.model.definitions →
    (label, v) ∈ before.model.definitions ∨
      before.model.problem.size ≤ v.id ∧
        ∃ composite, Expression.OccursIn resolved composite ∧ composite.label? = some label
  covered : ∀ id, before.model.problem.size ≤ id → id < after.model.problem.size →
    ∃ label v, (label, v) ∈ after.model.definitions ∧ v.id = id
  defined : ∀ assignment, after.model.problem.IsAssigned assignment →
    after.IsFaithful assignment → ∀ expression ∈ resolved, expression.IsDefined assignment

theorem Compiled.continues {session : Session} (compiled : session.Compiled)
    {declaration : Declaration} {plan : Plan} (planned : declaration.plan = .ok plan)
    (permits : session.Permits (.declare declaration)) :
    (session.step .flush).Continues ((session.step (.declare declaration)).step .flush) declaration
      (plan.resolved session.model) := by
  have stepped := compiled.step permits
  have atHand := (Declaration.plan_eq_ok planned).atHand permits
  have flushedGrows := compiled.step_grows (permits_flush session)
  have grows := (compiled.step_grows permits).trans (stepped.step_grows (permits_flush _))
  have flushedCompiled := compiled.step (permits_flush session)
  have compiledAfter := stepped.step (permits_flush _)
  have planAtHand := (Declaration.plan_eq_ok planned).atHand permits
  obtain ⟨middle, posting, otherJournal, elaborates, resolved, declares⟩ :=
    compiled.step_declare_resolved planned permits
  have elaborated : session.Grows { session with model := middle } := elaborates.grows
  obtain ⟨executed, journal, flushed⟩ := compiled.step_flush
  obtain ⟨executedAfter, journalAfter, flushedAfter⟩ := stepped.step_flush
  rw [flushedAfter, declares] at grows compiledAfter ⊢
  rw [flushed] at flushedGrows flushedCompiled ⊢
  refine ⟨flushedCompiled, List.append_nil _, compiledAfter, List.append_nil _, ?_, rfl, rfl,
    fun expression member => flushedGrows.atHand (permits expression member), ?_, ?_, ?_, ?_⟩
  · obtain ⟨built, settings, domains, definitions, stated, subjects, declared⟩ := grows
    refine ⟨built, settings, domains, definitions, fun other member => stated other ?_, subjects,
      declared⟩
    rw [← List.append_nil (Model.stated session.model)]
    exact member
  · intro expression member
    obtain ⟨whole, wholeMember, within⟩ := plan.resolved_occurs session.model expression member
    exact flushedGrows.atHand ((atHand whole wholeMember).within compiled.wellBuilt within)
  · intro label v member
    rcases elaborates.from_scope (label, v) member with earlier | scope
    · exact .inl earlier
    · rcases elaborates.added.2 (label, v) member with earlier | new
      · exact .inl earlier
      · obtain ⟨part, needed, labelled⟩ := scope
        exact .inr ⟨new, part, plan.needed_occurs session.model part needed, labelled⟩
  · exact fun id new allocated => elaborates.covers new allocated
  · exact fun assignment assigned faithful => resolved.areDefined
      (elaborated.isWellBuilt compiled.wellBuilt rfl) assigned faithful
      fun expression member => elaborated.atHand (planAtHand expression member)

/-- The solution gives the user's variables the values of the assignment. -/
structure Realizes (session : Session) (users solution : Assignment) : Prop where
  solves : session.model.problem.IsSolution solution
  agrees : ∀ id < session.model.problem.size, ¬session.IsAdded id → solution id = users id

/-- Under a solution the values of composites lie in the domains of their variables. -/
theorem Compiled.fitsAdded {session : Session} (compiled : session.Compiled)
    (recorded : session.model.stated = session.model.problem.postings) {solution : Assignment}
    (solves : session.model.problem.IsSolution solution) {part : Expression}
    (atHand : session.AtHand part) (materializes : session.model.Materializes part) :
    part.FitsAdded session.model.settings solution := by
  obtain ⟨label, v, labelled, defined⟩ := materializes
  obtain ⟨_, _, kind, _, introduces, _⟩ := compiled.defines label v defined
  have faithful := ((compiled.isSatisfied_iff solves.contained.isAssigned recorded).mp
    solves.satisfied).1
  obtain ⟨value, found, variableFound⟩ := faithful.to atHand label v labelled defined
  obtain ⟨held, heldFound, member⟩ := solves.contained v.id _ introduces.domain
  cases variableFound.symm.trans heldFound
  have valueKind := Domain.kind_eq_of_contains member
  rw [Model.Settings.kind_auxiliaryDomain] at valueKind
  intro other otherFound
  cases found.symm.trans otherFound
  rw [valueKind]
  exact member

namespace Continues

variable {before after : Session} {declaration : Declaration} {resolved : List Expression}
  (continues : before.Continues after declaration resolved)

include continues

theorem users_iff {id : Nat} :
    id < after.model.problem.size ∧ ¬after.IsAdded id ↔
      id < before.model.problem.size ∧ ¬before.IsAdded id := by
  rw [continues.compiledAfter.isAdded_iff, continues.compiled.isAdded_iff]
  constructor
  · rintro ⟨allocated, users⟩
    refine ⟨?_, ?_⟩
    · by_contra new
      exact users (continues.covered id (Nat.not_lt.mp new) allocated)
    · rintro ⟨label, v, member, same⟩
      exact users ⟨label, v, continues.grows.definitions _ member, same⟩
  · rintro ⟨small, users⟩
    refine ⟨Nat.lt_of_lt_of_le small continues.grows.size_le, ?_⟩
    rintro ⟨label, v, member, rfl⟩
    rcases continues.introduced label v member with earlier | ⟨new, _⟩
    · exact users ⟨label, v, earlier, rfl⟩
    · exact absurd small (Nat.not_lt.mpr new)

/-- Solutions of the later session are solutions of the earlier one. They make the declaration
true, and define what was resolved for it. -/
theorem restricts {solution : Assignment} (solves : after.model.problem.IsSolution solution) :
    before.model.problem.IsSolution solution ∧ declaration.isTrue solution = true ∧
      ∀ expression ∈ resolved, expression.IsDefined solution := by
  have assigned := solves.contained.isAssigned
  obtain ⟨faithful, holds⟩ :=
    (continues.compiledAfter.isSatisfied_iff assigned continues.recordedAfter).mp solves.satisfied
  refine ⟨⟨?_, ?_⟩, ?_, continues.defined solution assigned faithful⟩
  · intro id domain found
    exact solves.contained id domain (continues.grows.domains id domain found)
  · intro posting member
    rw [← continues.recorded] at member
    have stated := continues.grows.stated posting member
    rw [continues.recordedAfter] at stated
    exact solves.satisfied posting stated
  · apply holds
    rw [continues.declared]
    exact List.mem_append_right _ (List.mem_singleton_self _)

/-- A composite whose variable is new occurs in what was resolved. -/
theorem occurs_of_new {label : Label} {v : Variable}
    (member : (label, v) ∈ after.model.definitions) (new : before.model.problem.size ≤ v.id)
    {composite : Expression} (built : before.built[label]? = some composite) :
    Expression.OccursIn resolved composite ∧ composite.label? ≠ none := by
  rcases continues.introduced label v member with earlier | ⟨_, part, occurs, labelled⟩
  · obtain ⟨_, _, _, _, introduces, _⟩ := continues.compiled.defines label v earlier
    exact absurd introduces.id_lt (Nat.not_lt.mpr new)
  · obtain ⟨whole, wholeMember, within⟩ := occurs
    have wholeAtHand := continues.resolvedAtHand whole wholeMember
    cases (wholeAtHand.isListed continues.compiled.wellBuilt part within label labelled).symm.trans
      built
    exact ⟨⟨whole, wholeMember, within⟩, by simp [labelled]⟩

section Extension

variable {assignment : Assignment} (solves : before.model.problem.IsSolution assignment)

include solves

theorem faithful : before.IsFaithful assignment :=
  ((continues.compiled.isSatisfied_iff solves.contained.isAssigned continues.recorded).mp
    solves.satisfied).1

/-- On the variables of the earlier session the completion agrees with what it completes. -/
theorem completion_eq {id : Nat} (small : id < before.model.problem.size) :
    after.completion assignment id = assignment id := by
  by_cases added : after.IsAdded id
  · obtain ⟨label, v, member, rfl⟩ := continues.compiledAfter.isAdded_iff.mp added
    rcases continues.introduced label v member with earlier | ⟨new, _⟩
    · obtain ⟨composite, value, built, found, variableFound⟩ :=
        continues.faithful solves label v earlier
      have builtAfter := continues.grows.built label composite built
      rw [completion_of_defined continues.compiledAfter assignment member builtAfter, found,
        variableFound]
    · exact absurd small (Nat.not_lt.mpr new)
  · exact completion_of_not_added continues.compiledAfter assignment added

theorem readsSame {expression : Expression} (atHand : before.AtHand expression) :
    expression.ReadsSame (after.completion assignment) assignment :=
  atHand.readsSame continues.compiled.wellBuilt fun _ => continues.completion_eq solves

variable (defined : ∀ expression ∈ resolved, expression.IsDefined assignment)

include defined

theorem exists_value {label : Label} {v : Variable}
    (member : (label, v) ∈ after.model.definitions) :
    ∃ composite value, before.built[label]? = some composite ∧
      composite.value? assignment = some value ∧ value.kind = v.kind := by
  have wellBuilt := continues.compiled.wellBuilt
  obtain ⟨connective, operands, kind, arguments, introduces, _⟩ :=
    continues.compiledAfter.defines label v member
  have atHand : before.AtHand (.composite label connective operands kind) := by
    have built := introduces.built
    rw [continues.built] at built
    exact built
  have found : ∃ value,
      (Expression.composite label connective operands kind).value? assignment = some value := by
    rcases continues.introduced label v member with earlier | ⟨_, part, occurs, labelled⟩
    · obtain ⟨_, value, built, found, _⟩ := continues.faithful solves label v earlier
      cases built.symm.trans atHand
      exact ⟨value, found⟩
    · obtain ⟨whole, wholeMember, within⟩ := occurs
      have wholeAtHand := continues.resolvedAtHand whole wholeMember
      cases (wholeAtHand.isListed wellBuilt part within label labelled).symm.trans atHand
      exact (defined whole wholeMember).within wellBuilt within wholeAtHand
  obtain ⟨value, found⟩ := found
  refine ⟨_, value, atHand, found, ?_⟩
  exact (Expression.kind_of_value? solves.contained.isAssigned.respects wellBuilt atHand rfl
    found).trans introduces.kind_eq.symm

/-- A solution of the earlier session under which the declaration is true, and everything that was
resolved for it is defined, extends to a solution of the later session, if the composites that got
a variable for it lie in the domains of added variables. -/
theorem exists_extension (holds : declaration.isTrue assignment = true)
    (fits : ∀ label v, (label, v) ∈ after.model.definitions → before.model.problem.size ≤ v.id →
      ∀ composite, before.built[label]? = some composite →
        composite.FitsAdded before.model.settings assignment) :
    ∃ solution, after.model.problem.IsSolution solution ∧
      ∀ id < before.model.problem.size, solution id = assignment id := by
  have contained : after.model.problem.IsContained (after.completion assignment) := by
    intro id domain found
    by_cases small : id < before.model.problem.size
    · rw [continues.completion_eq solves small]
      exact solves.contained id domain ((continues.grows.domain_iff small).mp found)
    · have new := Nat.not_lt.mp small
      obtain ⟨label, v, member, rfl⟩ :=
        continues.covered id new (List.getElem?_eq_some_iff.mp found).1
      obtain ⟨composite, value, built, valueFound, kind⟩ :=
        continues.exists_value solves defined member
      refine ⟨value, ?_, ?_⟩
      · rw [completion_of_defined continues.compiledAfter assignment member
          (continues.grows.built label composite built), valueFound]
      · obtain ⟨_, _, _, _, introduces, _⟩ := continues.compiledAfter.defines label v member
        cases found.symm.trans introduces.domain
        rw [continues.grows.settings, ← introduces.kind_eq, ← kind]
        exact fits label v member new composite built value valueFound
  refine ⟨after.completion assignment, ⟨contained, ?_⟩,
    fun id small => continues.completion_eq solves small⟩
  rw [continues.compiledAfter.isSatisfied_iff contained.isAssigned continues.recordedAfter]
  constructor
  · intro label v member
    obtain ⟨composite, value, built, valueFound, _⟩ := continues.exists_value solves defined member
    have builtAfter := continues.grows.built label composite built
    have atHand : before.AtHand composite := by
      obtain ⟨_, _, _, rfl, _⟩ := continues.compiled.wellBuilt label composite built
      exact built
    refine ⟨composite, value, builtAfter, ?_, ?_⟩
    · rw [(continues.readsSame solves atHand).1, valueFound]
    · rw [completion_of_defined continues.compiledAfter assignment member builtAfter, valueFound]
  · intro other member
    rw [continues.declared] at member
    rcases List.mem_append.mp member with earlier | new
    · rw [Declaration.isTrue_congr fun expression found => continues.readsSame solves
        (continues.compiled.atHand expression (mem_subjects_of_declared earlier found))]
      exact ((continues.compiled.isSatisfied_iff solves.contained.isAssigned
        continues.recorded).mp solves.satisfied).2 other earlier
    · rw [List.mem_singleton.mp new, Declaration.isTrue_congr fun expression found =>
        continues.readsSame solves (continues.atHand expression found)]
      exact holds

end Extension

theorem realizes_restricts {users solution : Assignment}
    (realizes : after.Realizes users solution) : before.Realizes users solution := by
  refine ⟨(continues.restricts realizes.solves).1, fun id small own => ?_⟩
  obtain ⟨allocated, own⟩ := continues.users_iff.mpr ⟨small, own⟩
  exact realizes.agrees id allocated own

theorem realizes_extends {users assignment solution : Assignment}
    (realizes : before.Realizes users assignment)
    (solves : after.model.problem.IsSolution solution)
    (same : ∀ id < before.model.problem.size, solution id = assignment id) :
    after.Realizes users solution := by
  refine ⟨solves, fun id allocated own => ?_⟩
  obtain ⟨small, own⟩ := continues.users_iff.mp ⟨allocated, own⟩
  rw [same id small]
  exact realizes.agrees id small own

/-- Over an assignment of the user's variables the later session has the solutions that the earlier
one has, where the declaration is true and everything that was resolved for it is defined within the
domains of added variables. This keeps every property that reads the earlier variables alone. -/
theorem exists_realizes_iff {users : Assignment} {property : Assignment → Prop}
    (reads : ∀ first second : Assignment,
      (∀ id < before.model.problem.size, first id = second id) → property first → property second)
    (fits : ∀ assignment, before.model.problem.IsContained assignment →
      ∀ part, Expression.OccursIn resolved part → part.label? ≠ none →
        ∀ value, part.value? assignment = some value →
          (before.model.settings.auxiliaryDomain value.kind).Contains value) :
    (∃ solution, after.Realizes users solution ∧ property solution) ↔
      ∃ solution, before.Realizes users solution ∧ declaration.isTrue solution = true ∧
        (∀ expression ∈ resolved, expression.IsDefined solution) ∧ property solution := by
  constructor
  · rintro ⟨solution, realizes, holds⟩
    obtain ⟨_, isTrue, defined⟩ := continues.restricts realizes.solves
    exact ⟨solution, continues.realizes_restricts realizes, isTrue, defined, holds⟩
  · rintro ⟨assignment, realizes, isTrue, defined, holds⟩
    obtain ⟨solution, solves, same⟩ := continues.exists_extension realizes.solves defined isTrue
      fun label v member new composite built => by
        obtain ⟨occurs, labelled⟩ := continues.occurs_of_new member new built
        exact fits assignment realizes.solves.contained composite occurs labelled
    refine ⟨solution, continues.realizes_extends realizes solves same, ?_⟩
    exact reads assignment solution (fun id small => (same id small).symm) holds

/-- Over an assignment of the user's variables the later session has a solution if the earlier one
has, where the declaration is true, everything that was resolved for it is defined, and everything
that needs a variable for it lies in the domain of an added variable. -/
theorem exists_realizes_iff_of_allots {users : Assignment} {needed : List Expression}
    (allots : before.Allots after needed) :
    (∃ solution, after.Realizes users solution) ↔
      ∃ solution, before.Realizes users solution ∧ declaration.isTrue solution = true ∧
        (∀ expression ∈ resolved, expression.IsDefined solution) ∧
        ∀ part ∈ needed, part.FitsAdded before.model.settings solution := by
  constructor
  · rintro ⟨solution, realizes⟩
    obtain ⟨_, isTrue, defined⟩ := continues.restricts realizes.solves
    refine ⟨solution, continues.realizes_restricts realizes, isTrue, defined, fun part member => ?_⟩
    rw [← continues.grows.settings]
    exact continues.compiledAfter.fitsAdded continues.recordedAfter realizes.solves
      (continues.grows.atHand (allots.atHand part member)) (allots.materialized part member)
  · rintro ⟨assignment, realizes, isTrue, defined, fits⟩
    obtain ⟨solution, solves, same⟩ := continues.exists_extension realizes.solves defined isTrue
      fun label v member new composite built => by
        rcases allots.introduced label v member with earlier | ⟨part, needs, labelled⟩
        · obtain ⟨_, _, _, _, introduces, _⟩ := continues.compiled.defines label v earlier
          exact absurd introduces.id_lt (Nat.not_lt.mpr new)
        · have listed := (allots.atHand part needs).isListed continues.compiled.wellBuilt
          rw [Option.some.inj ((listed part (.self _) label labelled).symm.trans built)] at needs
          exact fits composite needs
    exact ⟨solution, continues.realizes_extends realizes solves same⟩

end Continues

theorem Compiled.definitions_flush {session : Session} (compiled : session.Compiled) :
    (session.step .flush).model.definitions = session.model.definitions := by
  obtain ⟨executed, journal, flushed⟩ := compiled.step_flush
  rw [flushed]

section Run

variable {settings : Model.Settings} {actions : List Action} {declaration : Declaration}

theorem flushedRun_declare :
    flushedRun settings (actions ++ [.declare declaration]) =
      (((start settings).run actions).step (.declare declaration)).step .flush := by
  rw [flushedRun, run_append]
  rfl

theorem flushedRun_declare_error {error : Error} (refused : declaration.plan = .error error) :
    flushedRun settings (actions ++ [.declare declaration]) = flushedRun settings actions := by
  rw [flushedRun_declare, step_declare_error refused]
  rfl

variable {plan : Plan} (planned : declaration.plan = .ok plan)
  (admits : (start settings).Admits (actions ++ [.declare declaration]))

include planned admits

theorem flushedRun_continues :
    (flushedRun settings actions).Continues
      (flushedRun settings (actions ++ [.declare declaration])) declaration
      (plan.resolved (flushedRun settings actions).model) := by
  obtain ⟨before, permits, _⟩ := admits_append.mp admits
  have compiled := (compiled_start settings).run before
  rw [flushedRun_declare, flushedRun, Plan.resolved_congr compiled.definitions_flush]
  exact compiled.continues planned permits

theorem flushedRun_allots :
    (flushedRun settings actions).Allots
      (flushedRun settings (actions ++ [.declare declaration]))
      (plan.needed (flushedRun settings actions).model) := by
  obtain ⟨before, permits, _⟩ := admits_append.mp admits
  have compiled := (compiled_start settings).run before
  have stepped := compiled.step permits
  obtain ⟨atHand, materialized, introduced⟩ := compiled.step_declare_allots planned permits
  rw [flushedRun_declare, flushedRun, Plan.needed_congr compiled.definitions_flush]
  refine ⟨fun part member => ?_, fun part member => ?_, ?_⟩
  · exact (compiled.step_grows (permits_flush _)).atHand (atHand part member)
  · exact (materialized part member).mono (stepped.step_grows (permits_flush _)).definitions
  · rw [compiled.definitions_flush, stepped.definitions_flush]
    exact introduced

/-- One more declaration leaves the solutions that make it true and meet what its plan asks for. -/
theorem flushedRun_realizes_iff {users : Assignment} :
    (∃ solution,
        (flushedRun settings (actions ++ [.declare declaration])).Realizes users solution) ↔
      ∃ solution, (flushedRun settings actions).Realizes users solution ∧
        declaration.isTrue solution = true ∧
        plan.Meets (flushedRun settings actions).model solution := by
  rw [(flushedRun_continues planned admits).exists_realizes_iff_of_allots
    (flushedRun_allots planned admits)]
  simp only [Plan.meets_iff]

end Run

end Session

end ConstraintCompiler
