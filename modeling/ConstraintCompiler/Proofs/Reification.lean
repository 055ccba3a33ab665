import ConstraintCompiler.Proofs.Completion
import Mathlib.Logic.Function.Basic

/-!
Contract: what a reified relation says about its sides.

Owns:
- `Action.prepares`, the actions that allocate and build, and `Declaration.reified`, a relation
  bound to a variable;
- `Session.Binds`, the solutions over an assignment of all the user's variables but the target;
- `Session.reified_binds_target`: if nothing else is declared, an assignment extends to a solution
  exactly when both sides have values under it, and the target then says whether the relation holds;
- `Session.reified_element_excludes`, an assignment that a reified relation leaves without a
  solution, because a side has no value under it.
-/

namespace ConstraintCompiler

def Action.prepares : Action → Bool
  | .allocate _ | .allocateArray _ _ | .fresh _ | .build _ => true
  | .resolve _ | .declare _ | .flush => false

def Declaration.reified (left : Expression) (relation : Relation) (right : Expression)
    (negated : Bool) (target : Variable) : Declaration where
  statement := .relate left relation right
  negated := negated
  options := { target := some (.variable target) }

namespace Session

/-! ### A run that declares once -/

structure IsSilent (session : Session) : Prop where
  definitions : session.model.definitions = []
  queue : session.model.queue = []
  postings : session.model.problem.postings = []
  resolved : session.resolved = []
  declared : session.declared = []

theorem IsSilent.step {session : Session} (silent : session.IsSilent) {action : Action}
    (prepares : action.prepares = true) : (session.step action).IsSilent := by
  cases action with
  | allocate domain | allocateArray count domain | fresh kind =>
      exact ⟨silent.definitions, silent.queue, silent.postings, silent.resolved, silent.declared⟩
  | build composition =>
      cases built : composition.build session.model.nextLabel with
      | error error =>
          rw [step_build_error built]
          exact silent
      | ok expression =>
          rw [step_build_ok built]
          exact ⟨silent.definitions, silent.queue, silent.postings, silent.resolved,
            silent.declared⟩
  | resolve expression | declare declaration | flush => cases prepares

theorem IsSilent.run {session : Session} (silent : session.IsSilent) {actions : List Action}
    (prepares : ∀ action ∈ actions, action.prepares = true) : (session.run actions).IsSilent := by
  induction actions generalizing session with
  | nil => exact silent
  | cons action rest inductionHypothesis =>
      exact inductionHypothesis (silent.step (prepares action (List.mem_cons_self ..)))
        fun other member => prepares other (List.mem_cons_of_mem _ member)

/-! ### Assignments of all but the target -/

/-- Every variable that belongs to no composite, apart from the target, has a value of its kind,
and nothing else has one. -/
structure IsUsersBut (session : Session) (target : Variable) (assignment : Assignment) : Prop where
  assigned : ∀ (id : Nat) (domain : Domain), session.model.problem.domains[id]? = some domain →
    ¬session.IsAdded id → id ≠ target.id →
      ∃ value, assignment id = some value ∧ value.kind = domain.kind
  only : ∀ (id : Nat) (value : Value), assignment id = some value →
    id < session.model.problem.size ∧ ¬session.IsAdded id ∧ id ≠ target.id

/-- The second assignment gives every variable a value and makes the recorded postings true. It
differs from the first on the target and on the variables of composites alone. -/
structure Binds (session : Session) (target : Variable) (assignment solution : Assignment) :
    Prop where
  keeps : ∀ id, ¬session.IsAdded id → id ≠ target.id → solution id = assignment id
  assigned : session.model.problem.IsAssigned solution
  satisfied : session.model.problem.IsSatisfied solution

section Target

variable {session : Session} {target : Variable} {assignment : Assignment}
  (known : session.model.problem.Knows target) (targetKind : target.kind = .bool)
  (notAdded : ¬session.IsAdded target.id)

include known targetKind notAdded

theorem IsUsersBut.isUsers (users : session.IsUsersBut target assignment) (truth : Bool) :
    session.IsUsers (Function.update assignment target.id (some (.bool truth))) where
  assigned := by
    intro id domain found users'
    by_cases same : id = target.id
    · obtain ⟨own, ownFound, kind⟩ := known.domain
      rw [same, ownFound] at found
      cases found
      refine ⟨.bool truth, by rw [same, Function.update_self], ?_⟩
      rw [kind, targetKind]
      rfl
    · rw [Function.update_of_ne same]
      exact users.assigned id domain found users' same
  only := by
    intro id value found
    by_cases same : id = target.id
    · rw [same]
      exact ⟨known.id_lt, notAdded⟩
    · rw [Function.update_of_ne same] at found
      obtain ⟨small, others, _⟩ := users.only id value found
      exact ⟨small, others⟩

omit notAdded in
/-- A solution over all but the target is a solution over all for one value of the target. -/
theorem binds_iff {solution : Assignment} :
    session.Binds target assignment solution ↔
      ∃ truth, solution target.id = some (.bool truth) ∧
        session.Solves (Function.update assignment target.id (some (.bool truth))) solution := by
  constructor
  · intro binds
    obtain ⟨value, found, valueKind⟩ := binds.assigned.value known
    obtain ⟨truth, rfl⟩ := Value.exists_bool (valueKind.trans targetKind)
    refine ⟨truth, found, ⟨fun id users => ?_, binds.assigned⟩, binds.satisfied⟩
    by_cases same : id = target.id
    · rw [same, Function.update_self, found]
    · rw [Function.update_of_ne same, binds.keeps id users same]
  · rintro ⟨truth, _, completes, satisfied⟩
    refine ⟨fun id users different => ?_, completes.assigned, satisfied⟩
    rw [completes.keeps id users, Function.update_of_ne different]

end Target

/-! ### A single reified relation -/

section Reified

variable {left right : Expression} {relation : Relation} {kind : Kind}
  (leftShape : left.shape = .scalar kind) (fits : relation.fits kind = true)
  (rightShape : right.shape = .scalar kind) {negated : Bool} {target : Variable}

include leftShape fits rightShape

theorem reified_plan (targetKind : target.kind = .bool) :
    (Declaration.reified left relation right negated target).plan =
      .ok ((Declaration.reified left relation right negated target).annotated .relation
        [left, right] [] (some relation)) := by
  apply Declaration.plan_relate rfl _ rfl leftShape fits rightShape
  intro wanted found
  cases found
  exact ⟨congrArg Shape.scalar targetKind, nofun⟩

end Reified

/-- The session has declared one reified relation, and resolved nothing else. Its sides and its
target mention no variable of a composite. -/
structure DeclaresReified (session : Session) (left : Expression) (relation : Relation)
    (right : Expression) (negated : Bool) (target : Variable) : Prop where
  compiled : session.Compiled
  recorded : session.model.stated = session.model.problem.postings
  resolved : session.resolved = []
  declared : session.declared = [.reified left relation right negated target]
  planned : (Declaration.reified left relation right negated target).plan =
    .ok ((Declaration.reified left relation right negated target).annotated .relation
      [left, right] [] (some relation))
  users : ∀ expression ∈ (Declaration.reified left relation right negated target).expressions,
    ∀ v ∈ expression.mentions, ¬session.IsAdded v.id

/-- A run that only prepares for a reified relation, and then declares it, declares that one. -/
theorem declaresReified {settings : Model.Settings} {actions : List Action}
    (prepares : ∀ action ∈ actions, action.prepares = true) {left right : Expression}
    {relation : Relation} {kind : Kind} (leftShape : left.shape = .scalar kind)
    (fits : relation.fits kind = true) (rightShape : right.shape = .scalar kind) {negated : Bool}
    {target : Variable} (targetKind : target.kind = .bool)
    (admits : (start settings).Admits
      (actions ++ [.declare (.reified left relation right negated target)])) :
    (flushedRun settings
      (actions ++ [.declare (.reified left relation right negated target)])).DeclaresReified
        left relation right negated target := by
  obtain ⟨compiled, _, recorded⟩ := flushedRun_spec admits
  obtain ⟨before, permits, _⟩ := admits_append.mp admits
  have prepared := (compiled_start settings).run before
  have silent : ((start settings).run actions).IsSilent :=
    IsSilent.run ⟨rfl, rfl, rfl, rfl, rfl⟩ prepares
  have planned : (Declaration.reified left relation right negated target).plan = .ok _ :=
    reified_plan leftShape fits rightShape targetKind
  obtain ⟨middle, posting, otherJournal, elaborates, _, declares⟩ :=
    prepared.step_declare planned permits
  obtain ⟨executed, journal, flushed⟩ := (prepared.step permits).step_flush
  have after : flushedRun settings
      (actions ++ [.declare (.reified left relation right negated target)]) =
        (((start settings).run actions).step
          (.declare (.reified left relation right negated target))).step .flush := by
    rw [flushedRun, run_append]
    rfl
  refine ⟨compiled, recorded, ?_, ?_, planned, ?_⟩
  · rw [after, flushed, declares]
    exact silent.resolved
  · rw [after, flushed, declares]
    simp [silent.declared]
  · intro expression member v mentioned added
    obtain ⟨label, w, defined, same⟩ := compiled.isAdded_iff.mp added
    rw [after, flushed, declares] at defined
    have known := (permits expression member).knows prepared.wellBuilt v mentioned
    rcases elaborates.added.2 _ defined with earlier | fresh
    · rw [silent.definitions] at earlier
      cases earlier
    · rw [same] at fresh
      exact absurd known.id_lt (Nat.not_lt.mpr fresh)

namespace DeclaresReified

variable {session : Session} {left right : Expression} {relation : Relation} {negated : Bool}
  {target : Variable} (declares : session.DeclaresReified left relation right negated target)

include declares

theorem subjects_eq : session.subjects = [left, right, .variable target] := by
  rw [subjects, declares.resolved, declares.declared]
  rfl

theorem isSettled (assignment : Assignment) : session.IsSettled assignment := by
  apply IsSettled.of_mentions
  rw [declares.subjects_eq]
  exact declares.users

theorem atHand : session.AtHand left ∧ session.AtHand right ∧
    session.model.problem.Knows target := by
  have subject := declares.compiled.atHand
  rw [declares.subjects_eq] at subject
  exact ⟨subject left (by simp), subject right (by simp), subject (.variable target) (by simp)⟩

theorem target_notAdded : ¬session.IsAdded target.id :=
  declares.users (.variable target) (List.mem_append_right _ (List.mem_singleton_self _)) target
    (List.mem_singleton_self _)

section Sides

variable {assignment : Assignment} (users : session.IsUsers assignment)

include users

/-- A side that the model represents is defined if every composite with a variable has a value. -/
theorem isDefined_of_represents {side : Expression} (member : side ∈ session.subjects)
    {argument : Argument} (represents : session.model.Represents side argument)
    (valued : session.IsValued assignment) : side.IsDefined assignment := by
  have atHand := declares.compiled.atHand side member
  by_cases simple : side.label? = none
  · refine (Expression.hasValue_of_mentions users.respects atHand simple ?_).isDefined
    intro v mentioned
    obtain ⟨domain, found, _⟩ := (atHand.knows declares.compiled.wellBuilt v mentioned).domain
    rw [declares.subjects_eq] at member
    obtain ⟨value, valueFound, _⟩ :=
      users.assigned v.id domain found (declares.users side member v mentioned)
    exact ⟨value, valueFound⟩
  · cases represents with
    | composite defined => exact valued _ _ defined _ atHand
    | _ => exact absurd rfl simple

/-- Every composite with a variable has a value exactly when both sides are defined. -/
theorem isValued_iff :
    session.IsValued assignment ↔ left.IsDefined assignment ∧ right.IsDefined assignment := by
  constructor
  · intro valued
    obtain ⟨plan, posting, planned, finishes, _⟩ := declares.compiled.ends
      (.reified left relation right negated target) (by simp [declares.declared])
    cases declares.planned.symm.trans planned
    cases finishes with
    | plain sides _ =>
        obtain ⟨leftArgument, others, leftRepresents, rest, _⟩ :=
          List.forall₂_cons_left_iff.mp sides
        obtain ⟨rightArgument, _, rightRepresents, _⟩ := List.forall₂_cons_left_iff.mp rest
        constructor
        · exact declares.isDefined_of_represents users (by simp [declares.subjects_eq])
            leftRepresents valued
        · exact declares.isDefined_of_represents users (by simp [declares.subjects_eq])
            rightRepresents valued
    | fused equality => cases (Plan.equality?_eq_some equality).2.2.1
  · rintro ⟨leftDefined, rightDefined⟩
    have wellBuilt := declares.compiled.wellBuilt
    obtain ⟨leftAtHand, rightAtHand, _⟩ := declares.atHand
    apply declares.compiled.isValued_of_subjects
    intro subject member part within labelled
    have partDefined : part.IsDefined assignment := by
      rw [declares.subjects_eq] at member
      simp only [List.mem_cons, List.not_mem_nil, or_false] at member
      rcases member with rfl | rfl | rfl
      · exact leftDefined.within wellBuilt within leftAtHand
      · exact rightDefined.within wellBuilt within rightAtHand
      · cases within
        exact absurd rfl labelled
    cases part with
    | composite => exact partDefined
    | _ => exact absurd rfl labelled

end Sides

/-! ### What the target says -/

section Target

variable {assignment : Assignment}
  (fresh : ∀ v ∈ left.mentions ++ right.mentions, v.id ≠ target.id)

include fresh

omit declares in
theorem readsSame_update {part : Expression} (occurs : Expression.OccursIn [left, right] part)
    (truth : Bool) :
    part.ReadsSame (Function.update assignment target.id (some (.bool truth))) assignment := by
  obtain ⟨side, member, within⟩ := occurs
  refine .of_agree fun v mentioned => Function.update_of_ne (fresh v ?_) _ _
  have inSide := Expression.mentions_subset_of_within within v mentioned
  rcases List.mem_pair.mp member with rfl | rfl
  · exact List.mem_append_left _ inSide
  · exact List.mem_append_right _ inSide

omit declares in
theorem isTrue_update (truth : Bool) :
    (Declaration.reified left relation right negated target).isTrue
        (Function.update assignment target.id (some (.bool truth))) = true ↔
      truth = (Declaration.reified left relation right negated target).assertion assignment := by
  have same : (Declaration.reified left relation right negated target).assertion
      (Function.update assignment target.id (some (.bool truth))) =
        (Declaration.reified left relation right negated target).assertion assignment :=
    Declaration.assertion_congr fun side member =>
      readsSame_update fresh ⟨side, member, .self side⟩ truth
  have read : (Expression.variable target).value?
      (Function.update assignment target.id (some (.bool truth))) = some (.bool truth) :=
    Function.update_self ..
  rw [Declaration.isTrue, same]
  simp [Declaration.reified, read]

variable (users : session.IsUsersBut target assignment) (targetKind : target.kind = .bool)

include users targetKind

/-- With a given truth for the target there is a solution exactly when both sides are defined and
this is the truth of the relation. -/
theorem exists_solves_iff (truth : Bool) :
    (∃ solution, session.Solves
        (Function.update assignment target.id (some (.bool truth))) solution) ↔
      (left.IsDefined assignment ∧ right.IsDefined assignment) ∧
        truth = (Declaration.reified left relation right negated target).assertion assignment := by
  have isUsers := users.isUsers declares.atHand.2.2 targetKind declares.target_notAdded truth
  have solvable :=
    declares.compiled.exists_solves_iff isUsers (declares.isSettled _) declares.recorded
  rw [declares.isValued_iff isUsers, declares.declared] at solvable
  have leftSame : left.ReadsSame _ assignment :=
    readsSame_update fresh (.head (.self left)) truth
  have rightSame : right.ReadsSame _ assignment :=
    readsSame_update fresh (.tail (.head (.self right))) truth
  rw [leftSame.isDefined_iff, rightSame.isDefined_iff] at solvable
  refine Iff.trans solvable (and_congr_right fun _ => ?_)
  rw [List.forall_mem_singleton, isTrue_update fresh]

/-- An assignment extends to a solution exactly when both sides are defined under it. -/
theorem exists_binds_iff :
    (∃ solution, session.Binds target assignment solution) ↔
      left.IsDefined assignment ∧ right.IsDefined assignment := by
  have known := declares.atHand.2.2
  constructor
  · rintro ⟨solution, binds⟩
    obtain ⟨truth, _, solves⟩ := (binds_iff known targetKind).mp binds
    exact ((declares.exists_solves_iff fresh users targetKind truth).mp ⟨solution, solves⟩).1
  · intro defined
    obtain ⟨solution, solves⟩ :=
      (declares.exists_solves_iff fresh users targetKind _).mpr ⟨defined, rfl⟩
    refine ⟨solution, (binds_iff known targetKind).mpr ⟨_, ?_, solves⟩⟩
    rw [solves.1.keeps target.id declares.target_notAdded, Function.update_self]

/-- In every solution the target says whether the relation holds. -/
theorem target_of_binds {solution : Assignment}
    (binds : session.Binds target assignment solution) :
    solution target.id = some (.bool
      ((Declaration.reified left relation right negated target).assertion assignment)) := by
  obtain ⟨truth, found, solves⟩ := (binds_iff declares.atHand.2.2 targetKind).mp binds
  obtain ⟨_, same⟩ :=
    (declares.exists_solves_iff fresh users targetKind truth).mp ⟨solution, solves⟩
  rw [found, same]

omit users in
/-- In every solution the variables of composites have values that the composites have under the
assignment. -/
theorem value_of_binds {solution : Assignment}
    (binds : session.Binds target assignment solution) {label : Label} {v : Variable}
    (defined : session.model.definition? label = some v) :
    ∃ part value, Expression.OccursIn [left, right] part ∧ part.label? ≠ none ∧
      part.value? assignment = some value ∧ solution v.id = some value ∧ value.kind = v.kind := by
  obtain ⟨truth, _, completes, satisfied⟩ := (binds_iff declares.atHand.2.2 targetKind).mp binds
  have faithful :=
    ((declares.compiled.isSatisfied_iff completes.assigned declares.recorded).mp satisfied).1
  have member := declares.compiled.definition?_iff.mp defined
  obtain ⟨part, value, built, labelled, found, variableFound, kind⟩ :=
    declares.compiled.value_of_added (declares.isSettled _) completes faithful member
  have occurs := declares.compiled.occurs label v member part built
  rw [declares.subjects_eq] at occurs
  obtain ⟨subject, subjectMember, within⟩ := occurs
  have inSides : Expression.OccursIn [left, right] part := by
    simp only [List.mem_cons, List.not_mem_nil, or_false] at subjectMember
    rcases subjectMember with rfl | rfl | rfl
    · exact .head within
    · exact .tail (.head within)
    · cases within
      exact absurd rfl labelled
  rw [(readsSame_update fresh inSides truth).1] at found
  exact ⟨part, value, inSides, labelled, found, variableFound, kind⟩

end Target

end DeclaresReified

/-- A run that prepares for a reified relation between sides that do not mention its target, and
then declares it and flushes, admits an assignment of the other variables exactly when both sides
are defined under it. In each solution the target says whether the relation holds, and the variables
of composites stay in the domains of added variables if the values of the composites lie there. -/
theorem reified_binds_target (settings : Model.Settings) (actions : List Action)
    (prepares : ∀ action ∈ actions, action.prepares = true) (left right : Expression)
    (relation : Relation) (kind : Kind) (leftShape : left.shape = .scalar kind)
    (fits : relation.fits kind = true) (rightShape : right.shape = .scalar kind) (negated : Bool)
    (target : Variable) (targetKind : target.kind = .bool)
    (fresh : ∀ v ∈ left.mentions ++ right.mentions, v.id ≠ target.id)
    (admits : (start settings).Admits
      (actions ++ [.declare (.reified left relation right negated target)])) :
    let session := flushedRun settings
      (actions ++ [.declare (.reified left relation right negated target)])
    session.declared = [.reified left relation right negated target] ∧
      ∀ assignment, session.IsUsersBut target assignment →
        ((∃ solution, session.Binds target assignment solution) ↔
            left.IsDefined assignment ∧ right.IsDefined assignment) ∧
          ∀ solution, session.Binds target assignment solution →
            solution target.id = some (.bool
                ((Declaration.reified left relation right negated target).assertion assignment)) ∧
              ((∀ part, Expression.OccursIn [left, right] part → part.label? ≠ none →
                  ∀ value, part.value? assignment = some value →
                    (settings.auxiliaryDomain value.kind).Contains value) →
                ∀ label v, session.model.definition? label = some v →
                  ∃ value, solution v.id = some value ∧
                    (settings.auxiliaryDomain v.kind).Contains value) := by
  intro session
  have declares : session.DeclaresReified left relation right negated target :=
    declaresReified prepares leftShape fits rightShape targetKind admits
  refine ⟨declares.declared, fun assignment users =>
    ⟨declares.exists_binds_iff fresh users targetKind, fun solution binds =>
      ⟨declares.target_of_binds fresh users targetKind binds, ?_⟩⟩⟩
  intro contained label v defined
  obtain ⟨part, value, occurs, labelled, found, variableFound, valueKind⟩ :=
    declares.value_of_binds fresh targetKind binds defined
  have fits := contained part occurs labelled value found
  rw [valueKind] at fits
  exact ⟨value, variableFound, fits⟩

/-- An item of a constant array, at a position that ranges beyond its end. -/
def itemOfTwo : Expression :=
  .composite 0 .element [.constant (.ints [5, 7]), .variable ⟨0, .int⟩] .int

/-- The item is the only composite in itself, and its values lie in the domain of its variable. -/
theorem itemOfTwo_fits (assignment : Assignment) {part : Expression}
    (within : part.Within itemOfTwo) (labelled : part.label? ≠ none) (value : Value)
    (found : part.value? assignment = some value) :
    (({} : Model.Settings).auxiliaryDomain value.kind).Contains value := by
  cases within with
  | self =>
      simp only [itemOfTwo, Expression.value?, Option.bind_eq_bind,
        Option.bind_eq_some_iff] at found
      obtain ⟨values, array, index, _, number, _, item⟩ := found
      cases array
      have member := mem_of_itemAt? item
      simp only [List.map_cons, List.map_nil] at member
      rcases List.mem_pair.mp member with rfl | rfl <;> exact ⟨by decide, by decide⟩
  | operand member inner =>
      rcases List.mem_pair.mp member with rfl | rfl
      all_goals
        cases inner
        exact absurd rfl labelled

def bindsSeven : Declaration := .reified itemOfTwo .eq (.constant (.int 7)) false ⟨1, .bool⟩

def preparesItem : List Action :=
  [ .allocate (.int 0 9),
    .allocate .bool,
    .build (.element (.constant (.ints [5, 7])) (.variable ⟨0, .int⟩)) ]

theorem admits_bindsSeven : (start {}).Admits (preparesItem ++ [.declare bindsSeven]) := by
  refine ⟨nofun, nofun, ?_, ?_, trivial⟩
  · intro expression member
    rcases List.mem_pair.mp member with rfl | rfl <;> trivial
  · intro expression member
    rcases member with _ | ⟨_, _ | ⟨_, _ | ⟨_, _ | _⟩⟩⟩ <;> trivial

theorem isUsersBut_bindsSeven (position : Int) :
    (flushedRun {} (preparesItem ++ [.declare bindsSeven])).IsUsersBut ⟨1, .bool⟩
      (Search.assigning [.int position]) := by
  constructor
  · intro id domain found notAdded others
    rcases id with _ | _ | _ | id
    · cases found
      exact ⟨.int position, rfl, rfl⟩
    · exact absurd rfl others
    · exact absurd ⟨0, ⟨2, .int⟩, rfl, rfl⟩ notAdded
    · cases found
  · intro id value found
    have small : id < 1 := (List.getElem?_eq_some_iff.mp found).1
    refine ⟨Nat.lt_of_lt_of_le small (by decide), ?_, Nat.ne_of_lt small⟩
    rintro ⟨label, v, defined, rfl⟩
    have member := Model.mem_definitions_of_definition? defined
    have only : (flushedRun {} (preparesItem ++ [.declare bindsSeven])).model.definitions =
        [(0, ⟨2, .int⟩)] := rfl
    rw [only, List.mem_singleton, Prod.mk.injEq] at member
    rw [member.2] at small
    exact absurd small (by decide)

theorem bindsSeven_target :
    (start {}).Admits (preparesItem ++ [.declare bindsSeven]) ∧
      ∃ solution, (flushedRun {} (preparesItem ++ [.declare bindsSeven])).Binds ⟨1, .bool⟩
          (Search.assigning [.int 1]) solution ∧
        solution 1 = some (.bool true) := by
  refine ⟨admits_bindsSeven, ?_⟩
  obtain ⟨solvable, told⟩ := (reified_binds_target {} preparesItem (by decide) itemOfTwo
    (.constant (.int 7)) .eq .int rfl rfl rfl false ⟨1, .bool⟩ rfl (by decide)
    admits_bindsSeven).2 _ (isUsersBut_bindsSeven 1)
  obtain ⟨solution, binds⟩ := solvable.mpr ⟨⟨.int 7, rfl⟩, ⟨.int 7, rfl⟩⟩
  exact ⟨solution, binds, (told solution binds).1⟩

/-- Beyond the end of the array the item has no value, and no values of the target and of the
item's variable make the recorded postings true, although every value that the item can take lies
in the domain of its variable. -/
theorem reified_element_excludes :
    (start {}).Admits (preparesItem ++ [.declare bindsSeven]) ∧
      (flushedRun {} (preparesItem ++ [.declare bindsSeven])).declared = [bindsSeven] ∧
      (∀ assignment value, itemOfTwo.value? assignment = some value →
        (({} : Model.Settings).auxiliaryDomain value.kind).Contains value) ∧
      (flushedRun {} (preparesItem ++ [.declare bindsSeven])).IsUsersBut ⟨1, .bool⟩
        (Search.assigning [.int 5]) ∧
      ¬∃ solution, (flushedRun {} (preparesItem ++ [.declare bindsSeven])).Binds ⟨1, .bool⟩
        (Search.assigning [.int 5]) solution := by
  have declares : (flushedRun {} (preparesItem ++ [.declare bindsSeven])).DeclaresReified
      itemOfTwo .eq (.constant (.int 7)) false ⟨1, .bool⟩ :=
    declaresReified (by decide) rfl rfl rfl rfl admits_bindsSeven
  refine ⟨admits_bindsSeven, declares.declared,
    fun assignment value found => itemOfTwo_fits assignment (.self _) nofun value found,
    isUsersBut_bindsSeven 5, ?_⟩
  · rw [declares.exists_binds_iff (by decide) (isUsersBut_bindsSeven 5) rfl]
    rintro ⟨⟨value, found⟩, _⟩
    cases found

end Session

end ConstraintCompiler
