import ConstraintCompiler.Declaration.Steps
import ConstraintCompiler.Proofs.Growth

/-!
Contract: a declaration that fails changes nothing.

Owns:
- `Model.IsTyped`, that the variables of composites have the composites' kinds, which elaboration
  preserves and which holds of every compiled session;
- `Model.declareInSteps_eq`, that the late checks of compilation in steps never fail;
- `Model.declare_atomic`: a declaration that fails, all at once or in steps, leaves the model as it
  was, and its own checks refuse it in every other model too.
-/

namespace ConstraintCompiler

namespace Model

/-- The variable of a composite has the kind of the composite listed under its label. -/
def IsTyped (built : List Expression) (model : Model) : Prop :=
  ∀ label v, (label, v) ∈ model.definitions →
    ∀ expression, built[label]? = some expression → expression.shape = .scalar v.kind

theorem Elaborates.isTyped {built : List Expression} {scope : Expression → Prop}
    {first second : Model} (elaborates : first.Elaborates scope second)
    (listed : ∀ expression, expression.label? ≠ none → scope expression →
      expression.IsListed built)
    (typed : first.IsTyped built) : second.IsTyped built := by
  induction elaborates with
  | refl => exact typed
  | @define model label connective operands kind _ _ inScope _ _ inductionHypothesis =>
      intro other v defined expression found
      rcases List.mem_cons.mp defined with new | earlier
      · cases new
        have own := listed (.composite label connective operands kind) nofun inScope _ (.self _)
          label rfl
        cases found.symm.trans own
        rfl
      · exact inductionHypothesis other v earlier expression found

theorem Represents.scalarKind? {built : List Expression} {model : Model}
    (typed : model.IsTyped built) {expression : Expression} {argument : Argument}
    (represents : model.Represents expression argument) (listed : expression.IsListed built)
    {kind : Kind} (shape : expression.shape = .scalar kind) :
    argument.scalarKind? = some kind := by
  cases represents with
  | «variable» v =>
      cases shape
      rfl
  | array items => cases shape
  | constant literal =>
      cases literal <;> cases shape <;> rfl
  | @composite label _ _ _ v defined =>
      have own := typed label v defined _ (listed _ (.self _) label rfl)
      cases own.symm.trans shape
      rfl

end Model

/-- In a compiled session the variables of composites have the composites' kinds. -/
theorem Session.Compiled.isTyped {session : Session} (compiled : session.Compiled) :
    session.model.IsTyped session.built := by
  intro label v defined expression built
  obtain ⟨connective, operands, kind, rfl, _⟩ := compiled.wellBuilt label expression built
  exact congrArg Shape.scalar (compiled.knows_definition defined built).1.symm

/-! ### Late checks -/

/-- Stating a plan in steps succeeds, with the effect of stating it. -/
private theorem stateInSteps_eq {built : List Expression} {model : Model} {plan : Plan}
    (listed : ∀ expression ∈ plan.expressions, expression.IsListed built)
    (targets : ∀ target ∈ plan.target, target.IsTarget) (refusal : Error) :
    plan.stateInSteps refusal model = (.ok (), (plan.state model).2) := by
  cases found : plan.target with
  | none =>
      unfold Plan.stateInSteps Plan.bindTarget Plan.state
      rw [found]
      rfl
  | some target =>
      have targetListed := listed target (List.mem_append_right _ (by simp [found]))
      obtain ⟨v, result⟩ :=
        (Expression.resolve_spec targetListed model).2.asVariable? (targets target found)
      have bound : plan.bindTarget refusal model =
          (.ok (target.resolve model).1.asVariable?, (target.resolve model).2) := by
        rw [Plan.bindTarget_of_variable refusal found result, result]
        rfl
      unfold Plan.stateInSteps Plan.state
      simp only [bind, ExceptT.bind, ExceptT.mk, StateT.bind, bound, found]
      rfl

section Steps

variable {built : List Expression} {model : Model} (typed : model.IsTyped built)

include typed

private theorem checkResult_eq_ok {other : Expression} (listed : other.IsListed built)
    {composite : Composite} (shape : other.shape = .scalar composite.kind) :
    composite.checkResult (some (other.resolve model).1) = .ok () := by
  obtain ⟨elaborates, represents⟩ := Expression.resolve_spec listed model
  have afterTyped := elaborates.isTyped
    (fun part labelled within => fun inner innerWithin => listed inner (innerWithin.trans within))
    typed
  have found := represents.scalarKind? afterTyped listed shape
  simp [Composite.checkResult, found]

/-- A fusion in steps succeeds, with the effect of the fusion. -/
private theorem fuseInSteps_eq {plan : Plan} {left right other : Expression}
    {composite : Composite} (equality : plan.equality? = some (left, right))
    (fusion : fusion? model left right = some (composite, other)) (listed : other.IsListed built)
    (shape : other.shape = .scalar composite.kind) :
    plan.fuseInSteps composite other model = (.ok (), (plan.perform model).2) := by
  have checked := checkResult_eq_ok typed listed shape
  have fused : (plan.perform model).2 =
      (composite.fuse (some (other.resolve model).1) plan.negated plan.strength plan.priority
        (other.resolve model).2).2 := by
    unfold Plan.perform
    simp only [bind, StateT.bind, get, getThe, MonadStateOf.get, StateT.get, pure, equality,
      Option.bind_some, fusion]
    rfl
  have constrained : plan.fuseInSteps composite other model =
      (discard (composite.constrain (some (other.resolve model).1) plan.negated plan.strength
        plan.priority) : Compile Unit) (other.resolve model).2 := rfl
  rw [constrained, fused, Composite.constrain, checked]
  rfl

/-- Compilation in steps succeeds where the plan can be performed, with the same effect. -/
private theorem performInSteps_eq {declaration : Declaration} {plan : Plan}
    (planned : declaration.Planned plan)
    (listed : ∀ expression ∈ plan.expressions, expression.IsListed built) (refusal : Error) :
    plan.performInSteps refusal model = (.ok (), (plan.perform model).2) := by
  cases fuses : plan.equality?.bind fun sides => fusion? model sides.1 sides.2 with
  | some found =>
      obtain ⟨⟨left, right⟩, equality, fusion⟩ := Option.bind_eq_some_iff.mp fuses
      obtain ⟨_, otherMember, otherShape, _⟩ := planned.fusion equality (fusion?_faces fusion)
      rw [Plan.performInSteps_of_fusion refusal fuses]
      exact fuseInSteps_eq typed equality fusion
        (listed found.2 (List.mem_append_left _ otherMember)) otherShape
  | none =>
      rw [Plan.performInSteps_of_no_fusion refusal fuses, Plan.perform_of_no_fusion]
      · exact stateInSteps_eq listed planned.targets refusal
      · intro left right equality
        rw [equality] at fuses
        exact fuses

end Steps

namespace Model

/-- A declaration fails only by its own checks. -/
theorem declare_eq_error {declaration : Declaration} {model after : Model} {error : Error}
    (failed : declare declaration model = (.error error, after)) :
    after = model ∧ declaration.plan = .error error := by
  cases planned : declaration.plan with
  | ok plan =>
      rw [declare_of_plan planned] at failed
      cases failed
  | error fault =>
      rw [declare_of_error planned] at failed
      cases failed
      exact ⟨rfl, rfl⟩

/-- Where labels identify composites and their variables have their kinds, no check fails once the
model has changed. -/
theorem declareInSteps_eq {declaration : Declaration} {built : List Expression} {model : Model}
    (listed : ∀ expression ∈ declaration.expressions, expression.IsListed built)
    (typed : model.IsTyped built) (refusal : Error) :
    declareInSteps refusal declaration model = declare declaration model := by
  cases planned : declaration.plan with
  | ok plan =>
      have checked := Declaration.plan_eq_ok planned
      have planListed := checked.isListed listed
      rw [declare_of_plan planned, ← performInSteps_eq typed checked planListed refusal,
        declareInSteps, planned]
      rfl
  | error fault =>
      rw [declare_of_error planned, declareInSteps, planned]
      rfl

/-- A failed declaration leaves the model as it was, and fails alike in every other model. Where
labels identify composites and their variables have their kinds, compilation in steps does the same
as compilation after all checks: no check fails once the model has changed. So a declaration that
fails in steps leaves the model as it was, and its own checks have refused it. -/
theorem declare_atomic (declaration : Declaration) :
    (∀ (model : Model) (error : Error) (after : Model),
        declare declaration model = (.error error, after) →
          after = model ∧ ∀ other, declare declaration other = (.error error, other)) ∧
      ∀ (built : List Expression) (model : Model),
        (∀ expression ∈ declaration.expressions, expression.IsListed built) →
          model.IsTyped built → ∀ refusal,
            declareInSteps refusal declaration model = declare declaration model ∧
              ∀ (error : Error) (after : Model),
                declareInSteps refusal declaration model = (.error error, after) →
                  after = model ∧ declaration.plan = .error error := by
  constructor
  · intro model error after failed
    obtain ⟨kept, refused⟩ := declare_eq_error failed
    exact ⟨kept, declare_of_error refused⟩
  · intro built model listed typed refusal
    have inSteps := declareInSteps_eq listed typed refusal
    refine ⟨inSteps, fun error after failed => ?_⟩
    rw [inSteps] at failed
    exact declare_eq_error failed

def eitherFlag : Expression :=
  .composite 0 (.logic .or) [.variable ⟨0, .bool⟩, .variable ⟨1, .bool⟩] .bool

def preparesEither : List Action :=
  [.allocateArray 2 .bool, .build (.logic .or (.variable ⟨0, .bool⟩) (.variable ⟨1, .bool⟩))]

/-- The disjunction is both a side and the target of an equality. An offset makes the declaration
fail. -/
def bindsEither (offset : Option Int) : Declaration where
  statement := .relate eitherFlag .eq (.constant (.bool true))
  options := { offset, target := some eitherFlag }

def modelOfEither : Model := ((Session.start {}).run preparesEither).model

theorem bindsEither_atomic :
    ((∃ error, declare (bindsEither (some 1)) {} = (.error error, {})) ∧
        ∀ other, declare (bindsEither (some 1)) other = (.error (.invalidOption .offset), other)) ∧
      declareInSteps (.invalidOption .constantTarget) (bindsEither none) modelOfEither =
        declare (bindsEither none) modelOfEither ∧
      declareInSteps (.invalidOption .constantTarget) (bindsEither (some 1)) modelOfEither =
        (.error (.invalidOption .offset), modelOfEither) ∧
      (bindsEither (some 1)).plan = .error (.invalidOption .offset) := by
  have failed : declare (bindsEither (some 1)) {} = (.error (.invalidOption .offset), {}) := rfl
  have failedInSteps : declareInSteps (.invalidOption .constantTarget) (bindsEither (some 1))
      modelOfEither = (.error (.invalidOption .offset), modelOfEither) := rfl
  have admits : (Session.start {}).Admits preparesEither := by
    refine ⟨nofun, ?_, trivial⟩
    intro expression member
    rcases List.mem_pair.mp member with rfl | rfl <;> rfl
  have compiled := (Session.compiled_start {}).run admits
  have listed : ∀ offset, ∀ expression ∈ (bindsEither offset).expressions,
      expression.IsListed ((Session.start {}).run preparesEither).built := by
    intro offset expression member
    apply Session.AtHand.isListed compiled.wellBuilt
    rcases member with _ | ⟨_, _ | ⟨_, _ | ⟨_, _ | _⟩⟩⟩ <;> first | rfl | trivial
  refine ⟨⟨⟨_, failed⟩, ((declare_atomic _).1 _ _ _ failed).2⟩, ?_, failedInSteps, ?_⟩
  · exact ((declare_atomic _).2 _ _ (listed none) compiled.isTyped _).1
  · exact (((declare_atomic _).2 _ _ (listed (some 1)) compiled.isTyped _).2 _ _ failedInSteps).2

end Model

end ConstraintCompiler
