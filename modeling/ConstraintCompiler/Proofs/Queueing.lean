import ConstraintCompiler.Proofs.Materialization
import ConstraintCompiler.Proofs.Refusals

/-!
Contract: compilation only queues.

Owns:
- `Model.Agrees`, that two models differ at most in what is recorded, what waits, how much was
  performed and what was reported;
- `Model.IsQueueing`, that a computation adds postings at the end of the queue, records and performs
  nothing, and does the same in models that agree;
- `Session.step_queueing`, that every action but a flush is of this sort.

Does not own: which postings an expression or a declaration queues, or what a flush does.
-/

namespace ConstraintCompiler

namespace Model

/-- The models differ at most in what is recorded, what waits, how much was performed and what was
reported. -/
structure Agrees (first second : Model) : Prop where
  settings : first.settings = second.settings
  domains : first.problem.domains = second.problem.domains
  auxiliaries : first.auxiliaries = second.auxiliaries
  definitions : first.definitions = second.definitions
  nextLabel : first.nextLabel = second.nextLabel

/-- The later model has recorded and performed nothing more, and the given postings wait behind
those of the earlier model. -/
structure Queues (before after : Model) (added : List Posting) : Prop where
  recorded : after.problem.postings = before.problem.postings
  executed : after.executed = before.executed
  queue : after.queue = before.queue ++ added.map .post

theorem Agrees.refl (model : Model) : model.Agrees model := ⟨rfl, rfl, rfl, rfl, rfl⟩

theorem Agrees.symm {first second : Model} (agrees : first.Agrees second) : second.Agrees first :=
  ⟨agrees.settings.symm, agrees.domains.symm, agrees.auxiliaries.symm, agrees.definitions.symm,
    agrees.nextLabel.symm⟩

theorem Agrees.trans {first second third : Model} (earlier : first.Agrees second)
    (later : second.Agrees third) : first.Agrees third :=
  ⟨earlier.settings.trans later.settings, earlier.domains.trans later.domains,
    earlier.auxiliaries.trans later.auxiliaries, earlier.definitions.trans later.definitions,
    earlier.nextLabel.trans later.nextLabel⟩

theorem Agrees.nextVariable {first second : Model} (agrees : first.Agrees second) (kind : Kind) :
    first.problem.nextVariable kind = second.problem.nextVariable kind := by
  rw [Problem.nextVariable, Problem.nextVariable, Problem.size, Problem.size, agrees.domains]

theorem Agrees.definition? {first second : Model} (agrees : first.Agrees second) (label : Label) :
    first.definition? label = second.definition? label := by
  rw [Model.definition?, Model.definition?, agrees.definitions]

theorem Queues.none {before after : Model}
    (recorded : after.problem.postings = before.problem.postings)
    (executed : after.executed = before.executed) (queue : after.queue = before.queue) :
    before.Queues after [] :=
  ⟨recorded, executed, queue.trans (List.append_nil _).symm⟩

theorem Queues.append {first second third : Model} {added more : List Posting}
    (earlier : first.Queues second added) (later : second.Queues third more) :
    first.Queues third (added ++ more) where
  recorded := later.recorded.trans earlier.recorded
  executed := later.executed.trans earlier.executed
  queue := by rw [later.queue, earlier.queue, List.map_append, List.append_assoc]

/-- The computation only adds postings at the end of the queue. What it answers, which postings it
adds, and whatever else it does are the same in models that agree. -/
def IsQueueing {Answer : Type} (compute : StateM Model Answer) : Prop :=
  ∀ first second : Model, first.Agrees second →
    (compute first).1 = (compute second).1 ∧ (compute first).2.Agrees (compute second).2 ∧
      ∃ added, first.Queues (compute first).2 added ∧ second.Queues (compute second).2 added

namespace IsQueueing

variable {Answer Result : Type}

protected theorem pure (answer : Answer) : IsQueueing (pure answer : StateM Model Answer) :=
  fun _ _ agrees => ⟨rfl, agrees, [], .none rfl rfl rfl, .none rfl rfl rfl⟩

protected theorem bind {compute : StateM Model Answer} {next : Answer → StateM Model Result}
    (isQueueing : IsQueueing compute) (goesOn : ∀ answer, IsQueueing (next answer)) :
    IsQueueing (compute >>= next) := by
  intro first second agrees
  obtain ⟨answers, between, added, inFirst, inSecond⟩ := isQueueing first second agrees
  obtain ⟨results, after, more, moreInFirst, moreInSecond⟩ :=
    goesOn (compute first).1 (compute first).2 (compute second).2 between
  have continues : (compute >>= next) second = next (compute first).1 (compute second).2 := by
    rw [answers]
    rfl
  rw [continues]
  exact ⟨results, after, added ++ more, inFirst.append moreInFirst, inSecond.append moreInSecond⟩

/-- A computation may first read the model, if it goes on alike in models that agree. -/
theorem reading {next : Model → StateM Model Result} (goesOn : ∀ model, IsQueueing (next model))
    (same : ∀ first second : Model, first.Agrees second → next first = next second) :
    IsQueueing (get >>= next) := by
  intro first second agrees
  have continues : (get >>= next) second = next first second := by
    rw [same first second agrees]
    rfl
  rw [continues]
  exact goesOn first first second agrees

protected theorem map {compute : StateM Model Answer} (isQueueing : IsQueueing compute)
    (change : Answer → Result) : IsQueueing (change <$> compute) :=
  isQueueing.bind fun answer => .pure (change answer)

end IsQueueing

theorem isQueueing_report (events : List Event) : IsQueueing (report events) :=
  fun _ _ agrees => ⟨rfl, ⟨agrees.settings, agrees.domains, agrees.auxiliaries, agrees.definitions,
    agrees.nextLabel⟩, [], .none rfl rfl rfl, .none rfl rfl rfl⟩

theorem isQueueing_enqueuePosting (posting : Posting) : IsQueueing (enqueuePosting posting) :=
  fun _ _ agrees => ⟨rfl, ⟨agrees.settings, agrees.domains, agrees.auxiliaries, agrees.definitions,
    agrees.nextLabel⟩, [posting], ⟨rfl, rfl, rfl⟩, ⟨rfl, rfl, rfl⟩⟩

theorem isQueueing_fresh (kind : Kind) : IsQueueing (fresh kind) := by
  intro first second agrees
  refine ⟨agrees.nextVariable kind, ⟨agrees.settings, ?_, ?_, agrees.definitions,
    agrees.nextLabel⟩, [], .none rfl rfl rfl, .none rfl rfl rfl⟩
  · show first.problem.domains ++ [first.settings.auxiliaryDomain kind] =
      second.problem.domains ++ [second.settings.auxiliaryDomain kind]
    rw [agrees.domains, agrees.settings]
  · exact congrArg (· + 1) agrees.auxiliaries

theorem isQueueing_define (label : Label) (connective : Connective) (operands : List Argument)
    (kind : Kind) : IsQueueing (define label connective operands kind) := by
  refine (isQueueing_fresh kind).bind fun v => (isQueueing_report _).bind fun _ => .bind ?_
    fun _ => (isQueueing_enqueuePosting _).bind fun _ => .pure v
  intro first second agrees
  exact ⟨rfl, ⟨agrees.settings, agrees.domains, agrees.auxiliaries,
    congrArg ((label, v) :: ·) agrees.definitions, agrees.nextLabel⟩, [], .none rfl rfl rfl,
    .none rfl rfl rfl⟩

end Model

/-! ### Expressions -/

namespace Expression

open Model (IsQueueing)

private theorem isQueueing_resolution :
    (∀ expression : Expression, IsQueueing expression.resolve) ∧
      (∀ expressions, IsQueueing (resolveEach expressions)) ∧
        ∀ connective expressions, IsQueueing (resolveMerged connective expressions) := by
  apply resolve.mutual_induct
  case case1 | case2 | case3 =>
    intros
    rw [resolve]
    exact .pure _
  case case4 =>
    intro label connective operands kind merged each
    rw [resolve]
    refine .reading (fun model => ?_) fun first second agrees => by rw [agrees.definition? label]
    split
    · exact .pure _
    · refine .bind ?_ fun arguments =>
        (Model.isQueueing_define label connective arguments kind).map _
      split
      · exact merged
      · exact each
  case case5 =>
    rw [resolveEach]
    exact .pure _
  case case6 =>
    intro expression rest head tail
    rw [resolveEach]
    exact head.bind fun argument => tail.map _
  case case7 =>
    intro connective
    rw [resolveMerged]
    exact .pure _
  case case8 =>
    intro connective label inner operands kind rest nested head tail
    rw [resolveMerged]
    refine .reading (fun model => ?_) fun first second agrees => by rw [agrees.definition? label]
    refine .bind ?_ fun arguments => tail.map _
    split
    · exact nested
    · exact head.map _
  case case9 =>
    intro connective expression rest simple head tail
    rw [resolveMerged]
    · exact head.bind fun argument => tail.map _
    · exact simple

theorem isQueueing_resolve (expression : Expression) : IsQueueing expression.resolve :=
  isQueueing_resolution.1 expression

theorem isQueueing_resolveEach (expressions : List Expression) :
    IsQueueing (resolveEach expressions) :=
  isQueueing_resolution.2.1 expressions

end Expression

/-! ### Declarations -/

open Model (IsQueueing)

theorem Composite.isQueueing_resolveOperands (composite : Composite) :
    IsQueueing composite.resolveOperands := by
  unfold Composite.resolveOperands
  split
  · exact Expression.isQueueing_resolution.2.2 _ _
  · exact Expression.isQueueing_resolveEach _

theorem Composite.isQueueing_fuse (composite : Composite) (result : Argument) (negated : Bool)
    (strength : Strength) (priority : Option Priority) :
    IsQueueing (composite.fuse (some result) negated strength priority) :=
  composite.isQueueing_resolveOperands.bind fun _ => (IsQueueing.pure result).bind fun _ =>
    (Model.isQueueing_report _).bind fun _ =>
      (Model.isQueueing_enqueuePosting _).bind fun _ => .pure _

namespace Plan

theorem isQueueing_state (plan : Plan) : IsQueueing plan.state := by
  unfold state
  refine .bind ?_ fun target => (Expression.isQueueing_resolveEach _).bind fun subjects =>
    Model.isQueueing_enqueuePosting _
  split
  · exact .pure _
  · exact (Expression.isQueueing_resolve _).map _

theorem isQueueing_perform (plan : Plan) : IsQueueing plan.perform := by
  unfold perform
  refine .reading (fun model => ?_) fun first second agrees => by
    simp only [fusion?_congr agrees.definitions]
  split
  · exact (Expression.isQueueing_resolve _).bind fun result =>
      (Composite.isQueueing_fuse _ result _ _ _).map _
  · exact plan.isQueueing_state

end Plan

/-! ### Sessions -/

namespace Session

structure Agrees (first second : Session) : Prop where
  model : first.model.Agrees second.model
  built : first.built = second.built
  resolved : first.resolved = second.resolved
  declared : first.declared = second.declared

theorem Agrees.refl (session : Session) : session.Agrees session :=
  ⟨.refl _, rfl, rfl, rfl⟩

theorem Agrees.symm {first second : Session} (agrees : first.Agrees second) :
    second.Agrees first :=
  ⟨agrees.model.symm, agrees.built.symm, agrees.resolved.symm, agrees.declared.symm⟩

theorem Agrees.trans {first second third : Session} (earlier : first.Agrees second)
    (later : second.Agrees third) : first.Agrees third :=
  ⟨earlier.model.trans later.model, earlier.built.trans later.built,
    earlier.resolved.trans later.resolved, earlier.declared.trans later.declared⟩

/-- In sessions that agree, every action but a flush adds the same postings at the end of the queue,
and the sessions agree afterwards. -/
theorem step_queueing {action : Action} (quiet : Move.flushes (.act action) = false)
    {first second : Session} (agrees : first.Agrees second) :
    (first.step action).Agrees (second.step action) ∧
      ∃ added, first.model.Queues (first.step action).model added ∧
        second.model.Queues (second.step action).model added := by
  have models := agrees.model
  cases action with
  | allocate domain | allocateArray count domain =>
      refine ⟨⟨⟨models.settings, congrArg (· ++ _) models.domains, models.auxiliaries,
        models.definitions, models.nextLabel⟩, agrees.built, agrees.resolved, agrees.declared⟩,
        [], .none rfl rfl rfl, .none rfl rfl rfl⟩
  | fresh kind =>
      obtain ⟨_, after, added⟩ := Model.isQueueing_fresh kind _ _ models
      exact ⟨⟨after, agrees.built, agrees.resolved, agrees.declared⟩, added⟩
  | build composition =>
      cases made : composition.build first.model.nextLabel with
      | error error =>
          rw [step_build_error made, step_build_error (models.nextLabel ▸ made)]
          exact ⟨agrees, [], .none rfl rfl rfl, .none rfl rfl rfl⟩
      | ok expression =>
          rw [step_build_ok made, step_build_ok (models.nextLabel ▸ made)]
          exact ⟨⟨⟨models.settings, models.domains, models.auxiliaries, models.definitions,
            congrArg (· + 1) models.nextLabel⟩, congrArg (· ++ _) agrees.built, agrees.resolved,
            agrees.declared⟩, [], .none rfl rfl rfl, .none rfl rfl rfl⟩
  | resolve expression =>
      obtain ⟨_, after, added⟩ := expression.isQueueing_resolve _ _ models
      exact ⟨⟨after, agrees.built, congrArg (· ++ _) agrees.resolved, agrees.declared⟩, added⟩
  | declare declaration =>
      cases planned : declaration.plan with
      | error error =>
          rw [step_declare_error planned, step_declare_error planned]
          exact ⟨agrees, [], .none rfl rfl rfl, .none rfl rfl rfl⟩
      | ok plan =>
          rw [step_declare_ok planned, step_declare_ok planned]
          obtain ⟨_, after, added⟩ := plan.isQueueing_perform _ _ models
          exact ⟨⟨after, agrees.built, agrees.resolved, congrArg (· ++ _) agrees.declared⟩, added⟩
  | flush => cases quiet

end Session

end ConstraintCompiler
