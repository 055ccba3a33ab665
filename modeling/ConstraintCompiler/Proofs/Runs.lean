import ConstraintCompiler.Proofs.Acceptance

/-!
Contract: what holds after every run.

Owns:
- `Session.Compiled.flush`, that a flush of a compiled session records everything that waits, in
  order, and leaves the queue empty;
- `Session.Compiled.step` and `Session.Compiled.run`, that permitted actions keep a session
  compiled;
- `Session.flushedRun_spec`, what that means for a run that ends with a flush.
-/

namespace ConstraintCompiler

/-! ### Flushes -/

theorem Problem.objection?_congr {first second : Problem} (same : first.domains = second.domains)
    (posting : Posting) : first.objection? posting = second.objection? posting := by
  have knownSame : first.variableObjection? = second.variableObjection? := by
    funext v
    rw [variableObjection?, variableObjection?, domain?, domain?, same]
  rw [objection?, objection?, knownSame]

namespace Model

/-- Draining starts with the postings at the front that nothing speaks against, and records them in
order. -/
theorem drain_accepted (recorded : List Posting) (waiting : List Interaction) (count : Nat)
    (model : Model) (accepted : ∀ posting ∈ recorded, model.problem.objection? posting = none) :
    ∃ executed journal,
      drain (recorded.map .post ++ waiting) count model =
        drain waiting (count + recorded.length)
          { model with
            problem := { model.problem with postings := model.problem.postings ++ recorded }
            executed
            journal } := by
  induction recorded generalizing count model with
  | nil => exact ⟨model.executed, model.journal, by simp⟩
  | cons posting rest inductionHypothesis =>
      have head := accepted posting (List.mem_cons_self ..)
      have records : Interaction.run model.problem (.post posting) =
          .ok ({ model.problem with postings := model.problem.postings ++ [posting] },
            [.recorded posting.primitive model.problem.postings.length]) := by
        rw [Interaction.run, Problem.post, head]
        rfl
      obtain ⟨executed, journal, drained⟩ := inductionHypothesis (count + 1)
        { model with
          problem := { model.problem with postings := model.problem.postings ++ [posting] }
          executed := model.executed + 1
          journal :=
            model.journal ++ [Event.recorded posting.primitive model.problem.postings.length] }
        (by
          intro other member
          rw [← accepted other (List.mem_cons_of_mem _ member)]
          exact Problem.objection?_congr rfl other)
      refine ⟨executed, journal, ?_⟩
      rw [List.map_cons, List.cons_append, drain, records]
      dsimp only
      rw [drained]
      simp [Nat.add_assoc, Nat.add_comm 1]

/-- Draining postings that nothing speaks against records all of them. -/
theorem drain_postings (waiting : List Posting) (count : Nat) (model : Model)
    (accepted : ∀ posting ∈ waiting, model.problem.objection? posting = none) :
    ∃ executed journal,
      drain (waiting.map .post) count model =
        (.ok (count + waiting.length),
          { model with
            problem := { model.problem with postings := model.problem.postings ++ waiting }
            queue := []
            executed
            journal }) := by
  obtain ⟨executed, journal, drained⟩ := drain_accepted waiting [] count model accepted
  rw [List.append_nil] at drained
  exact ⟨executed, journal, drained⟩

/-- A queue of postings is given by the postings in it. -/
theorem queue_eq_map_post {queue : List Interaction}
    (posts : ∀ interaction ∈ queue, ∃ posting, interaction = .post posting) :
    queue = (queue.filterMap Interaction.posting?).map Interaction.post := by
  induction queue with
  | nil => rfl
  | cons interaction rest inductionHypothesis =>
      obtain ⟨posting, rfl⟩ := posts interaction (List.mem_cons_self ..)
      have tail := inductionHypothesis fun other member =>
        posts other (List.mem_cons_of_mem _ member)
      show _ = .post posting :: (rest.filterMap Interaction.posting?).map Interaction.post
      rw [← tail]

theorem declare_of_plan {declaration : Declaration} {plan : Plan}
    (planned : declaration.plan = .ok plan) (model : Model) :
    declare declaration model = (.ok (), (plan.perform model).2) := by
  rw [declare, planned]
  rfl

theorem declare_of_error {declaration : Declaration} {error : Error}
    (refused : declaration.plan = .error error) (model : Model) :
    declare declaration model = (.error error, model) := by
  rw [declare, refused]
  rfl

end Model

namespace Session

theorem Compiled.queue_eq {session : Session} (compiled : session.Compiled) :
    session.model.queue =
      (session.model.queue.filterMap Interaction.posting?).map Interaction.post :=
  Model.queue_eq_map_post compiled.queued

/-- A flush of a compiled session succeeds: it records all that is stated, and nothing waits. -/
theorem Compiled.flush {session : Session} (compiled : session.Compiled) :
    ∃ executed journal,
      Model.flush session.model =
        (.ok session.model.queue.length,
          { session.model with
            problem := { session.model.problem with postings := session.model.stated }
            queue := []
            executed
            journal }) := by
  obtain ⟨executed, journal, drained⟩ := Model.drain_postings
    (session.model.queue.filterMap Interaction.posting?) 0 session.model
    fun posting member => compiled.accepts posting (List.mem_append_right _ member)
  rw [← compiled.queue_eq] at drained
  have length := congrArg List.length compiled.queue_eq
  rw [List.length_map] at length
  rw [Nat.zero_add, ← length] at drained
  simp only [Model.flush, ExceptT.mk, drained]
  exact ⟨executed, _, rfl⟩

theorem Compiled.step_flush {session : Session} (compiled : session.Compiled) :
    ∃ executed journal,
      session.step .flush = { session with
        model := { session.model with
          problem := { session.model.problem with postings := session.model.stated }
          queue := []
          executed
          journal } } := by
  obtain ⟨executed, journal, flushed⟩ := compiled.flush
  exact ⟨executed, journal, by rw [step, flushed]⟩

/-! ### Steps and runs -/

theorem step_build_ok {session : Session} {composition : Composition} {expression : Expression}
    (built : composition.build session.model.nextLabel = .ok expression) :
    session.step (.build composition) = { session with
      model := { session.model with nextLabel := session.model.nextLabel + 1 }
      built := session.built ++ [expression] } := by
  have made : Model.build composition.build session.model =
      (.ok expression, { session.model with nextLabel := session.model.nextLabel + 1 }) := by
    simp only [Model.build, ExceptT.mk, built]
  rw [step, made]

theorem step_build_error {session : Session} {composition : Composition} {error : Error}
    (refused : composition.build session.model.nextLabel = .error error) :
    session.step (.build composition) = session := by
  have kept : Model.build composition.build session.model = (.error error, session.model) := by
    simp only [Model.build, ExceptT.mk, refused]
  rw [step, kept]

theorem step_declare_ok {session : Session} {declaration : Declaration} {plan : Plan}
    (planned : declaration.plan = .ok plan) :
    session.step (.declare declaration) = { session with
      model := (plan.perform session.model).2
      declared := session.declared ++ [declaration] } := by
  rw [step, Model.declare_of_plan planned]

theorem step_declare_error {session : Session} {declaration : Declaration} {error : Error}
    (refused : declaration.plan = .error error) :
    session.step (.declare declaration) = session := by
  rw [step, Model.declare_of_error refused]

/-- A declaration that has a plan elaborates the model with composites that occur in it, and then
queues one posting that ends the plan. -/
theorem step_declare_of_listed {session : Session} {declaration : Declaration} {plan : Plan}
    (planned : declaration.plan = .ok plan)
    (listed : ∀ expression ∈ declaration.expressions, expression.IsListed session.built) :
    ∃ middle posting journal,
      session.model.Elaborates (Expression.OccursIn declaration.expressions) middle ∧
        middle.Finishes plan posting ∧
        session.step (.declare declaration) = { session with
          model := { middle with queue := middle.queue ++ [.post posting], journal }
          declared := session.declared ++ [declaration] } := by
  have checked := Declaration.plan_eq_ok planned
  obtain ⟨middle, posting, journal, elaborates, finishes, performed⟩ :=
    plan.perform_spec (checked.isListed listed) checked.targets session.model
  refine ⟨middle, posting, journal, ?_, finishes, ?_⟩
  · exact elaborates.mono fun part labelled occurs => checked.occurs labelled occurs
  · rw [step_declare_ok planned, performed]

theorem Compiled.step_declare {session : Session} (compiled : session.Compiled)
    {declaration : Declaration} {plan : Plan} (planned : declaration.plan = .ok plan)
    (permits : session.Permits (.declare declaration)) :
    ∃ middle posting journal,
      session.model.Elaborates (Expression.OccursIn declaration.expressions) middle ∧
        middle.Finishes plan posting ∧
        session.step (.declare declaration) = { session with
          model := { middle with queue := middle.queue ++ [.post posting], journal }
          declared := session.declared ++ [declaration] } :=
  step_declare_of_listed planned fun expression member =>
    (permits expression member).isListed compiled.wellBuilt

/-- Elaborating the model with composites of a declaration keeps a session compiled, once the
declaration's expressions are subjects. -/
theorem Compiled.elaborating_named {session : Session} (compiled : session.Compiled)
    {declaration : Declaration} (permits : session.Permits (.declare declaration)) {middle : Model}
    (elaborates :
      session.model.Elaborates (Expression.OccursIn declaration.expressions) middle) :
    Compiled { session with
      model := middle
      resolved := session.resolved ++ declaration.expressions } :=
  (compiled.resolving permits).elaborating elaborates fun _ _ occurs =>
    occurs.subset fun _ member => List.mem_append_left _ (List.mem_append_right _ member)

/-- Every permitted action keeps a session compiled. -/
theorem Compiled.step {session : Session} (compiled : session.Compiled) {action : Action}
    (permits : session.Permits action) : (session.step action).Compiled := by
  cases action with
  | allocate domain => exact compiled.allocating [domain] session.model.auxiliaries
  | allocateArray count domain =>
      exact compiled.allocating (List.replicate count domain) session.model.auxiliaries
  | fresh kind => exact compiled.allocating [_] (session.model.auxiliaries + 1)
  | build composition =>
      cases built : composition.build session.model.nextLabel with
      | error error =>
          rw [step_build_error built]
          exact compiled
      | ok expression =>
          rw [step_build_ok built]
          obtain ⟨connective, operands, kind, rfl, joins, offers⟩ := Composition.build_eq_ok built
          apply compiled.building joins
          intro operand member
          rcases offers operand member with part | ⟨items, part, v, vMember, rfl⟩
          · exact permits operand part
          · exact permits (.array items) part v vMember
  | resolve expression =>
      have atHand := permits expression (List.mem_singleton_self _)
      have named : Compiled { session with resolved := session.resolved ++ [expression] } := by
        apply compiled.resolving
        intro other member
        rw [List.mem_singleton.mp member]
        exact atHand
      obtain ⟨elaborates, _⟩ :=
        Expression.resolve_spec (atHand.isListed compiled.wellBuilt) session.model
      exact named.elaborating elaborates fun part _ within =>
        ⟨expression, List.mem_append_left _ (List.mem_append_right _ (by simp)), within⟩
  | declare declaration =>
      cases planned : declaration.plan with
      | error error =>
          rw [step_declare_error planned]
          exact compiled
      | ok plan =>
          obtain ⟨middle, posting, journal, elaborates, finishes, after⟩ :=
            compiled.step_declare planned permits
          rw [after]
          exact (compiled.elaborating_named permits elaborates).ending journal planned finishes rfl
  | flush =>
      obtain ⟨executed, journal, flushed⟩ := compiled.step_flush
      rw [flushed]
      have grows : session.Grows { session with
          model := { session.model with
            problem := { session.model.problem with postings := session.model.stated }
            queue := []
            executed
            journal } } :=
        ⟨fun _ _ => id, rfl, fun _ _ => id, fun _ => id,
          fun _ member => List.mem_append_left [] member, fun _ => id, fun _ => id⟩
      refine compiled.quiet grows rfl (List.append_nil _) rfl ?_
        (grows.isWellBuilt compiled.wellBuilt rfl) compiled.labels ?_
      · exact fun _ member => absurd member List.not_mem_nil
      · exact fun subject member => grows.atHand (compiled.atHand subject member)

theorem compiled_start (settings : Model.Settings) : (start settings).Compiled where
  wellBuilt := fun label expression found => by simp [start] at found
  labels := rfl
  atHand := fun _ member => absurd member List.not_mem_nil
  queued := fun _ member => absurd member List.not_mem_nil
  defines := fun _ _ member => absurd member List.not_mem_nil
  occurs := fun _ _ member => absurd member List.not_mem_nil
  separate := .nil
  accounts := fun _ member => absurd member List.not_mem_nil
  ends := fun _ member => absurd member List.not_mem_nil

/-- Admitted actions keep a session compiled. -/
theorem Compiled.run {session : Session} (compiled : session.Compiled) {actions : List Action}
    (admits : session.Admits actions) : (session.run actions).Compiled := by
  induction actions generalizing session with
  | nil => exact compiled
  | cons action rest inductionHypothesis =>
      exact inductionHypothesis (compiled.step admits.1) admits.2

theorem run_append (session : Session) (first second : List Action) :
    session.run (first ++ second) = (session.run first).run second :=
  List.foldl_append

theorem admits_append {session : Session} {first second : List Action} :
    session.Admits (first ++ second) ↔
      session.Admits first ∧ (session.run first).Admits second := by
  induction first generalizing session with
  | nil => exact ⟨fun admits => ⟨trivial, admits⟩, fun admits => admits.2⟩
  | cons action rest inductionHypothesis =>
      rw [List.cons_append, Admits, Admits, inductionHypothesis, and_assoc]
      rfl

theorem Compiled.step_settings {session : Session} (compiled : session.Compiled) {action : Action}
    (permits : session.Permits action) :
    (session.step action).model.settings = session.model.settings := by
  cases action with
  | allocate domain | allocateArray count domain | fresh kind => rfl
  | build composition =>
      cases built : composition.build session.model.nextLabel with
      | error error => rw [step_build_error built]
      | ok expression => rw [step_build_ok built]
  | resolve expression =>
      have atHand := permits expression (List.mem_singleton_self _)
      exact (Expression.resolve_spec (atHand.isListed compiled.wellBuilt) session.model).1.settings
  | declare declaration =>
      cases planned : declaration.plan with
      | error error => rw [step_declare_error planned]
      | ok plan =>
          obtain ⟨middle, posting, journal, elaborates, _, after⟩ :=
            compiled.step_declare planned permits
          rw [after]
          exact elaborates.settings
  | flush =>
      obtain ⟨executed, journal, flushed⟩ := compiled.step_flush
      rw [flushed]

theorem Compiled.run_settings {session : Session} (compiled : session.Compiled)
    {actions : List Action} (admits : session.Admits actions) :
    (session.run actions).model.settings = session.model.settings := by
  induction actions generalizing session with
  | nil => rfl
  | cons action rest inductionHypothesis =>
      exact (inductionHypothesis (compiled.step admits.1) admits.2).trans
        (compiled.step_settings admits.1)

theorem permits_flush (session : Session) : session.Permits .flush := nofun

theorem flushedRun_settings {settings : Model.Settings} {actions : List Action}
    (admits : (start settings).Admits actions) :
    (flushedRun settings actions).model.settings = settings :=
  (((compiled_start settings).run admits).step_settings (permits_flush _)).trans
    ((compiled_start settings).run_settings admits)

/-- After a run and its last flush nothing waits, and the recorded postings are all there is. -/
theorem flushedRun_spec {settings : Model.Settings} {actions : List Action}
    (admits : (start settings).Admits actions) :
    (flushedRun settings actions).Compiled ∧ (flushedRun settings actions).model.queue = [] ∧
      (flushedRun settings actions).model.stated =
        (flushedRun settings actions).model.problem.postings := by
  have compiled := (compiled_start settings).run admits
  obtain ⟨executed, journal, flushed⟩ := compiled.step_flush
  refine ⟨compiled.step (permits_flush _), ?_, ?_⟩
  · rw [flushedRun, flushed]
  · rw [flushedRun, flushed]
    exact List.append_nil _

end Session

end ConstraintCompiler
