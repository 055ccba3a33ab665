import ConstraintCompiler.Proofs.Runs

/-!
Contract: what becomes of the variables of composites when flushes fail.

Owns:
- `Model.flush_cases`, that a flush either records all that waits, or loses the one posting that is
  refused and keeps everything around it;
- `Move`, what a user does who may also search, and whose variables need not be allocated;
- `Session.Traced`, that the variable of a composite is defined by a posting that is recorded, that
  waits, or that was lost, and that every move preserves this;
- `Session.defined_or_refused`: over any moves, only a posting at which a flush failed is missing.

Does not own: runs whose variables are all allocated. Their flushes never fail.
-/

namespace ConstraintCompiler

/-! ### Flushes -/

namespace Model

/-- A flush of the model fails at the posting: it records what waits before it, drops it, and leaves
what waits after it in the queue. -/
structure FailsAt (model : Model) (posting : Posting) : Prop where
  refused : ∃ objection, model.problem.objection? posting = some objection ∧
    (flush model).1 = .error (.rejected ⟨posting.primitive, objection⟩)
  queue : ∃ recorded waiting, model.queue = recorded.map .post ++ .post posting :: waiting ∧
    (flush model).2.problem.postings = model.problem.postings ++ recorded ∧
    (flush model).2.queue = waiting

/-- A list of postings is accepted as a whole, or up to a first posting that is not. -/
private theorem accepted_or_split (problem : Problem) (postings : List Posting) :
    (∀ posting ∈ postings, problem.objection? posting = none) ∨
      ∃ recorded posting waiting objection, postings = recorded ++ posting :: waiting ∧
        (∀ other ∈ recorded, problem.objection? other = none) ∧
        problem.objection? posting = some objection := by
  induction postings with
  | nil => exact .inl fun _ member => absurd member List.not_mem_nil
  | cons posting rest inductionHypothesis =>
      cases head : problem.objection? posting with
      | some objection =>
          exact .inr ⟨[], posting, rest, objection, rfl, fun _ member =>
            absurd member List.not_mem_nil, head⟩
      | none =>
          rcases inductionHypothesis with all | ⟨recorded, other, waiting, objection, rfl, accepted,
            refused⟩
          · exact .inl (List.forall_mem_cons.mpr ⟨head, all⟩)
          · exact .inr ⟨posting :: recorded, other, waiting, objection, rfl,
              List.forall_mem_cons.mpr ⟨head, accepted⟩, refused⟩

/-- A flush of waiting postings records all of them, or it fails at the first one that is refused
and loses only that. -/
theorem flush_cases {model : Model}
    (posts : ∀ interaction ∈ model.queue, ∃ posting, interaction = .post posting) :
    ∃ recorded waiting executed journal,
      (flush model).2 =
          { model with
            problem := { model.problem with postings := model.problem.postings ++ recorded }
            queue := waiting
            executed
            journal } ∧
        (model.queue = recorded.map .post ∧ waiting = [] ∨
          ∃ posting, model.queue = recorded.map .post ++ .post posting :: waiting ∧
            model.FailsAt posting) := by
  have queue := queue_eq_map_post posts
  generalize model.queue.filterMap Interaction.posting? = postings at queue
  rcases accepted_or_split model.problem postings with accepted | ⟨recorded, posting, waiting,
    objection, rfl, accepted, refused⟩
  · obtain ⟨executed, journal, drained⟩ := drain_postings postings 0 model accepted
    rw [← queue] at drained
    refine ⟨postings, [], executed, (flush model).2.journal, ?_, .inl ⟨queue, rfl⟩⟩
    simp only [flush, ExceptT.mk, drained]
  · obtain ⟨executed, journal, drained⟩ :=
      drain_accepted recorded (.post posting :: waiting.map .post) 0 model accepted
    have split : model.queue = recorded.map .post ++ .post posting :: waiting.map .post := by
      rw [queue, List.map_append, List.map_cons]
    have refusedLater : Interaction.run
        { model.problem with postings := model.problem.postings ++ recorded } (.post posting) =
          .error ⟨posting.primitive, objection⟩ := by
      have same : Problem.objection?
          { model.problem with postings := model.problem.postings ++ recorded } posting =
            some objection :=
        (Problem.objection?_congr rfl posting).trans refused
      rw [Interaction.run, Problem.post, same]
      rfl
    rw [← split, drain, refusedLater] at drained
    have flushed : flush model =
        (.error (.rejected ⟨posting.primitive, objection⟩),
          { model with
            problem := { model.problem with postings := model.problem.postings ++ recorded }
            queue := waiting.map .post
            executed
            journal }) := by
      simp only [flush, ExceptT.mk, drained]
    refine ⟨recorded, waiting.map .post, executed, journal, ?_, .inr ⟨posting, split, ?_, ?_⟩⟩
    · rw [flushed]
    · exact ⟨objection, refused, by rw [flushed]⟩
    · exact ⟨recorded, waiting.map .post, split, by rw [flushed], by rw [flushed]⟩

/-- Searching changes a model as a flush does, but for the journal. -/
theorem solve_model (settings : Search.Settings) (model : Model) :
    ∃ journal, (solve settings model).2 = { (flush model).2 with journal } := by
  rw [solve]
  simp only [discard, Functor.mapConst, Function.comp_def, ExceptT.map, bind, ExceptT.bind,
    ExceptT.mk, StateT.bind]
  rcases flush model with ⟨_ | _, after⟩
  · exact ⟨after.journal, rfl⟩
  · exact ⟨_, rfl⟩

end Model

/-! ### Composites that were built -/

namespace Expression

/-- A composite is the one listed under its label. Nothing is asked of variables. -/
def IsBuilt (built : List Expression) : Expression → Prop
  | .composite label connective operands kind =>
      built[label]? = some (.composite label connective operands kind)
  | _ => True

/-- Every composite listed sits at its label, and the composites among its operands are listed
too. -/
def Closed (built : List Expression) : Prop :=
  ∀ (label : Label) (expression : Expression), built[label]? = some expression →
    ∃ connective operands kind, expression = .composite label connective operands kind ∧
      ∀ operand ∈ operands, operand.IsBuilt built

theorem IsBuilt.concat {built : List Expression} {expression : Expression}
    (isBuilt : expression.IsBuilt built) (last : Expression) :
    expression.IsBuilt (built ++ [last]) := by
  cases expression with
  | composite => exact getElem?_append_of_some isBuilt _
  | _ => trivial

theorem Closed.concat {built operands : List Expression} (closed : Closed built)
    (listed : ∀ operand ∈ operands, operand.IsBuilt built) (connective : Connective)
    (kind : Kind) : Closed (built ++ [.composite built.length connective operands kind]) := by
  intro label expression found
  rcases getElem?_concat_cases found with earlier | ⟨rfl, rfl⟩
  · obtain ⟨_, _, _, composite, operandsListed⟩ := closed label expression earlier
    exact ⟨_, _, _, composite, fun operand member => (operandsListed operand member).concat _⟩
  · exact ⟨_, _, _, rfl, fun operand member => (listed operand member).concat _⟩

theorem IsBuilt.within {built : List Expression} {part whole : Expression}
    (closed : Closed built) (within : part.Within whole) (isBuilt : whole.IsBuilt built) :
    part.IsBuilt built := by
  induction within with
  | self => exact isBuilt
  | operand member _ inductionHypothesis =>
      obtain ⟨_, _, _, same, operandsBuilt⟩ := closed _ _ isBuilt
      cases same
      exact inductionHypothesis (operandsBuilt _ member)

theorem IsBuilt.isListed {built : List Expression} {expression : Expression}
    (closed : Closed built) (isBuilt : expression.IsBuilt built) : expression.IsListed built := by
  intro part within label labelled
  have partBuilt := isBuilt.within closed within
  cases part with
  | composite own connective operands kind =>
      cases labelled
      exact partBuilt
  | _ => cases labelled

end Expression

/-! ### Moves -/

/-- One thing a user does, or a search. Either may fail; a run goes on after that. -/
inductive Move where
  | act (action : Action)
  | solve (settings : Search.Settings)

namespace Move

def expressions : Move → List Expression
  | .act action => action.expressions
  | .solve _ => []

def flushes : Move → Bool
  | .act .flush | .solve _ => true
  | .act _ => false

end Move

namespace Session

def advance (session : Session) : Move → Session
  | .act action => session.step action
  | .solve settings => { session with model := (Model.solve settings session.model).2 }

def play (session : Session) (moves : List Move) : Session := moves.foldl advance session

/-- The composites that the move hands to the model were built here. Variables need not be
allocated. -/
def Allows (session : Session) (move : Move) : Prop :=
  ∀ expression ∈ move.expressions, expression.IsBuilt session.built

def AllowsAll : Session → List Move → Prop
  | _, [] => True
  | session, move :: rest => session.Allows move ∧ (session.advance move).AllowsAll rest

def Refuses (session : Session) (moves : List Move) (posting : Posting) : Prop :=
  ∃ earlier move later, moves = earlier ++ move :: later ∧ move.flushes = true ∧
    (session.play earlier).model.FailsAt posting

/-! ### Variables of composites along moves -/

/-- The variable was introduced for the composite under the label, and the posting that defines it
is stated or lost. -/
def Ties (session : Session) (lost : Posting → Prop) (label : Label) (v : Variable) : Prop :=
  ∃ connective operands kind arguments,
    session.Introduces label v connective operands kind arguments ∧
      (connective.posting arguments (.var v) ∈ session.model.stated ∨
        lost (connective.posting arguments (.var v)))

/-- Composites sit at their labels, only postings wait, and every variable of a composite is defined
by a posting that is stated or lost. -/
structure Traced (session : Session) (lost : Posting → Prop) : Prop where
  closed : Expression.Closed session.built
  labels : session.model.nextLabel = session.built.length
  queued : ∀ interaction ∈ session.model.queue, ∃ posting, interaction = .post posting
  ties : ∀ label v, (label, v) ∈ session.model.definitions → session.Ties lost label v

theorem Ties.mono {before after : Session} {lost missing : Posting → Prop} {label : Label}
    {v : Variable} (ties : before.Ties lost label v)
    (built : ∀ (label : Label) (expression : Expression),
      before.built[label]? = some expression → after.built[label]? = some expression)
    (settings : after.model.settings = before.model.settings)
    (domains : ∀ (id : Nat) (domain : Domain),
      before.model.problem.domains[id]? = some domain →
        after.model.problem.domains[id]? = some domain)
    (definitions : ∀ entry ∈ before.model.definitions, entry ∈ after.model.definitions)
    (kept : ∀ posting, posting ∈ before.model.stated ∨ lost posting →
      posting ∈ after.model.stated ∨ missing posting) : after.Ties missing label v := by
  obtain ⟨connective, operands, kind, arguments, introduces, stated⟩ := ties
  exact ⟨connective, operands, kind, arguments,
    introduces.mono built settings domains definitions, kept _ stated⟩

namespace Traced

variable {session : Session} {lost : Posting → Prop} (traced : session.Traced lost)

include traced

theorem mono {more : Posting → Prop} (wider : ∀ posting, lost posting → more posting) :
    session.Traced more :=
  ⟨traced.closed, traced.labels, traced.queued, fun label v defined =>
    (traced.ties label v defined).mono (fun _ _ => id) rfl (fun _ _ => id) (fun _ => id)
      fun posting => Or.imp_right (wider posting)⟩

theorem allocating (more : List Domain) (auxiliaries : Nat) :
    Traced { session with
      model := { session.model with
        problem := { session.model.problem with
          domains := session.model.problem.domains ++ more }
        auxiliaries } } lost :=
  ⟨traced.closed, traced.labels, traced.queued, fun label v defined =>
    (traced.ties label v defined).mono (fun _ _ => id) rfl
      (fun _ _ found => getElem?_append_of_some found _) (fun _ => id) fun _ => id⟩

theorem building {operands : List Expression}
    (listed : ∀ operand ∈ operands, operand.IsBuilt session.built) (connective : Connective)
    (kind : Kind) :
    Traced { session with
      model := { session.model with nextLabel := session.model.nextLabel + 1 }
      built := session.built ++
        [.composite session.model.nextLabel connective operands kind] } lost := by
  refine ⟨?_, by simp [traced.labels], traced.queued, fun label v defined => ?_⟩
  · rw [traced.labels]
    exact traced.closed.concat listed connective kind
  · exact (traced.ties label v defined).mono (fun _ _ found => getElem?_append_of_some found _) rfl
      (fun _ _ => id) (fun _ => id) fun _ => id

/-- Elaborating the model with composites that were built leaves a session traced. -/
theorem elaborating {scope : Expression → Prop} {after : Model}
    (elaborates : session.model.Elaborates scope after)
    (inScope : ∀ expression, expression.label? ≠ none → scope expression →
      expression.IsBuilt session.built) :
    Traced { session with model := after } lost := by
  induction elaborates with
  | refl => exact traced
  | @define model label connective operands kind arguments _ inner _ represents
      inductionHypothesis =>
      have built : session.built[label]? = some (.composite label connective operands kind) :=
        inScope (.composite label connective operands kind) (Option.some_ne_none _) inner
      have stated := Model.stated_define model label connective arguments kind
      refine ⟨traced.closed, inductionHypothesis.labels, ?_, fun other v defined => ?_⟩
      · intro interaction member
        rcases List.mem_append.mp member with earlier | new
        · exact inductionHypothesis.queued interaction earlier
        · exact ⟨_, List.mem_singleton.mp new⟩
      · rcases List.mem_cons.mp defined with new | earlier
        · cases new
          have introduces := @Introduces.defining { session with model } _ _ _ _ _ built represents
          refine ⟨connective, operands, kind, arguments, introduces, .inl ?_⟩
          rw [stated]
          exact List.mem_append_right _ (List.mem_singleton_self _)
        · refine (inductionHypothesis.ties other v earlier).mono (fun _ _ => id) rfl
            (fun _ _ found => getElem?_append_of_some found _)
            (fun _ member => List.mem_cons_of_mem _ member) fun posting => Or.imp_left ?_
          rw [stated]
          exact List.mem_append_left _

theorem posting (posting : Posting) (journal : Array Event) (resolved : List Expression)
    (declared : List Declaration) :
    Traced { session with
      model := { session.model with
        queue := session.model.queue ++ [.post posting]
        journal }
      resolved
      declared } lost := by
  refine ⟨traced.closed, traced.labels, ?_, fun label v defined => ?_⟩
  · intro interaction member
    rcases List.mem_append.mp member with earlier | new
    · exact traced.queued interaction earlier
    · exact ⟨_, List.mem_singleton.mp new⟩
  · refine (traced.ties label v defined).mono (fun _ _ => id) rfl (fun _ _ => id) (fun _ => id)
      fun other => Or.imp_left ?_
    rw [Model.stated_post]
    exact List.mem_append_left _

/-- A flush leaves a session traced, if the posting at which it fails counts as lost. -/
theorem flushing :
    Traced { session with model := (Model.flush session.model).2 }
      fun posting => lost posting ∨ session.model.FailsAt posting := by
  obtain ⟨recorded, waiting, executed, journal, after, cases⟩ := Model.flush_cases traced.queued
  rw [after]
  have waits : ∀ interaction ∈ waiting, interaction ∈ session.model.queue := by
    rcases cases with ⟨_, rfl⟩ | ⟨posting, split, _⟩
    · exact fun _ member => absurd member List.not_mem_nil
    · rw [split]
      exact fun _ member => List.mem_append_right _ (List.mem_cons_of_mem _ member)
  refine ⟨traced.closed, traced.labels, fun interaction member =>
    traced.queued interaction (waits interaction member), fun label v defined => ?_⟩
  refine (traced.ties label v defined).mono (fun _ _ => id) rfl (fun _ _ => id) (fun _ => id)
    fun posting => ?_
  rintro (stated | missing)
  · have before : session.model.stated =
        session.model.problem.postings ++ session.model.queue.filterMap Interaction.posting? := rfl
    rcases cases with ⟨queue, rfl⟩ | ⟨refused, split, failsAt⟩
    · refine .inl ?_
      rw [before, queue] at stated
      simpa [Model.stated, Interaction.posting?, Function.comp_def] using stated
    · rw [before, split] at stated
      by_cases same : posting = refused
      · exact .inr (.inr (same ▸ failsAt))
      · refine .inl ?_
        simpa [Model.stated, Interaction.posting?, Function.comp_def, same, or_assoc] using stated
  · exact .inr (.inl missing)

/-- Every allowed action but a flush leaves a session traced. -/
theorem step {action : Action} (quiet : Move.flushes (.act action) = false)
    (allows : session.Allows (.act action)) : (session.step action).Traced lost := by
  have listed : ∀ expression ∈ action.expressions, expression.IsListed session.built :=
    fun expression member => (allows expression member).isListed traced.closed
  cases action with
  | allocate domain => exact traced.allocating [domain] session.model.auxiliaries
  | allocateArray count domain =>
      exact traced.allocating (List.replicate count domain) session.model.auxiliaries
  | fresh kind => exact traced.allocating [_] (session.model.auxiliaries + 1)
  | build composition =>
      cases built : composition.build session.model.nextLabel with
      | error error =>
          rw [step_build_error built]
          exact traced
      | ok expression =>
          rw [step_build_ok built]
          obtain ⟨connective, operands, kind, rfl, _, offers⟩ := Composition.build_eq_ok built
          refine traced.building (fun operand member => ?_) connective kind
          rcases offers operand member with part | ⟨items, part, v, vMember, rfl⟩
          · exact allows operand part
          · trivial
  | resolve expression =>
      have within := allows expression (List.mem_singleton_self _)
      obtain ⟨elaborates, _⟩ :=
        Expression.resolve_spec (within.isListed traced.closed) session.model
      have elaborated := traced.elaborating elaborates fun part _ inner =>
        within.within traced.closed inner
      exact ⟨elaborated.closed, elaborated.labels, elaborated.queued, fun label v defined =>
        (elaborated.ties label v defined).mono (fun _ _ => id) rfl (fun _ _ => id) (fun _ => id)
          fun _ => id⟩
  | declare declaration =>
      cases planned : declaration.plan with
      | error error =>
          rw [step_declare_error planned]
          exact traced
      | ok plan =>
          obtain ⟨middle, posting, journal, elaborates, _, after⟩ :=
            step_declare_of_listed planned listed
          have elaborated := traced.elaborating elaborates fun part _ occurs => by
            obtain ⟨expression, member, within⟩ := occurs
            exact (allows expression member).within traced.closed within
          rw [after]
          exact elaborated.posting posting journal session.resolved _
  | flush => cases quiet

/-- A search flushes, and then only reports. -/
theorem solving (settings : Search.Settings) :
    Traced { session with model := (Model.solve settings session.model).2 }
      fun posting => lost posting ∨ session.model.FailsAt posting := by
  have flushed := traced.flushing
  obtain ⟨journal, solved⟩ := Model.solve_model settings session.model
  rw [solved]
  exact ⟨flushed.closed, flushed.labels, flushed.queued, fun label v defined =>
    (flushed.ties label v defined).mono (fun _ _ => id) rfl (fun _ _ => id) (fun _ => id)
      fun _ => id⟩

theorem advance {move : Move} (allows : session.Allows move) :
    (session.advance move).Traced fun posting =>
      lost posting ∨ move.flushes = true ∧ session.model.FailsAt posting := by
  cases move with
  | solve settings =>
      exact (traced.solving settings).mono fun posting => Or.imp_right fun failed => ⟨rfl, failed⟩
  | act action =>
      cases flushes : Move.flushes (.act action) with
      | false => exact (traced.step flushes allows).mono fun posting => Or.inl
      | true =>
          obtain rfl : action = .flush := by
            cases action <;> first | rfl | cases flushes
          exact traced.flushing.mono fun posting => Or.imp_right fun failed => ⟨rfl, failed⟩

/-- Allowed moves leave a session traced, if the postings that they refuse count as lost. -/
theorem play {moves : List Move} (allows : session.AllowsAll moves) :
    (session.play moves).Traced fun posting => lost posting ∨ session.Refuses moves posting := by
  induction moves generalizing session lost with
  | nil => exact traced.mono fun posting => Or.inl
  | cons move rest inductionHypothesis =>
      refine (inductionHypothesis (traced.advance allows.1) allows.2).mono fun posting => ?_
      rintro ((missing | ⟨flushes, failsAt⟩) | ⟨earlier, other, later, rfl, flushes, failsAt⟩)
      · exact .inl missing
      · exact .inr ⟨[], move, rest, rfl, flushes, failsAt⟩
      · exact .inr ⟨move :: earlier, other, later, rfl, flushes, failsAt⟩

end Traced

theorem traced_start (settings : Model.Settings) : (start settings).Traced fun _ => False where
  closed := fun label expression found => by simp [start] at found
  labels := rfl
  queued := fun _ member => absurd member List.not_mem_nil
  ties := fun _ _ member => absurd member List.not_mem_nil

/-- Whenever a composite has a variable, the posting that defines the variable is recorded, waits,
or was refused by a flush on the way. A flush that fails loses only the posting at which it
fails. -/
theorem defined_or_refused (settings : Model.Settings) (moves : List Move)
    (allows : (start settings).AllowsAll moves) :
    let session := (start settings).play moves
    ∀ label v, (label, v) ∈ session.model.definitions →
      ∃ connective operands kind arguments,
        session.Introduces label v connective operands kind arguments ∧
          (connective.posting arguments (.var v) ∈ session.model.problem.postings ∨
            .post (connective.posting arguments (.var v)) ∈ session.model.queue ∨
            (start settings).Refuses moves (connective.posting arguments (.var v))) := by
  intro session label v defined
  have traced := (traced_start settings).play allows
  obtain ⟨connective, operands, kind, arguments, introduces, stated | missing⟩ :=
    traced.ties label v defined
  · refine ⟨connective, operands, kind, arguments, introduces, ?_⟩
    rcases List.mem_append.mp stated with recorded | waiting
    · exact .inl recorded
    · obtain ⟨interaction, waits, same⟩ := List.mem_filterMap.mp waiting
      obtain ⟨posting, rfl⟩ := traced.queued interaction waits
      cases same
      exact .inr (.inl waits)
  · refine ⟨connective, operands, kind, arguments, introduces, .inr (.inr ?_)⟩
    exact missing.resolve_left id

/-- The conjunction of a variable that is not allocated with one that is. -/
def strayConjunction : Expression :=
  .composite 0 (.logic .and) [.variable ⟨7, .bool⟩, .variable ⟨0, .bool⟩] .bool

/-- The conjunction is stated to differ from a constant, so that it is given a variable. Of two
flushes the first fails. -/
def losesConjunction : List Move :=
  [ .act (.allocate .bool),
    .act (.build (.logic .and (.variable ⟨7, .bool⟩) (.variable ⟨0, .bool⟩))),
    .act (.declare { statement := .relate strayConjunction .ne (.constant (.bool true)) }),
    .act .flush,
    .act .flush ]

theorem allowsAll_losesConjunction : (start {}).AllowsAll losesConjunction := by
  refine ⟨nofun, ?_, ?_, nofun, nofun, trivial⟩
  · intro expression member
    rcases List.mem_pair.mp member with rfl | rfl <;> trivial
  · intro expression member
    rcases List.mem_pair.mp member with rfl | rfl
    · rfl
    · trivial

/-- In the end the variable is compared with the constant, and nothing defines it. -/
theorem losesConjunction_undefined :
    let session := (start {}).play losesConjunction
    (start {}).AllowsAll losesConjunction ∧
      (0, ⟨1, .bool⟩) ∈ session.model.definitions ∧
      session.model.stated.map Posting.mentions = [[⟨1, .bool⟩]] ∧
      ¬session.Defines 0 ⟨1, .bool⟩ := by
  intro session
  refine ⟨allowsAll_losesConjunction, List.mem_singleton_self _, rfl, ?_⟩
  rintro ⟨connective, operands, kind, arguments, _, stated⟩
  cases List.mem_singleton.mp stated

theorem losesConjunction_refused :
    (start {}).AllowsAll losesConjunction ∧
      (0, ⟨1, .bool⟩) ∈ ((start {}).play losesConjunction).model.definitions ∧
      ∃ (connective : Connective) (arguments : List Argument),
        (start {}).Refuses losesConjunction (connective.posting arguments (.var ⟨1, .bool⟩)) := by
  have defined : (0, ⟨1, .bool⟩) ∈ ((start {}).play losesConjunction).model.definitions :=
    List.mem_singleton_self _
  obtain ⟨connective, operands, kind, arguments, _, recorded | waits | refused⟩ :=
    defined_or_refused {} losesConjunction allowsAll_losesConjunction 0 _ defined
  · cases List.mem_singleton.mp recorded
  · cases waits
  · exact ⟨allowsAll_losesConjunction, defined, connective, arguments, refused⟩

end Session

end ConstraintCompiler
