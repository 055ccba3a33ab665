import ConstraintCompiler.Model.Access
import ConstraintCompiler.Proofs.Queueing

/-!
Contract: the postings that one declaration queues.

Owns:
- `Posting.Defines`, that a posting gives a variable the value of a connective, without annotations;
- `Expression.labels`, the composites that occur in an expression;
- `Model.Introduction`, all that a model gains when composites are given variables, and that
  resolving expressions does this and nothing else, in whatever model;
- `Posting.Carries`, that a posting has the annotations of a declaration;
- `Model.declare_emits`: an accepted declaration queues a definition of each variable that it adds
  and then one posting, which alone carries the declaration's annotations.

Does not own: which composites are given variables, or what the postings mean.
-/

namespace ConstraintCompiler

/-- The posting compares the value of a connective with the variable, for equality where the
primitive leaves the choice. It is neither denied nor reified, and asks nothing of a solver. -/
structure Posting.Defines (posting : Posting) (v : Variable) : Prop where
  connective : ∃ connective, posting.primitive = .defining connective
  relation : posting.relation = if posting.primitive.needsRelation then some .eq else none
  result : posting.arguments.getLast? = some (.var v)
  negated : posting.negated = false
  strength : posting.strength = .default
  target : posting.target = none
  priority : posting.priority = none

theorem Connective.posting_defines (connective : Connective) (operands : List Argument)
    (v : Variable) : (connective.posting operands (.var v)).Defines v :=
  ⟨⟨connective, rfl⟩, rfl, List.getLast?_concat, rfl, rfl, rfl, rfl⟩

mutual

/-- Labels of the composites in an expression, the outer before the inner, with repetitions. -/
def Expression.labels : Expression → List Label
  | .composite label _ operands _ => label :: Expression.labelsEach operands
  | _ => []

def Expression.labelsEach : List Expression → List Label
  | [] => []
  | expression :: rest => expression.labels ++ Expression.labelsEach rest

end

namespace Model

/-! ### What a model gains -/

/-- The later model comes from the earlier one by giving a new variable to each listed composite,
in that order. None of them had one, and all are in the scope. Each variable has the domain that the
settings give to its kind, and a definition that waits in the queue. -/
structure Introduction (before after : Model) (scope : List Label)
    (entries : List (Label × Variable)) (definitions : List Posting) : Prop where
  queues : before.Queues after definitions
  settings : after.settings = before.settings
  auxiliaries : after.auxiliaries = before.auxiliaries + entries.length
  domains : after.problem.domains =
    before.problem.domains ++ entries.map fun entry => before.settings.auxiliaryDomain entry.2.kind
  ids : entries.map (fun entry => entry.2.id) = List.range' before.problem.size entries.length
  table : after.definitions = entries.reverse ++ before.definitions
  defines : List.Forall₂ (fun posting entry => posting.Defines entry.2) definitions entries
  undefined : ∀ entry ∈ entries, entry.1 ∈ scope ∧ before.definition? entry.1 = none

def Introduces (before after : Model) (scope : List Label) : Prop :=
  ∃ entries definitions, before.Introduction after scope entries definitions

namespace Introduction

variable {first second third : Model} {scope : List Label}
  {entries more : List (Label × Variable)} {definitions others : List Posting}

theorem size_eq (introduction : first.Introduction second scope entries definitions) :
    second.problem.size = first.problem.size + entries.length := by
  rw [Problem.size, introduction.domains, List.length_append, List.length_map, Problem.size]

theorem definition?_of_ne (introduction : first.Introduction second scope entries definitions)
    {label : Label} (absent : ∀ entry ∈ entries, entry.1 ≠ label) :
    second.definition? label = first.definition? label := by
  have unlisted : entries.reverse.lookup label = none := by
    rw [List.lookup_eq_none_iff]
    intro entry member
    simpa using (absent entry (List.mem_reverse.mp member)).symm
  rw [definition?, introduction.table, List.lookup_append, unlisted, Option.none_or, definition?]

theorem definition?_of_some (introduction : first.Introduction second scope entries definitions)
    {label : Label} {v : Variable} (found : first.definition? label = some v) :
    second.definition? label = some v := by
  rw [introduction.definition?_of_ne, found]
  rintro entry member rfl
  exact absurd (found.symm.trans (introduction.undefined entry member).2) nofun

theorem definition?_of_not_mem (introduction : first.Introduction second scope entries definitions)
    {label : Label} (outside : label ∉ scope) :
    second.definition? label = first.definition? label := by
  apply introduction.definition?_of_ne
  rintro entry member rfl
  exact outside (introduction.undefined entry member).1

theorem refl (model : Model) (scope : List Label) : model.Introduction model scope [] [] where
  queues := .none rfl rfl rfl
  settings := rfl
  auxiliaries := rfl
  domains := (List.append_nil _).symm
  ids := rfl
  table := rfl
  defines := .nil
  undefined := nofun

theorem append (earlier : first.Introduction second scope entries definitions)
    (later : second.Introduction third scope more others) :
    first.Introduction third scope (entries ++ more) (definitions ++ others) where
  queues := earlier.queues.append later.queues
  settings := later.settings.trans earlier.settings
  auxiliaries := by
    rw [later.auxiliaries, earlier.auxiliaries, List.length_append, Nat.add_assoc]
  domains := by
    rw [later.domains, earlier.domains, earlier.settings, List.map_append, List.append_assoc]
  ids := by
    rw [List.map_append, earlier.ids, later.ids, earlier.size_eq, List.length_append,
      List.range'_append_1]
  table := by rw [later.table, earlier.table, List.reverse_append, List.append_assoc]
  defines := List.rel_append earlier.defines later.defines
  undefined := by
    intro entry member
    rcases List.mem_append.mp member with inEntries | inMore
    · exact earlier.undefined entry inEntries
    · obtain ⟨inScope, missing⟩ := later.undefined entry inMore
      refine ⟨inScope, ?_⟩
      cases found : first.definition? entry.1 with
      | none => rfl
      | some v => exact absurd (missing.symm.trans (earlier.definition?_of_some found)) nofun

/-- Defining a composite that had no variable at the start introduces it. Nothing is asked of its
operands, which may have given it a variable by now. -/
theorem define (earlier : first.Introduction second scope entries definitions) {label : Label}
    (inScope : label ∈ scope) (missing : first.definition? label = none)
    (connective : Connective) (arguments : List Argument) (kind : Kind) :
    let v := second.problem.nextVariable kind
    first.Introduction (Model.define label connective arguments kind second).2 scope
      (entries ++ [(label, v)]) (definitions ++ [connective.posting arguments (.var v)]) where
  queues := earlier.queues.append ⟨rfl, rfl, rfl⟩
  settings := earlier.settings
  auxiliaries := by
    rw [List.length_append, ← Nat.add_assoc, ← earlier.auxiliaries]
    rfl
  domains := by
    rw [List.map_append, ← List.append_assoc, ← earlier.domains, ← earlier.settings]
    rfl
  ids := by
    rw [List.map_append, earlier.ids, List.length_append, List.range'_append_1.symm,
      ← earlier.size_eq]
    rfl
  table := by
    rw [define_definitions, earlier.table, List.reverse_append]
    rfl
  defines := List.rel_append earlier.defines
    (.cons (connective.posting_defines arguments _) .nil)
  undefined := by
    intro entry member
    rcases List.mem_append.mp member with inEntries | last
    · exact earlier.undefined entry inEntries
    · rw [List.mem_singleton.mp last]
      exact ⟨inScope, missing⟩

theorem mono (introduction : first.Introduction second scope entries definitions)
    {wider : List Label} (subset : scope ⊆ wider) :
    first.Introduction second wider entries definitions :=
  { introduction with
    undefined := fun entry member =>
      (introduction.undefined entry member).imp_left fun inScope => subset inScope }

end Introduction

namespace Introduces

variable {first second third : Model} {scope : List Label}

theorem refl (model : Model) (scope : List Label) : model.Introduces model scope :=
  ⟨[], [], .refl model scope⟩

theorem append {other : List Label} (earlier : first.Introduces second scope)
    (later : second.Introduces third other) : first.Introduces third (scope ++ other) := by
  obtain ⟨entries, definitions, earlier⟩ := earlier
  obtain ⟨more, others, later⟩ := later
  exact ⟨_, _, (earlier.mono (List.subset_append_left _ _)).append
    (later.mono (List.subset_append_right _ _))⟩

theorem mono {wider : List Label} (introduces : first.Introduces second scope)
    (subset : scope ⊆ wider) : first.Introduces second wider := by
  obtain ⟨entries, definitions, introduction⟩ := introduces
  exact ⟨entries, definitions, introduction.mono subset⟩

theorem definition?_of_not_mem (introduces : first.Introduces second scope) {label : Label}
    (outside : label ∉ scope) : second.definition? label = first.definition? label := by
  obtain ⟨_, _, introduction⟩ := introduces
  exact introduction.definition?_of_not_mem outside

theorem variableIn (introduces : first.Introduces second scope) {expression : Expression}
    {v : Variable} (found : expression.variableIn first = .ok v) :
    expression.variableIn second = .ok v := by
  obtain ⟨_, _, introduction⟩ := introduces
  cases expression with
  | composite label connective operands kind =>
      simp only [Expression.variableIn] at found ⊢
      split at found
      · rename_i own defined
        cases found
        rw [introduction.definition?_of_some defined]
      · cases found
  | «variable» own => exact found
  | _ => cases found

end Introduces

end Model

/-! ### Resolving introduces -/

namespace Expression

open Model (Introduces)

private theorem introduction :
    (∀ (expression : Expression) (model : Model),
      model.Introduces (expression.resolve model).2 expression.labels) ∧
    (∀ (expressions : List Expression) (model : Model),
      model.Introduces (resolveEach expressions model).2 (labelsEach expressions)) ∧
    (∀ (connective : Connective) (expressions : List Expression) (model : Model),
      model.Introduces (resolveMerged connective expressions model).2
        (labelsEach expressions)) := by
  apply resolve.mutual_induct
  case case1 | case2 | case3 => exact fun _ model => .refl model _
  case case4 =>
    intro label connective operands kind merged each model
    cases found : model.definition? label with
    | some v =>
        rw [resolve_composite_of_defined found]
        exact .refl model _
    | none =>
        rw [resolve_composite_of_undefined found]
        have operandsIntroduce : model.Introduces
            (Composite.resolveOperands ⟨label, connective, operands, kind⟩ model).2
            (label :: labelsEach operands) := by
          refine Introduces.mono ?_ (List.subset_cons_self label _)
          unfold Composite.resolveOperands
          split
          · exact merged model
          · exact each model
        obtain ⟨entries, definitions, introduction⟩ := operandsIntroduce
        exact ⟨_, _, introduction.define (List.mem_cons_self ..) found connective _ kind⟩
  case case5 => exact fun model => .refl model _
  case case6 =>
    intro expression rest head tail model
    rw [resolveEach_cons]
    exact (head model).append (tail _)
  case case7 => exact fun _ model => .refl model _
  case case8 =>
    intro connective label inner operands kind rest nested head tail model
    by_cases inlined : inner = connective ∧ model.definition? label = none
    · obtain ⟨rfl, undefined⟩ := inlined
      rw [resolveMerged_cons_inline undefined]
      exact ((nested model).mono (List.subset_cons_self label _)).append (tail _)
    · rw [resolveMerged_cons_keep (by
        rintro _ _ _ same undefined
        cases same
        exact inlined ⟨rfl, undefined⟩)]
      exact (head model).append (tail _)
  case case9 =>
    intro connective expression rest simple head tail model
    rw [resolveMerged_cons_keep fun label operands kind same => (simple _ _ _ _ same).elim]
    exact (head model).append (tail _)

/-- Resolving gives variables to composites of the expression and changes nothing else, in whatever
model and however composites are shared. -/
theorem resolve_introduces (expression : Expression) (model : Model) :
    model.Introduces (expression.resolve model).2 expression.labels :=
  introduction.1 expression model

theorem resolveEach_introduces (expressions : List Expression) (model : Model) :
    model.Introduces (resolveEach expressions model).2 (labelsEach expressions) :=
  introduction.2.1 expressions model

theorem resolveMerged_introduces (connective : Connective) (expressions : List Expression)
    (model : Model) :
    model.Introduces (resolveMerged connective expressions model).2 (labelsEach expressions) :=
  introduction.2.2 connective expressions model

end Expression

open Model (Introduces)

theorem Composite.resolveOperands_introduces (composite : Composite) (model : Model) :
    model.Introduces (composite.resolveOperands model).2
      (Expression.labelsEach composite.operands) := by
  unfold Composite.resolveOperands
  split
  · exact Expression.resolveMerged_introduces _ _ model
  · exact Expression.resolveEach_introduces _ model

/-- A target is resolved to the variable that it is, or has from then on. -/
theorem Expression.IsTarget.resolve {target : Expression} (isTarget : target.IsTarget)
    (model : Model) :
    ∃ v, (target.resolve model).1 = .var v ∧
      target.variableIn (target.resolve model).2 = .ok v := by
  cases target with
  | «variable» v =>
      rw [Expression.resolve]
      exact ⟨v, rfl, rfl⟩
  | composite label connective operands kind =>
      cases found : model.definition? label with
      | some v =>
          rw [Expression.resolve_composite_of_defined found]
          exact ⟨v, rfl, by simp only [Expression.variableIn, found]⟩
      | none =>
          rw [Expression.resolve_composite_of_undefined found]
          refine ⟨_, rfl, ?_⟩
          simp only [Expression.variableIn, Model.definition?, Model.define_definitions,
            List.lookup_cons_self]
          rfl
  | array items => exact absurd isTarget.1 (by simp [Expression.shape, VariableArray.shape])
  | constant literal => exact absurd rfl (isTarget.2 literal)

/-! ### The last posting -/

/-- The posting has the polarity, the strength and the priority of the declaration, and for its
target the variable that the declaration's target is in the model. -/
structure Posting.Carries (posting : Posting) (declaration : Declaration) (model : Model) :
    Prop where
  negated : posting.negated = declaration.negated
  strength : posting.strength = declaration.options.resolvedStrength
  priority : posting.priority = declaration.options.priority
  target : Option.Rel (fun target v => target.variableIn model = .ok v) declaration.options.target
    posting.target

namespace Plan

structure Annotates (plan : Plan) (model : Model) (posting : Posting) : Prop where
  negated : posting.negated = plan.negated
  strength : posting.strength = plan.strength
  priority : posting.priority = plan.priority
  target : Option.Rel (fun target v => target.variableIn model = .ok v) plan.target posting.target

/-- Stating a plan introduces what its target and its subjects need, and then queues the posting
that carries the annotations. -/
theorem state_emits {plan : Plan} (targets : ∀ target ∈ plan.target, target.IsTarget)
    (model : Model) :
    ∃ middle last journal scope, model.Introduces middle scope ∧ plan.Annotates middle last ∧
      (plan.state model).2 = { middle with queue := middle.queue ++ [.post last], journal } := by
  cases found : plan.target with
  | none =>
      obtain ⟨journal, after⟩ := state_of_no_target found model
      refine ⟨_, _, journal, _, Expression.resolveEach_introduces plan.subjects model,
        ⟨rfl, rfl, rfl, ?_⟩, after⟩
      rw [found]
      exact .none
  | some target =>
      obtain ⟨journal, after⟩ := state_of_target found model
      obtain ⟨v, bound, stands⟩ := (targets target found).resolve model
      have subjects := Expression.resolveEach_introduces plan.subjects (target.resolve model).2
      refine ⟨_, _, journal, _, (target.resolve_introduces model).append subjects,
        ⟨rfl, rfl, rfl, ?_⟩, after⟩
      rw [found, bound]
      exact .some (subjects.variableIn stands)

/-- Performing a plan introduces what the plan needs, and then queues one posting that carries the
plan's annotations, whether or not the plan is fused. -/
theorem perform_emits {plan : Plan} (targets : ∀ target ∈ plan.target, target.IsTarget)
    (model : Model) :
    ∃ middle last journal scope, model.Introduces middle scope ∧ plan.Annotates middle last ∧
      (plan.perform model).2 = { middle with queue := middle.queue ++ [.post last], journal } := by
  rcases plan.fuses_or_not model with ⟨left, right, composite, other, equality, fusion⟩ | separate
  · obtain ⟨journal, after⟩ := perform_of_fusion equality fusion
    refine ⟨_, _, journal, _, (other.resolve_introduces model).append
      (composite.resolveOperands_introduces _), ⟨rfl, rfl, rfl, ?_⟩, after⟩
    rw [(equality?_eq_some equality).2.2.1]
    exact .none
  · rw [perform_of_no_fusion separate]
    exact state_emits targets model

end Plan

namespace Model

/-- An accepted declaration records nothing. It queues the definitions of the variables that it
adds, which are new and all different, and after them one posting; the definitions carry no
annotation, and this posting carries those of the declaration. -/
theorem declare_emits {declaration : Declaration} {before after : Model}
    (accepted : declare declaration before = (.ok (), after)) :
    ∃ (added : List Variable) (definitions : List Posting) (last : Posting),
      before.Queues after (definitions ++ [last]) ∧
        after.auxiliaries = before.auxiliaries + definitions.length ∧
        added.map Variable.id = List.range' before.problem.size definitions.length ∧
        after.problem.domains = before.problem.domains ++
          added.map (fun v => before.settings.auxiliaryDomain v.kind) ∧
        List.Forall₂ Posting.Defines definitions added ∧ last.Carries declaration after := by
  cases planned : declaration.plan with
  | error error =>
      rw [declare_of_error planned] at accepted
      cases accepted
  | ok plan =>
      rw [declare_of_plan planned] at accepted
      cases accepted
      have checked := Declaration.plan_eq_ok planned
      have annotations := Declaration.plan_annotations planned
      obtain ⟨middle, last, journal, scope, ⟨entries, definitions, introduction⟩, annotates,
        performed⟩ := Plan.perform_emits checked.targets before
      have length := introduction.defines.length_eq
      have finishes : middle.Queues (plan.perform before).2 [last] := by
        rw [performed]
        exact ⟨rfl, rfl, rfl⟩
      have sameProblem : (plan.perform before).2.problem = middle.problem := by rw [performed]
      have sameAuxiliaries : (plan.perform before).2.auxiliaries = middle.auxiliaries := by
        rw [performed]
      refine ⟨entries.map Prod.snd, definitions, last, introduction.queues.append finishes, ?_, ?_,
        ?_, ?_, ?_⟩
      · rw [sameAuxiliaries, introduction.auxiliaries, length]
      · rw [List.map_map, length]
        exact introduction.ids
      · rw [sameProblem, introduction.domains, List.map_map]
        rfl
      · exact List.forall₂_map_right_iff.mpr introduction.defines
      · refine ⟨annotates.negated.trans checked.negated_eq,
          annotates.strength.trans annotations.1, annotates.priority.trans annotations.2, ?_⟩
        rw [← checked.target_eq, performed]
        exact annotates.target

def threeFlags : Model where
  problem := { domains := [.bool, .bool, .bool] }

/-- A conjunction, used inside the left side and as the right side of a denied equality. The truth
of the denial is bound to a disjunction. -/
def deniesNested : Declaration :=
  let both : Expression :=
    .composite 0 (.logic .and) [.variable ⟨0, .bool⟩, .variable ⟨1, .bool⟩] .bool
  { statement := .relate (.composite 1 (.logic .xor) [both, .variable ⟨2, .bool⟩] .bool) .eq both
    negated := true
    options :=
      { strength := some .bounds
        priority := some .speed
        target := some
          (.composite 2 (.logic .or) [.variable ⟨0, .bool⟩, .variable ⟨2, .bool⟩] .bool) } }

theorem deniesNested_emits :
    declare deniesNested threeFlags = (.ok (), (declare deniesNested threeFlags).2) ∧
      ∃ (definitions : List Posting) (last : Posting),
        (declare deniesNested threeFlags).2.queue = (definitions ++ [last]).map .post ∧
          definitions.length = 3 ∧ (∀ posting ∈ definitions, posting.negated = false) ∧
          last.negated = true ∧ last.strength = .bounds ∧ last.target = some ⟨3, .bool⟩ := by
  have accepted : declare deniesNested threeFlags = (.ok (), (declare deniesNested threeFlags).2) :=
    rfl
  obtain ⟨added, definitions, last, queues, auxiliaries, _, _, defines, carries⟩ :=
    declare_emits accepted
  have three : 3 = 0 + definitions.length := auxiliaries
  refine ⟨accepted, definitions, last, queues.queue, by omega, ?_, carries.negated,
    carries.strength, ?_⟩
  · intro posting member
    obtain ⟨v, _, plain⟩ := exists_of_mem_forall₂ defines member
    exact plain.negated
  · have bound := carries.target
    generalize last.target = target at bound
    cases bound with
    | some stands =>
        cases stands
        rfl

end Model

end ConstraintCompiler
