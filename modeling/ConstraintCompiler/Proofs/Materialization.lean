import ConstraintCompiler.Proofs.Growth

/-!
Contract: which composites a model has variables for.

Owns:
- `Model.Materializes`, that the model has a variable for a composite;
- `Session.Compiled.furnishes`, that a compiled session which represents an expression has variables
  for all that the expression needs, whichever of these composites had one first;
- `Plan.resolved` and `Plan.needed`, the expressions that a plan resolves in a model and the
  composites that need variables for it, which an equality that is fused chooses differently;
- `Session.Allots`, that one session has variables for what another has and for the listed
  composites, and for nothing else, as one declaration makes it.

Does not own: solutions.
-/

namespace ConstraintCompiler

def Model.Materializes (model : Model) (expression : Expression) : Prop :=
  ∃ label v, expression.label? = some label ∧ (label, v) ∈ model.definitions

theorem Model.Materializes.mono {before after : Model} {expression : Expression}
    (materializes : before.Materializes expression)
    (grown : ∀ entry ∈ before.definitions, entry ∈ after.definitions) :
    after.Materializes expression := by
  obtain ⟨label, v, labelled, defined⟩ := materializes
  exact ⟨label, v, labelled, grown _ defined⟩

namespace Session

/-! ### What is represented -/

/-- The model has variables for all that the expression needs, if it represents the expression. -/
def Furnishes (session : Session) (expression : Expression) : Prop :=
  ∀ argument, session.model.Represents expression argument →
    ∀ part ∈ expression.needed, session.model.Materializes part

section Furnished

variable {session : Session}

theorem Furnishes.each {expressions : List Expression}
    (furnishes : ∀ expression ∈ expressions, session.Furnishes expression)
    (represented : ∀ expression ∈ expressions,
      ∃ argument, session.model.Represents expression argument) :
    ∀ part ∈ Expression.neededEach expressions, session.model.Materializes part := by
  intro part member
  obtain ⟨expression, expressionMember, needs⟩ := Expression.mem_neededEach.mp member
  obtain ⟨argument, represents⟩ := represented expression expressionMember
  exact furnishes expression expressionMember argument represents part needs

/-- An operand that was merged is not represented, but its own operands are. One that was kept is
represented, and needs more than its operands do. -/
theorem Furnishes.merged {connective : Connective} (flattens : connective.flattens = true)
    {operands : List Expression} {arguments : List Argument}
    (merges : session.model.Merges connective operands arguments)
    (furnishes : ∀ operand ∈ operands, ∀ part : Expression, part.Within operand →
      session.Furnishes part) :
    ∀ part ∈ Expression.neededMerged connective operands, session.model.Materializes part := by
  induction merges with
  | nil => exact fun _ member => absurd member List.not_mem_nil
  | @keep operand argument rest _ head _ tailHypothesis =>
      have headNeeds := furnishes operand (List.mem_cons_self ..) operand (.self _) argument head
      have tailNeeds := tailHypothesis fun other member =>
        furnishes other (List.mem_cons_of_mem _ member)
      intro part member
      by_cases nested : ∃ label operands kind, operand = .composite label connective operands kind
      · obtain ⟨label, operands, kind, rfl⟩ := nested
        rw [Expression.needed_composite, Connective.neededOperands, if_pos flattens] at headNeeds
        rw [Expression.neededMerged_cons_inline] at member
        rcases List.mem_append.mp member with first | other
        · exact headNeeds part (List.mem_cons_of_mem _ first)
        · exact tailNeeds part other
      · rw [Expression.neededMerged_cons_keep fun label operands kind same =>
          nested ⟨label, operands, kind, same⟩] at member
        rcases List.mem_append.mp member with first | other
        · exact headNeeds part first
        · exact tailNeeds part other
  | inline _ _ nestedHypothesis tailHypothesis =>
      have nestedNeeds := nestedHypothesis fun operand member part within =>
        furnishes _ (List.mem_cons_self ..) part (.operand member within)
      have tailNeeds := tailHypothesis fun other member =>
        furnishes other (List.mem_cons_of_mem _ member)
      intro part member
      rw [Expression.neededMerged_cons_inline] at member
      rcases List.mem_append.mp member with first | other
      · exact nestedNeeds part first
      · exact tailNeeds part other

theorem Furnishes.operands {connective : Connective} {operands : List Expression}
    {arguments : List Argument}
    (represents : session.model.RepresentsOperands connective operands arguments)
    (furnishes : ∀ operand ∈ operands, ∀ part : Expression, part.Within operand →
      session.Furnishes part) :
    ∀ part ∈ connective.neededOperands operands, session.model.Materializes part := by
  rw [Connective.neededOperands]
  by_cases flattens : connective.flattens = true
  · rw [Model.RepresentsOperands, if_pos flattens] at represents
    rw [if_pos flattens]
    exact Furnishes.merged flattens represents furnishes
  · rw [Model.RepresentsOperands, if_neg flattens] at represents
    rw [if_neg flattens]
    refine Furnishes.each (fun operand member => furnishes operand member operand (.self _)) ?_
    intro operand member
    obtain ⟨argument, _, head⟩ := exists_of_mem_forall₂ represents member
    exact ⟨argument, head⟩

/-- The induction is on the parts: a composite that has a variable has represented operands. -/
theorem Compiled.furnishes (compiled : session.Compiled) (expression : Expression)
    (atHand : session.AtHand expression) : session.Furnishes expression := by
  induction expression using Expression.partInduction with
  | step whole inductionHypothesis =>
    intro argument represents part needs
    cases represents with
    | @composite label connective operands kind v defined =>
        obtain ⟨_, _, _, arguments, introduces, _⟩ := compiled.defines label v defined
        cases introduces.built.symm.trans atHand
        rw [Expression.needed_composite] at needs
        rcases List.mem_cons.mp needs with rfl | inner
        · exact ⟨label, v, rfl, defined⟩
        · obtain ⟨_, operandsAtHand⟩ := atHand.joins compiled.wellBuilt
          exact Furnishes.operands introduces.represents (fun operand member occurring within =>
            inductionHypothesis operand member occurring within
              ((operandsAtHand operand member).within compiled.wellBuilt within)) part inner
    | _ => simp [Expression.needed] at needs

end Furnished

end Session

/-! ### What a plan resolves -/

namespace Plan

/-- Expressions that performing the plan resolves: the other side of an equality and the operands
of the composite that is tied to it, or everything in the plan. -/
def resolved (plan : Plan) (model : Model) : List Expression :=
  match plan.equality?.bind fun (left, right) => fusion? model left right with
  | some (composite, other) => other :: composite.operands
  | none => plan.expressions

/-- Composites that have a variable once the plan is performed. The one that is tied to the other
side of an equality needs none for that. -/
def needed (plan : Plan) (model : Model) : List Expression :=
  match plan.equality?.bind fun (left, right) => fusion? model left right with
  | some (composite, other) =>
      other.needed ++ composite.connective.neededOperands composite.operands
  | none => Expression.neededEach plan.expressions

section Fusion

variable {plan : Plan} {model : Model} {left right other : Expression} {composite : Composite}

theorem resolved_of_fusion (equality : plan.equality? = some (left, right))
    (fusion : fusion? model left right = some (composite, other)) :
    plan.resolved model = other :: composite.operands := by
  rw [resolved, equality]
  simp only [Option.bind_some, fusion]

theorem needed_of_fusion (equality : plan.equality? = some (left, right))
    (fusion : fusion? model left right = some (composite, other)) :
    plan.needed model =
      other.needed ++ composite.connective.neededOperands composite.operands := by
  rw [needed, equality]
  simp only [Option.bind_some, fusion]

end Fusion

section Separate

variable {plan : Plan} {model : Model} (separate : ∀ left right,
  plan.equality? = some (left, right) → fusion? model left right = none)

include separate

theorem resolved_of_no_fusion : plan.resolved model = plan.expressions := by
  rw [resolved]
  simp only [bind_fusion?_eq_none separate]

theorem needed_of_no_fusion : plan.needed model = Expression.neededEach plan.expressions := by
  rw [needed]
  simp only [bind_fusion?_eq_none separate]

end Separate

section Congruence

variable {first second : Model} (same : first.definitions = second.definitions)

include same

theorem fusion?_congr : fusion? first = fusion? second := by
  have sameUndefined : ∀ composite : Composite,
      composite.isUndefined first = composite.isUndefined second := by
    intro composite
    rw [Composite.isUndefined, Composite.isUndefined, Model.definition?, Model.definition?, same]
  funext left right
  simp only [fusion?, sameUndefined]

theorem resolved_congr (plan : Plan) : plan.resolved first = plan.resolved second := by
  rw [resolved, resolved, fusion?_congr same]

theorem needed_congr (plan : Plan) : plan.needed first = plan.needed second := by
  rw [needed, needed, fusion?_congr same]

end Congruence

theorem resolved_occurs (plan : Plan) (model : Model) :
    ∀ expression ∈ plan.resolved model, Expression.OccursIn plan.expressions expression := by
  intro expression member
  rcases plan.fuses_or_not model with ⟨left, right, composite, other, equality, fusion⟩ | separate
  · obtain ⟨compositeMember, otherMember⟩ := mem_expressions_of_fusion equality fusion
    rw [resolved_of_fusion equality fusion] at member
    rcases List.mem_cons.mp member with rfl | operand
    · exact ⟨expression, otherMember, .self _⟩
    · exact ⟨composite.expression, compositeMember, .operand operand (.self _)⟩
  · rw [resolved_of_no_fusion separate] at member
    exact ⟨expression, member, .self _⟩

theorem needed_occurs (plan : Plan) (model : Model) :
    ∀ part ∈ plan.needed model, Expression.OccursIn (plan.resolved model) part := by
  intro part member
  rcases plan.fuses_or_not model with ⟨left, right, composite, other, equality, fusion⟩ | separate
  · rw [resolved_of_fusion equality fusion]
    rw [needed_of_fusion equality fusion] at member
    rcases List.mem_append.mp member with inOther | inOperands
    · exact .head (Expression.within_of_needed inOther)
    · exact (Expression.occurs_of_neededOperands inOperands).tail
  · rw [resolved_of_no_fusion separate]
    rw [needed_of_no_fusion separate] at member
    exact Expression.occurs_of_neededEach member

inductive ResolvedIn (plan : Plan) (earlier model : Model) : Prop where
  | fused {left right other : Expression} {composite : Composite} {result : Argument}
      {arguments : List Argument} (equality : plan.equality? = some (left, right))
      (fusion : fusion? earlier left right = some (composite, other))
      (represents : model.Represents other result)
      (operands : model.RepresentsOperands composite.connective composite.operands arguments) :
      ResolvedIn plan earlier model
  | plain (separate : ∀ left right, plan.equality? = some (left, right) →
        fusion? earlier left right = none)
      (represented : ∀ expression ∈ plan.expressions,
        ∃ argument, model.Represents expression argument) : ResolvedIn plan earlier model

/-- Performing a plan elaborates the model with the composites that are needed for it, until
everything that it resolves is represented, and then queues one posting. -/
theorem perform_resolved {built : List Expression} {plan : Plan}
    (listed : ∀ expression ∈ plan.expressions, expression.IsListed built)
    (targets : ∀ target ∈ plan.target, target.IsTarget) (model : Model) :
    ∃ middle posting journal,
      model.Elaborates (· ∈ plan.needed model) middle ∧ plan.ResolvedIn model middle ∧
        (plan.perform model).2 =
          { middle with queue := middle.queue ++ [.post posting], journal } := by
  rcases plan.fuses_or_not model with ⟨left, right, composite, other, equality, fusion⟩ | separate
  · obtain ⟨middle, arguments, result, journal, elaborates, represents, operands, performed⟩ :=
      perform_spec_of_fusion listed equality fusion
    rw [needed_of_fusion equality fusion]
    exact ⟨middle, _, journal, elaborates, .fused equality fusion represents operands, performed⟩
  · obtain ⟨middle, arguments, target, journal, elaborates, subjects, bound, performed⟩ :=
      perform_spec_of_no_fusion listed targets separate
    rw [needed_of_no_fusion separate]
    refine ⟨middle, _, journal, elaborates, .plain separate fun expression member => ?_, performed⟩
    rcases List.mem_append.mp member with subject | wanted
    · obtain ⟨argument, _, represents⟩ := exists_of_mem_forall₂ subjects subject
      exact ⟨argument, represents⟩
    · generalize plan.target = found at bound wanted
      cases bound with
      | none => cases wanted
      | some represents =>
          rw [Option.toList_some, List.mem_singleton] at wanted
          subst wanted
          exact ⟨_, represents⟩

end Plan

namespace Session

/-- A declaration that has a plan elaborates the model with the composites that are needed for it,
until everything that the plan resolves is represented. -/
theorem Compiled.step_declare_resolved {session : Session} (compiled : session.Compiled)
    {declaration : Declaration} {plan : Plan} (planned : declaration.plan = .ok plan)
    (permits : session.Permits (.declare declaration)) :
    ∃ middle posting journal,
      session.model.Elaborates (· ∈ plan.needed session.model) middle ∧
        plan.ResolvedIn session.model middle ∧
        session.step (.declare declaration) = { session with
          model := { middle with queue := middle.queue ++ [.post posting], journal }
          declared := session.declared ++ [declaration] } := by
  have checked := Declaration.plan_eq_ok planned
  have atHand := checked.atHand permits
  obtain ⟨middle, posting, journal, elaborates, resolved, performed⟩ := Plan.perform_resolved
    (fun expression member => (atHand expression member).isListed compiled.wellBuilt)
    checked.targets session.model
  exact ⟨middle, posting, journal, elaborates, resolved, by rw [step_declare_ok planned, performed]⟩

/-- A compiled session that represents what a plan resolves has variables for all that the plan
needs. -/
theorem Compiled.materializes_needed {session : Session} (compiled : session.Compiled)
    {plan : Plan} {earlier : Model} (resolved : plan.ResolvedIn earlier session.model)
    (atHand : ∀ expression ∈ plan.expressions, session.AtHand expression) :
    ∀ part ∈ plan.needed earlier, session.model.Materializes part := by
  cases resolved with
  | @fused left right other composite result arguments equality fusion represents operands =>
      obtain ⟨compositeMember, otherMember⟩ := Plan.mem_expressions_of_fusion equality fusion
      obtain ⟨_, operandsAtHand⟩ := (atHand _ compositeMember).joins compiled.wellBuilt
      intro part member
      rw [Plan.needed_of_fusion equality fusion] at member
      rcases List.mem_append.mp member with inOther | inOperands
      · exact compiled.furnishes other (atHand other otherMember) result represents part inOther
      · exact Furnishes.operands operands (fun operand operandMember occurring within =>
          compiled.furnishes occurring
            ((operandsAtHand operand operandMember).within compiled.wellBuilt within)) part
          inOperands
  | plain separate represented =>
      rw [Plan.needed_of_no_fusion separate]
      exact Furnishes.each
        (fun expression member => compiled.furnishes expression (atHand expression member))
        represented

/-- The later session has variables for the composites of the earlier one and for the listed ones,
all of which are at hand, and for no others. -/
structure Allots (before after : Session) (needed : List Expression) : Prop where
  atHand : ∀ part ∈ needed, before.AtHand part
  materialized : ∀ part ∈ needed, after.model.Materializes part
  introduced : ∀ label v, (label, v) ∈ after.model.definitions →
    (label, v) ∈ before.model.definitions ∨ ∃ part ∈ needed, part.label? = some label

theorem Compiled.step_declare_allots {session : Session} (compiled : session.Compiled)
    {declaration : Declaration} {plan : Plan} (planned : declaration.plan = .ok plan)
    (permits : session.Permits (.declare declaration)) :
    session.Allots (session.step (.declare declaration)) (plan.needed session.model) := by
  have checked := Declaration.plan_eq_ok planned
  have planAtHand := checked.atHand permits
  have occurs : ∀ part ∈ plan.needed session.model,
      Expression.OccursIn plan.expressions part := by
    intro part member
    obtain ⟨expression, resolved, within⟩ := plan.needed_occurs session.model part member
    obtain ⟨whole, wholeMember, outer⟩ := plan.resolved_occurs session.model expression resolved
    exact ⟨whole, wholeMember, within.trans outer⟩
  obtain ⟨middle, posting, journal, elaborates, resolved, declares⟩ :=
    compiled.step_declare_resolved planned permits
  have elaborated := compiled.elaborating_named permits
    (elaborates.mono fun part labelled member => checked.occurs labelled (occurs part member))
  rw [declares]
  refine ⟨fun part member => ?_, ?_, fun label v => elaborates.from_scope (label, v)⟩
  · obtain ⟨whole, wholeMember, within⟩ := occurs part member
    exact (planAtHand whole wholeMember).within compiled.wellBuilt within
  · exact elaborated.materializes_needed resolved
      fun expression member => elaborates.grows.atHand (planAtHand expression member)

end Session

end ConstraintCompiler
