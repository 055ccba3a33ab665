import ConstraintCompiler.Declaration.Compile
import ConstraintCompiler.Declaration.Truth
import ConstraintCompiler.Proofs.Resolution
import ConstraintCompiler.Proofs.Statements

/-!
Contract: the posting in which a declaration ends.

Owns:
- `Model.Finishes`, the two forms of that posting: the plan's own, and one that compares a composite
  straight with the other side of an equality;
- `Model.Finishes.verdict`, that in either form the posting is decided, and true exactly when the
  declaration is;
- `Plan.perform_spec_of_fusion` and `Plan.perform_spec_of_no_fusion`, what performing a plan
  resolves and queues in each form, and `Plan.perform_spec`, that it elaborates the model and then
  queues one such posting.
-/

namespace ConstraintCompiler

namespace Composite

def expression (composite : Composite) : Expression :=
  .composite composite.label composite.connective composite.operands composite.kind

end Composite

theorem Expression.eq_expression_of_composite? {expression : Expression} {composite : Composite}
    (found : expression.composite? = some composite) : expression = composite.expression := by
  cases expression <;> cases found
  rfl

/-- The composite is one side of an equality, and the other expression is the other side. -/
def Composite.Faces (composite : Composite) (other left right : Expression) : Prop :=
  (left = composite.expression ∧ right = other) ∨ (right = composite.expression ∧ left = other)

/-- What is tied to the other side of an equality is a composite on one side. It has no variable, and
the other side is not the composite once more. -/
theorem fusion?_eq_some {model : Model} {left right other : Expression} {composite : Composite}
    (found : fusion? model left right = some (composite, other)) :
    composite.Faces other left right ∧ composite.isUndefined model = true ∧
      ∀ second, other.composite? = some second → composite.label ≠ second.label := by
  unfold fusion? at found
  split at found
  case h_1 leftFound rightFound =>
    have leftSide := Expression.eq_expression_of_composite? leftFound
    have rightSide := Expression.eq_expression_of_composite? rightFound
    split at found
    case isTrue => cases found
    case isFalse different =>
      split at found
      case isTrue undefined =>
        cases found
        refine ⟨.inl ⟨leftSide, rfl⟩, undefined, fun second same => ?_⟩
        cases rightFound.symm.trans same
        exact different
      case isFalse =>
        split at found
        case isTrue undefined =>
          cases found
          refine ⟨.inr ⟨rightSide, rfl⟩, undefined, fun second same => ?_⟩
          cases leftFound.symm.trans same
          exact Ne.symm different
        case isFalse => cases found
  case h_2 leftFound rightNone =>
    split at found
    case isTrue undefined =>
      cases found
      exact ⟨.inl ⟨Expression.eq_expression_of_composite? leftFound, rfl⟩, undefined,
        fun second same => nomatch rightNone.symm.trans same⟩
    case isFalse => cases found
  case h_3 leftNone rightFound =>
    split at found
    case isTrue undefined =>
      cases found
      exact ⟨.inr ⟨Expression.eq_expression_of_composite? rightFound, rfl⟩, undefined,
        fun second same => nomatch leftNone.symm.trans same⟩
    case isFalse => cases found
  case h_4 => cases found

theorem fusion?_faces {model : Model} {left right other : Expression} {composite : Composite}
    (found : fusion? model left right = some (composite, other)) :
    composite.Faces other left right := (fusion?_eq_some found).1

namespace Plan

/-- Everything that performing the plan resolves. -/
def expressions (plan : Plan) : List Expression := plan.subjects ++ plan.target.toList

/-- The posting that compares what a connective makes of the arguments with the other side of the
plan's equality. -/
def fusedPosting (plan : Plan) (connective : Connective) (arguments : List Argument)
    (result : Argument) : Posting :=
  { connective.posting arguments result with
    negated := plan.negated
    strength := plan.strength
    priority := plan.priority }

theorem equality?_eq_some {plan : Plan} {left right : Expression}
    (found : plan.equality? = some (left, right)) :
    plan.primitive = .relation ∧ plan.relation = some .eq ∧ plan.target = none ∧
      plan.subjects = [left, right] := by
  unfold equality? at found
  split at found
  · rename_i primitive relation target subjects
    cases found
    exact ⟨primitive, relation, target, subjects⟩
  · cases found

end Plan

/-- The posting ends the plan, on arguments that the model uses for its expressions. -/
inductive Model.Finishes (model : Model) (plan : Plan) : Posting → Prop where
  | plain {arguments : List Argument} {target : Option Variable}
      (subjects : List.Forall₂ model.Represents plan.subjects arguments)
      (bound : Option.Rel (fun expression v => model.Represents expression (.var v)) plan.target
        target) :
      Finishes model plan (plan.posting arguments target)
  | fused {composite : Composite} {left right other : Expression} {arguments : List Argument}
      {result : Argument} (equality : plan.equality? = some (left, right))
      (faces : composite.Faces other left right) (represents : model.Represents other result)
      (operands : model.RepresentsOperands composite.connective composite.operands arguments) :
      Finishes model plan (plan.fusedPosting composite.connective arguments result)

theorem Model.Finishes.mono {before after : Model} {plan : Plan} {posting : Posting}
    (grown : ∀ entry ∈ before.definitions, entry ∈ after.definitions)
    (finishes : before.Finishes plan posting) : after.Finishes plan posting := by
  cases finishes with
  | plain subjects bound =>
      refine .plain (subjects.imp fun _ _ head => head.mono grown) ?_
      generalize plan.target = wanted at bound ⊢
      cases bound with
      | some represents => exact .some (represents.mono grown)
      | none => exact .none
  | fused equality faces represents operands =>
      exact .fused equality faces (represents.mono grown) (operands.mono grown)

/-! ### Truth -/

section Verdict

variable {posting : Posting} {assignment : Assignment} {truth : Bool}
  (condition : posting.condition? assignment = some truth)

include condition

theorem Posting.verdict_of_plain (plain : posting.target = none) :
    posting.verdict assignment = some (truth ^^ posting.negated) := by
  rw [verdict, condition, plain]
  rfl

theorem Posting.verdict_of_target {target : Variable} {bound : Bool}
    (reified : posting.target = some target) (read : assignment target.id = some (.bool bound)) :
    posting.verdict assignment = some (bound == (truth ^^ posting.negated)) := by
  rw [verdict, condition, reified]
  simp [read, Value.asBool?]

end Verdict

theorem Declaration.Planned.expressions_subset {declaration : Declaration} {plan : Plan}
    (planned : declaration.Planned plan) :
    ∀ expression ∈ plan.expressions,
      expression ∈ declaration.expressions ∨ ∃ literal, expression = .constant literal := by
  intro expression member
  rcases List.mem_append.mp member with subject | target
  · rcases planned.becomes.subjects_subset expression subject with found | literal
    · exact .inl (List.mem_append_left _ found)
    · exact .inr literal
  · rw [planned.target_eq] at target
    exact .inl (List.mem_append_right _ target)

theorem Declaration.Planned.atHand {session : Session} {declaration : Declaration} {plan : Plan}
    (planned : declaration.Planned plan)
    (atHand : ∀ expression ∈ declaration.expressions, session.AtHand expression) :
    ∀ expression ∈ plan.expressions, session.AtHand expression := by
  intro expression member
  rcases planned.expressions_subset expression member with found | ⟨literal, rfl⟩
  · exact atHand expression found
  · trivial

theorem Declaration.Planned.isListed {built : List Expression} {declaration : Declaration}
    {plan : Plan} (planned : declaration.Planned plan)
    (listed : ∀ expression ∈ declaration.expressions, expression.IsListed built) :
    ∀ expression ∈ plan.expressions, expression.IsListed built := by
  intro expression member
  rcases planned.expressions_subset expression member with found | ⟨literal, rfl⟩
  · exact listed expression found
  · intro part within label labelled
    cases within
    cases labelled

theorem Declaration.Planned.occurs {declaration : Declaration} {plan : Plan}
    (planned : declaration.Planned plan) {part : Expression} (labelled : part.label? ≠ none)
    (occurs : Expression.OccursIn plan.expressions part) :
    Expression.OccursIn declaration.expressions part := by
  obtain ⟨expression, member, within⟩ := occurs
  rcases planned.expressions_subset expression member with found | ⟨literal, rfl⟩
  · exact ⟨expression, found, within⟩
  · cases within
    exact absurd rfl labelled

/-- Both sides of a fused equality are subjects, and of one kind; the statement holds exactly when
they have one value. -/
theorem Declaration.Planned.fusion {declaration : Declaration} {plan : Plan}
    {composite : Composite} {left right other : Expression} (planned : declaration.Planned plan)
    (equality : plan.equality? = some (left, right)) (faces : composite.Faces other left right) :
    composite.expression ∈ plan.subjects ∧ other ∈ plan.subjects ∧
      other.shape = .scalar composite.kind ∧
      ∀ assignment,
        (declaration.statement.holds? assignment (declaration.options.offset.getD 0)).getD false =
            true ↔
          ∃ value, composite.expression.value? assignment = some value ∧
            other.value? assignment = some value := by
  obtain ⟨primitive, relation, _, subjects⟩ := Plan.equality?_eq_some equality
  have becomes := planned.becomes
  rw [primitive, relation, subjects] at becomes
  obtain ⟨kind, leftShape, rightShape⟩ := becomes.equality_shapes
  rw [subjects]
  rcases faces with ⟨rfl, rfl⟩ | ⟨rfl, rfl⟩
  · have kinds : Shape.scalar composite.kind = .scalar kind := leftShape
    exact ⟨by simp, by simp, rightShape.trans kinds.symm,
      fun assignment => becomes.holds_equality_iff⟩
  · have kinds : Shape.scalar composite.kind = .scalar kind := rightShape
    refine ⟨by simp, by simp, leftShape.trans kinds.symm, fun assignment => ?_⟩
    rw [becomes.holds_equality_iff]
    exact exists_congr fun value => And.comm

section Truth

variable {session : Session} {assignment : Assignment} (wellBuilt : session.IsWellBuilt)
  (assigned : session.model.problem.IsAssigned assignment)

include wellBuilt assigned

/-- The posting that ends a declaration is decided where the variables of composites are faithful,
and true exactly when the declaration is. -/
theorem Model.Finishes.verdict {declaration : Declaration} {plan : Plan} {posting : Posting}
    (planned : declaration.Planned plan) (finishes : session.model.Finishes plan posting)
    (atHand : ∀ expression ∈ declaration.expressions, session.AtHand expression)
    (faithful : session.IsFaithful assignment) :
    posting.verdict assignment = some (declaration.isTrue assignment) := by
  have planAtHand := planned.atHand atHand
  have subjectsAtHand : ∀ subject ∈ plan.subjects, session.AtHand subject :=
    fun subject member => planAtHand subject (List.mem_append_left _ member)
  cases finishes with
  | @plain arguments target subjects bound =>
      have denote := Model.Represents.denoteEach wellBuilt assigned subjects subjectsAtHand
        fun subject member => faithful.to (subjectsAtHand subject member)
      have condition : (plan.posting arguments target).condition? assignment = some _ :=
        planned.becomes.condition? rfl rfl rfl denote
      have targetsAtHand : ∀ target ∈ plan.target, session.AtHand target :=
        fun target member => planAtHand target (List.mem_append_right _ (by simpa using member))
      have targets := planned.targets
      rw [Declaration.isTrue, ← planned.target_eq, Declaration.assertion, ← planned.negated_eq]
      generalize plan.target = wanted at bound targetsAtHand targets ⊢
      cases bound with
      | none => exact Posting.verdict_of_plain condition rfl
      | @some expression v represents =>
          have expressionAtHand := targetsAtHand expression rfl
          have denotes := represents.denotes wellBuilt assigned expressionAtHand
            (faithful.to expressionAtHand)
          obtain ⟨truth, found⟩ := denotes.hasValue.truth (targets expression rfl).1
          rw [Posting.verdict_of_target condition rfl (denotes.scalar.trans found)]
          simp [found, Bool.beq_eq_decide_eq, Plan.posting]
  | @fused composite left right other arguments result equality faces represents operands =>
      obtain ⟨compositeMember, otherMember, otherShape, same⟩ := planned.fusion equality faces
      have target := (Plan.equality?_eq_some equality).2.2.1
      have otherAtHand := subjectsAtHand other otherMember
      have compositeAtHand := subjectsAtHand composite.expression compositeMember
      have denotes := represents.denotes wellBuilt assigned otherAtHand (faithful.to otherAtHand)
      obtain ⟨value, found, valueKind⟩ := denotes.hasValue.scalar otherShape
      have compares : (plan.fusedPosting composite.connective arguments result).Compares
          composite.connective arguments result := ⟨rfl, rfl, rfl⟩
      have condition := compares.condition? wellBuilt assigned compositeAtHand
        (fun operand member part within => faithful.to
          (compositeAtHand.within wellBuilt (.operand member within)))
        operands (denotes.scalar.trans found) valueKind
      have equal :
          (declaration.statement.holds? assignment (declaration.options.offset.getD 0)).getD false =
            decide (composite.expression.value? assignment = some value) := by
        rw [Bool.eq_iff_iff, same assignment, found]
        simp
      rw [Posting.verdict_of_plain condition rfl, Declaration.isTrue, ← planned.target_eq, target,
        Declaration.assertion, ← planned.negated_eq, equal]
      rfl

end Truth

/-! ### Performing a plan -/

theorem Model.Represents.asVariable? {model : Model} {target : Expression} {argument : Argument}
    (represents : model.Represents target argument) (isTarget : target.IsTarget) :
    ∃ v, argument = .var v := by
  cases represents with
  | «variable» v => exact ⟨v, rfl⟩
  | array items => exact absurd isTarget.1 (by simp [Expression.shape, VariableArray.shape])
  | constant literal => exact absurd rfl (isTarget.2 literal)
  | @composite _ _ _ _ v => exact ⟨v, rfl⟩

namespace Plan

variable {built : List Expression} {plan : Plan}

theorem state_of_no_target (none : plan.target = .none) (model : Model) :
    ∃ journal,
      (plan.state model).2 =
        let subjects := Expression.resolveEach plan.subjects model
        { subjects.2 with
          queue := subjects.2.queue ++ [.post (plan.posting subjects.1 .none)]
          journal } := by
  rw [state, none]
  exact ⟨_, rfl⟩

theorem state_of_target {target : Expression} (found : plan.target = some target) (model : Model) :
    ∃ journal,
      (plan.state model).2 =
        let bound := target.resolve model
        let subjects := Expression.resolveEach plan.subjects bound.2
        { subjects.2 with
          queue := subjects.2.queue ++ [.post (plan.posting subjects.1 bound.1.asVariable?)]
          journal } := by
  rw [state, found]
  exact ⟨_, rfl⟩

theorem perform_of_fusion {left right other : Expression} {composite : Composite}
    {model : Model} (equality : plan.equality? = some (left, right))
    (fusion : fusion? model left right = some (composite, other)) :
    ∃ journal,
      (plan.perform model).2 =
        let result := other.resolve model
        let operands := composite.resolveOperands result.2
        { operands.2 with
          queue := operands.2.queue ++
            [.post (plan.fusedPosting composite.connective operands.1 result.1)]
          journal } := by
  unfold perform
  simp only [bind, StateT.bind, get, getThe, MonadStateOf.get, StateT.get, pure, equality,
    Option.bind_some, fusion]
  exact ⟨_, rfl⟩

/-- Either an equality is fused, or no equality is. -/
theorem fuses_or_not (plan : Plan) (model : Model) :
    (∃ left right composite other, plan.equality? = some (left, right) ∧
        fusion? model left right = some (composite, other)) ∨
      ∀ left right, plan.equality? = some (left, right) → fusion? model left right = none := by
  by_cases fuses : ∃ left right composite other, plan.equality? = some (left, right) ∧
      fusion? model left right = some (composite, other)
  · exact .inl fuses
  · refine .inr fun left right equality => ?_
    cases fusion : fusion? model left right with
    | none => rfl
    | some found => exact absurd ⟨left, right, found.1, found.2, equality, fusion⟩ fuses

theorem mem_expressions_of_fusion {left right other : Expression} {composite : Composite}
    {model : Model} (equality : plan.equality? = some (left, right))
    (fusion : fusion? model left right = some (composite, other)) :
    composite.expression ∈ plan.expressions ∧ other ∈ plan.expressions := by
  rw [expressions, (equality?_eq_some equality).2.2.2]
  rcases fusion?_faces fusion with ⟨rfl, rfl⟩ | ⟨rfl, rfl⟩ <;> exact ⟨by simp, by simp⟩

theorem bind_fusion?_eq_none {model : Model}
    (separate : ∀ left right, plan.equality? = some (left, right) →
      fusion? model left right = none) :
    (plan.equality?.bind fun sides => fusion? model sides.1 sides.2) = none := by
  rw [Option.bind_eq_none_iff]
  exact fun sides found => separate sides.1 sides.2 found

theorem perform_of_no_fusion {model : Model}
    (separate : ∀ left right, plan.equality? = some (left, right) →
      fusion? model left right = none) :
    (plan.perform model).2 = (plan.state model).2 := by
  unfold perform
  simp only [bind, StateT.bind, get, getThe, MonadStateOf.get, StateT.get, pure,
    bind_fusion?_eq_none separate]

variable (listed : ∀ expression ∈ plan.expressions, expression.IsListed built)

include listed

/-- A composite tied straight to the other side of an equality gets no variable; the other side and
the operands are resolved for it. -/
theorem perform_spec_of_fusion {left right other : Expression} {composite : Composite}
    {model : Model} (equality : plan.equality? = some (left, right))
    (fusion : fusion? model left right = some (composite, other)) :
    ∃ middle arguments result journal,
      model.Elaborates (· ∈ other.needed ++
          composite.connective.neededOperands composite.operands) middle ∧
        middle.Represents other result ∧
        middle.RepresentsOperands composite.connective composite.operands arguments ∧
        (plan.perform model).2 =
          { middle with
            queue := middle.queue ++
              [.post (plan.fusedPosting composite.connective arguments result)]
            journal } := by
  obtain ⟨journal, after⟩ := perform_of_fusion equality fusion
  obtain ⟨compositeMember, otherMember⟩ := mem_expressions_of_fusion equality fusion
  obtain ⟨otherElaborates, represents⟩ := Expression.resolve_needed (listed other otherMember) model
  obtain ⟨elaborates, operands⟩ := Expression.resolveOperands_needed composite
    (fun operand member => (listed _ compositeMember).operand member) (other.resolve model).2
  refine ⟨_, _, _, journal, ?_, represents.mono elaborates.grown, operands, after⟩
  exact (otherElaborates.mono fun _ _ => List.mem_append_left _).trans
    (elaborates.mono fun _ _ => List.mem_append_right _)

/-- Where nothing is fused, everything in the plan is resolved. -/
theorem perform_spec_of_no_fusion (targets : ∀ target ∈ plan.target, target.IsTarget)
    {model : Model} (separate : ∀ left right, plan.equality? = some (left, right) →
      fusion? model left right = none) :
    ∃ middle arguments target journal,
      model.Elaborates (· ∈ Expression.neededEach plan.expressions) middle ∧
        List.Forall₂ middle.Represents plan.subjects arguments ∧
        Option.Rel (fun expression v => middle.Represents expression (.var v)) plan.target target ∧
        (plan.perform model).2 =
          { middle with
            queue := middle.queue ++ [.post (plan.posting arguments target)]
            journal } := by
  rw [perform_of_no_fusion separate]
  have subjectsListed : ∀ subject ∈ plan.subjects, subject.IsListed built :=
    fun subject member => listed subject (List.mem_append_left _ member)
  have subjectsNeed : ∀ part ∈ Expression.neededEach plan.subjects,
      part ∈ Expression.neededEach plan.expressions := by
    intro part member
    obtain ⟨subject, subjectMember, needs⟩ := Expression.mem_neededEach.mp member
    exact Expression.mem_neededEach.mpr ⟨subject, List.mem_append_left _ subjectMember, needs⟩
  cases found : plan.target with
  | none =>
      obtain ⟨journal, after⟩ := state_of_no_target found model
      obtain ⟨elaborates, subjects⟩ := Expression.resolveEach_needed subjectsListed model
      exact ⟨_, _, _, journal, elaborates.mono fun part _ => subjectsNeed part, subjects, .none,
        after⟩
  | some target =>
      obtain ⟨journal, after⟩ := state_of_target found model
      have targetMember : target ∈ plan.expressions := List.mem_append_right _ (by simp [found])
      obtain ⟨targetElaborates, represents⟩ :=
        Expression.resolve_needed (listed target targetMember) model
      obtain ⟨elaborates, subjects⟩ :=
        Expression.resolveEach_needed subjectsListed (target.resolve model).2
      obtain ⟨v, bound⟩ := represents.asVariable? (targets target found)
      have kept := represents.mono elaborates.grown
      have targetNeeds : ∀ part ∈ target.needed, part ∈ Expression.neededEach plan.expressions :=
        fun part needs => Expression.mem_neededEach.mpr ⟨target, targetMember, needs⟩
      refine ⟨_, _, _, journal, ?_, subjects, ?_, after⟩
      · exact (targetElaborates.mono fun part _ => targetNeeds part).trans
          (elaborates.mono fun part _ => subjectsNeed part)
      · rw [bound] at kept ⊢
        exact .some kept

/-- Performing a plan elaborates the model with composites that occur in the plan's expressions,
and then queues one posting that ends the plan. -/
theorem perform_spec (targets : ∀ target ∈ plan.target, target.IsTarget) (model : Model) :
    ∃ middle posting journal,
      model.Elaborates (Expression.OccursIn plan.expressions) middle ∧
        middle.Finishes plan posting ∧
        (plan.perform model).2 =
          { middle with queue := middle.queue ++ [.post posting], journal } := by
  rcases plan.fuses_or_not model with ⟨left, right, composite, other, equality, fusion⟩ | separate
  · obtain ⟨middle, arguments, result, journal, elaborates, represents, operands, after⟩ :=
      perform_spec_of_fusion listed equality fusion
    obtain ⟨compositeMember, otherMember⟩ := mem_expressions_of_fusion equality fusion
    refine ⟨middle, _, journal, elaborates.mono fun part _ needs => ?_,
      .fused equality (fusion?_faces fusion) represents operands, after⟩
    rcases List.mem_append.mp needs with inOther | inOperands
    · exact ⟨other, otherMember, Expression.within_of_needed inOther⟩
    · obtain ⟨operand, member, within⟩ := Expression.occurs_of_neededOperands inOperands
      exact ⟨composite.expression, compositeMember, .operand member within⟩
  · obtain ⟨middle, arguments, target, journal, elaborates, subjects, bound, after⟩ :=
      perform_spec_of_no_fusion listed targets separate
    exact ⟨middle, _, journal, elaborates.mono fun _ _ => Expression.occurs_of_neededEach,
      .plain subjects bound, after⟩

end Plan

end ConstraintCompiler
