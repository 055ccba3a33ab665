import ConstraintCompiler.Proofs.Footprint
import ConstraintCompiler.Proofs.Representation

/-!
Contract: what resolving an expression does to a model.

Owns:
- `Model.Elaborates`, that one model comes from another by giving composites variables, each
  defined by one queued posting on arguments that represent its operands;
- `Expression.resolve_needed`, that resolving elaborates the model with composites that the
  expression needs variables for, and answers an argument that represents the expression;
- `Expression.IsListed`, that labels identify the parts of an expression, without which a composite
  could be given a second variable.

Does not own: what the postings mean.
-/

namespace ConstraintCompiler

namespace Expression

/-- Every composite in the expression is the one listed under its label. -/
def IsListed (built : List Expression) (expression : Expression) : Prop :=
  ∀ part : Expression, part.Within expression → ∀ label, part.label? = some label →
    built[label]? = some part

theorem IsListed.operand {built operands : List Expression} {label : Label}
    {connective : Connective} {kind : Kind}
    (listed : (composite label connective operands kind).IsListed built) {operand : Expression}
    (member : operand ∈ operands) : operand.IsListed built :=
  fun part within => listed part (.operand member within)

/-- The label of a composite is not the label of anything in its operands. -/
theorem IsListed.label_ne {built operands : List Expression} {label : Label}
    {connective : Connective} {kind : Kind}
    (listed : (composite label connective operands kind).IsListed built) {operand part : Expression}
    (member : operand ∈ operands) (within : part.Within operand) : part.label? ≠ some label := by
  intro same
  have partListed := listed part (.operand member within) label same
  have wholeListed := listed _ (.self _) label rfl
  rw [partListed] at wholeListed
  have partSmall := sizeOf_le_of_within within
  have operandSmall := sizeOf_lt_composite member label connective kind
  rw [Option.some.inj wholeListed] at partSmall
  omega

end Expression

theorem Session.AtHand.isListed {session : Session} (wellBuilt : session.IsWellBuilt)
    {expression : Expression} (atHand : session.AtHand expression) :
    expression.IsListed session.built := by
  intro part within label labelled
  have partAtHand := atHand.within wellBuilt within
  cases part with
  | composite own connective operands kind =>
      cases labelled
      exact partAtHand
  | _ => cases labelled

namespace Model

/-! ### Defining one composite -/

section Define

variable (label : Label) (connective : Connective) (arguments : List Argument) (kind : Kind)
  (model : Model)

@[simp] theorem define_definitions :
    (define label connective arguments kind model).2.definitions =
      (label, model.problem.nextVariable kind) :: model.definitions := rfl

@[simp] theorem define_problem :
    (define label connective arguments kind model).2.problem =
      model.problem.allocate (model.settings.auxiliaryDomain kind) := rfl

@[simp] theorem define_queue :
    (define label connective arguments kind model).2.queue =
      model.queue ++
        [.post (connective.posting arguments (.var (model.problem.nextVariable kind)))] := rfl

end Define

/-- The later model comes from the earlier one by giving variables to composites in the scope that
have none, one after the other, each once its operands are represented. -/
inductive Elaborates (scope : Expression → Prop) : Model → Model → Prop where
  | refl (model : Model) : Elaborates scope model model
  | define {earlier model : Model} {label : Label} {connective : Connective}
      {operands : List Expression} {kind : Kind} {arguments : List Argument}
      (elaborates : Elaborates scope earlier model)
      (inScope : scope (.composite label connective operands kind))
      (undefined : model.definition? label = none)
      (represents : model.RepresentsOperands connective operands arguments) :
      Elaborates scope earlier (Model.define label connective arguments kind model).2

namespace Elaborates

variable {scope wider : Expression → Prop} {first second third : Model}

theorem mono (elaborates : Elaborates scope first second)
    (within : ∀ expression, expression.label? ≠ none → scope expression → wider expression) :
    Elaborates wider first second := by
  induction elaborates with
  | refl => exact .refl _
  | define _ inScope undefined represents inductionHypothesis =>
      exact .define inductionHypothesis (within _ nofun inScope) undefined represents

theorem trans (elaborates : Elaborates scope first second)
    (further : Elaborates scope second third) : Elaborates scope first third := by
  induction further with
  | refl => exact elaborates
  | define _ inScope undefined represents inductionHypothesis =>
      exact .define inductionHypothesis inScope undefined represents

theorem grown (elaborates : Elaborates scope first second) :
    ∀ entry ∈ first.definitions, entry ∈ second.definitions := by
  induction elaborates with
  | refl => exact fun _ member => member
  | define _ _ _ _ inductionHypothesis =>
      intro entry member
      rw [define_definitions]
      exact List.mem_cons_of_mem _ (inductionHypothesis entry member)

theorem settings (elaborates : Elaborates scope first second) :
    second.settings = first.settings := by
  induction elaborates with
  | refl => rfl
  | define _ _ _ _ inductionHypothesis => exact inductionHypothesis

theorem added (elaborates : Elaborates scope first second) :
    first.problem.size ≤ second.problem.size ∧
      ∀ entry ∈ second.definitions,
        entry ∈ first.definitions ∨ first.problem.size ≤ entry.2.id := by
  induction elaborates with
  | refl => exact ⟨Nat.le_refl _, fun _ member => .inl member⟩
  | define _ _ _ _ inductionHypothesis =>
      refine ⟨?_, fun entry member => ?_⟩
      · rw [define_problem, Problem.size_allocate]
        exact Nat.le_succ_of_le inductionHypothesis.1
      · rcases List.mem_cons.mp member with rfl | earlier
        · exact .inr inductionHypothesis.1
        · exact inductionHypothesis.2 entry earlier

/-- A label stays undefined unless the composite under it is in the scope. -/
theorem undefined (elaborates : Elaborates scope first second) {label : Label}
    (before : first.definition? label = none)
    (outside : ∀ expression, scope expression → expression.label? ≠ some label) :
    second.definition? label = none := by
  induction elaborates with
  | refl => exact before
  | @define model other _ _ _ _ _ inScope _ _ inductionHypothesis =>
      have different : label ≠ other := fun same => outside _ inScope (congrArg some same.symm)
      rw [definition?, define_definitions, List.lookup_cons, beq_false_of_ne different]
      exact inductionHypothesis

end Elaborates

theorem mem_definitions_of_definition? {model : Model} {label : Label} {v : Variable}
    (found : model.definition? label = some v) : (label, v) ∈ model.definitions := by
  obtain ⟨newer, older, split, _⟩ := List.lookup_eq_some_iff.mp found
  rw [split]
  simp

end Model

/-! ### Resolution elaborates -/

namespace Expression

theorem resolveEach_cons (expression : Expression) (rest : List Expression) (model : Model) :
    resolveEach (expression :: rest) model =
      let first := expression.resolve model
      let others := resolveEach rest first.2
      (first.1 :: others.1, others.2) := by
  rw [resolveEach]
  rfl

/-- Arguments of the operands of a composite, merged where its connective flattens. -/
theorem resolve_composite_of_undefined {model : Model} {label : Label}
    (undefined : model.definition? label = none) (connective : Connective)
    (operands : List Expression) (kind : Kind) :
    resolve (composite label connective operands kind) model =
      let operandArguments := Composite.resolveOperands ⟨label, connective, operands, kind⟩ model
      let defined := Model.define label connective operandArguments.1 kind operandArguments.2
      (.var defined.1, defined.2) := by
  rw [resolve]
  simp only [bind, StateT.bind, get, getThe, MonadStateOf.get, StateT.get, pure, undefined]
  rfl

theorem resolve_composite_of_defined {model : Model} {label : Label} {v : Variable}
    (defined : model.definition? label = some v) (connective : Connective)
    (operands : List Expression) (kind : Kind) :
    resolve (composite label connective operands kind) model = (.var v, model) := by
  rw [resolve]
  simp only [bind, StateT.bind, get, getThe, MonadStateOf.get, StateT.get, pure, defined]
  rfl

theorem resolveMerged_cons_inline {model : Model} {label : Label}
    (undefined : model.definition? label = none) (connective : Connective)
    (operands rest : List Expression) (kind : Kind) :
    resolveMerged connective (.composite label connective operands kind :: rest) model =
      let inner := resolveMerged connective operands model
      let others := resolveMerged connective rest inner.2
      (inner.1 ++ others.1, others.2) := by
  rw [resolveMerged]
  simp only [bind, StateT.bind, get, getThe, MonadStateOf.get, StateT.get, pure, undefined]
  rfl

theorem resolveMerged_cons_keep {model : Model} {connective : Connective} {expression : Expression}
    (kept : ∀ label operands kind, expression = .composite label connective operands kind →
      model.definition? label ≠ none)
    (rest : List Expression) :
    resolveMerged connective (expression :: rest) model =
      let first := expression.resolve model
      let others := resolveMerged connective rest first.2
      (first.1 :: others.1, others.2) := by
  cases expression with
  | composite label inner operands kind =>
      have separate : ¬(inner = connective ∧ (!(model.definition? label).isSome) = true) := by
        rintro ⟨rfl, undefined⟩
        apply kept label operands kind rfl
        simpa using undefined
      rw [resolveMerged]
      simp only [bind, StateT.bind, get, getThe, MonadStateOf.get, StateT.get, pure,
        if_neg separate]
      rfl
  | _ =>
      rw [resolveMerged]
      · rfl
      · intro label inner operands kind same
        cases same

section Specification

variable {built : List Expression}

/-- An elaboration with some composites, followed by one with others. -/
private theorem elaborates_append {first second : List Expression} {before middle after : Model}
    (head : before.Elaborates (· ∈ first) middle) (tail : middle.Elaborates (· ∈ second) after) :
    before.Elaborates (· ∈ first ++ second) after :=
  (head.mono fun _ _ => List.mem_append_left _).trans
    (tail.mono fun _ _ => List.mem_append_right _)

/-- A composite is defined once its operands are resolved. -/
private theorem define_spec {label : Label} {connective : Connective} {operands : List Expression}
    {kind : Kind} {arguments : List Argument} {before after : Model}
    (listed : (composite label connective operands kind).IsListed built)
    (undefined : before.definition? label = none)
    (elaborates : before.Elaborates (· ∈ connective.neededOperands operands) after)
    (represents : after.RepresentsOperands connective operands arguments) :
    before.Elaborates (· ∈ (composite label connective operands kind).needed)
      (Model.define label connective arguments kind after).2 := by
  have stillUndefined : after.definition? label = none := by
    apply elaborates.undefined undefined
    intro part member
    obtain ⟨operand, operandMember, within⟩ := occurs_of_neededOperands member
    exact listed.label_ne operandMember within
  rw [needed_composite]
  have operandsElaborate := elaborates.mono fun _ _ => List.mem_cons_of_mem
    (composite label connective operands kind)
  exact .define operandsElaborate (List.mem_cons_self ..) stillUndefined represents

/-- The operands of a composite are resolved in the way that its connective asks for. -/
private theorem resolveOperands_of (composite : Composite) {model : Model}
    (merged :
      model.Elaborates (· ∈ neededMerged composite.connective composite.operands)
          (resolveMerged composite.connective composite.operands model).2 ∧
        (resolveMerged composite.connective composite.operands model).2.Merges
          composite.connective composite.operands
          (resolveMerged composite.connective composite.operands model).1)
    (each :
      model.Elaborates (· ∈ neededEach composite.operands)
          (resolveEach composite.operands model).2 ∧
        List.Forall₂ (resolveEach composite.operands model).2.Represents composite.operands
          (resolveEach composite.operands model).1) :
    model.Elaborates (· ∈ composite.connective.neededOperands composite.operands)
        (composite.resolveOperands model).2 ∧
      (composite.resolveOperands model).2.RepresentsOperands composite.connective
        composite.operands (composite.resolveOperands model).1 := by
  by_cases flattens : composite.connective.flattens = true
  · rw [Composite.resolveOperands, Model.RepresentsOperands, Connective.neededOperands,
      if_pos flattens, if_pos flattens, if_pos flattens]
    exact merged
  · rw [Composite.resolveOperands, Model.RepresentsOperands, Connective.neededOperands,
      if_neg flattens, if_neg flattens, if_neg flattens]
    exact each

private theorem resolution_spec :
    (∀ (expression : Expression) (model : Model), expression.IsListed built →
      model.Elaborates (· ∈ expression.needed) (expression.resolve model).2 ∧
        (expression.resolve model).2.Represents expression (expression.resolve model).1) ∧
    (∀ (expressions : List Expression) (model : Model),
      (∀ expression ∈ expressions, expression.IsListed built) →
      model.Elaborates (· ∈ neededEach expressions) (resolveEach expressions model).2 ∧
        List.Forall₂ (resolveEach expressions model).2.Represents expressions
          (resolveEach expressions model).1) ∧
    (∀ (connective : Connective) (expressions : List Expression) (model : Model),
      (∀ expression ∈ expressions, expression.IsListed built) →
      model.Elaborates (· ∈ neededMerged connective expressions)
          (resolveMerged connective expressions model).2 ∧
        (resolveMerged connective expressions model).2.Merges connective expressions
          (resolveMerged connective expressions model).1) := by
  apply resolve.mutual_induct
  case case1 => exact fun v model _ => ⟨.refl _, .variable v⟩
  case case2 => exact fun items model _ => ⟨.refl _, .array items⟩
  case case3 => exact fun literal model _ => ⟨.refl _, .constant literal⟩
  case case4 =>
    intro label connective operands kind mergedSpec eachSpec model listed
    have operandsListed : ∀ operand ∈ operands, operand.IsListed built :=
      fun operand member => listed.operand member
    cases found : model.definition? label with
    | some v =>
        rw [resolve_composite_of_defined found]
        exact ⟨.refl _, .composite (Model.mem_definitions_of_definition? found)⟩
    | none =>
        rw [resolve_composite_of_undefined found]
        obtain ⟨elaborates, represents⟩ := resolveOperands_of ⟨label, connective, operands, kind⟩
          (mergedSpec model operandsListed) (eachSpec model operandsListed)
        exact ⟨define_spec listed found elaborates represents, .composite (List.mem_cons_self ..)⟩
  case case5 => exact fun model _ => ⟨.refl _, .nil⟩
  case case6 =>
    intro expression rest headSpec tailSpec model listed
    rw [resolveEach_cons]
    obtain ⟨headElaborates, head⟩ := headSpec model (listed expression (by simp))
    obtain ⟨tailElaborates, tail⟩ := tailSpec (expression.resolve model).2
      fun other member => listed other (List.mem_cons_of_mem _ member)
    exact ⟨elaborates_append headElaborates tailElaborates,
      .cons (head.mono tailElaborates.grown) tail⟩
  case case7 => exact fun connective model _ => ⟨.refl _, .nil⟩
  case case8 =>
    intro connective label inner operands kind rest nestedSpec headSpec tailSpec model listed
    have headListed := listed _ (List.mem_cons_self ..)
    have tailListed : ∀ other ∈ rest, other.IsListed built :=
      fun other member => listed other (List.mem_cons_of_mem _ member)
    by_cases inlined : inner = connective ∧ model.definition? label = none
    · obtain ⟨rfl, undefined⟩ := inlined
      rw [resolveMerged_cons_inline undefined, neededMerged_cons_inline]
      obtain ⟨nestedElaborates, nested⟩ := nestedSpec model fun operand member =>
        headListed.operand member
      obtain ⟨tailElaborates, tail⟩ := tailSpec (resolveMerged inner operands model).2 tailListed
      exact ⟨elaborates_append nestedElaborates tailElaborates,
        .inline (nested.mono tailElaborates.grown) tail⟩
    · rw [resolveMerged_cons_keep (by
        rintro _ _ _ same undefined
        cases same
        exact inlined ⟨rfl, undefined⟩)]
      obtain ⟨headElaborates, head⟩ := headSpec model headListed
      obtain ⟨tailElaborates, tail⟩ := tailSpec
        (resolve (.composite label inner operands kind) model).2 tailListed
      refine ⟨?_, .keep (head.mono tailElaborates.grown) tail⟩
      rw [neededMerged]
      by_cases same : inner = connective
      · -- The operand has a variable, so that resolving it changes nothing.
        obtain ⟨v, found⟩ :=
          Option.ne_none_iff_exists'.mp fun undefined => inlined ⟨same, undefined⟩
        rw [resolve_composite_of_defined found] at tailElaborates ⊢
        exact elaborates_append (.refl _) tailElaborates
      · rw [if_neg same]
        exact elaborates_append headElaborates tailElaborates
  case case9 =>
    intro connective expression rest simple headSpec tailSpec model listed
    rw [resolveMerged_cons_keep fun label operands kind same => (simple _ _ _ _ same).elim,
      neededMerged_cons_keep fun label operands kind same => simple _ _ _ _ same]
    obtain ⟨headElaborates, head⟩ := headSpec model (listed expression (by simp))
    obtain ⟨tailElaborates, tail⟩ := tailSpec (expression.resolve model).2
      fun other member => listed other (List.mem_cons_of_mem _ member)
    exact ⟨elaborates_append headElaborates tailElaborates,
      .keep (head.mono tailElaborates.grown) tail⟩

/-- Resolving elaborates the model with composites that the expression needs, and answers an
argument that represents it. -/
theorem resolve_needed {expression : Expression} (listed : expression.IsListed built)
    (model : Model) :
    model.Elaborates (· ∈ expression.needed) (expression.resolve model).2 ∧
      (expression.resolve model).2.Represents expression (expression.resolve model).1 :=
  resolution_spec.1 expression model listed

theorem resolveEach_needed {expressions : List Expression}
    (listed : ∀ expression ∈ expressions, expression.IsListed built) (model : Model) :
    model.Elaborates (· ∈ neededEach expressions) (resolveEach expressions model).2 ∧
      List.Forall₂ (resolveEach expressions model).2.Represents expressions
        (resolveEach expressions model).1 :=
  resolution_spec.2.1 expressions model listed

theorem resolveOperands_needed (composite : Composite)
    (listed : ∀ operand ∈ composite.operands, operand.IsListed built) (model : Model) :
    model.Elaborates (· ∈ composite.connective.neededOperands composite.operands)
        (composite.resolveOperands model).2 ∧
      (composite.resolveOperands model).2.RepresentsOperands composite.connective
        composite.operands (composite.resolveOperands model).1 :=
  resolveOperands_of composite
    (resolution_spec.2.2 composite.connective composite.operands model listed)
    (resolution_spec.2.1 composite.operands model listed)

/-- Resolving elaborates the model with composites that occur in the expression, and answers an
argument that represents it. -/
theorem resolve_spec {expression : Expression} (listed : expression.IsListed built)
    (model : Model) :
    model.Elaborates (·.Within expression) (expression.resolve model).2 ∧
      (expression.resolve model).2.Represents expression (expression.resolve model).1 :=
  (resolve_needed listed model).imp_left fun elaborates =>
    elaborates.mono fun _ _ => within_of_needed

end Specification

end Expression

end ConstraintCompiler
