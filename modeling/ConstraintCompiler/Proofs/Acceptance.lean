import ConstraintCompiler.Proofs.Compilation

/-!
Contract: the problem accepts whatever a compiled session states.

Owns:
- `Argument.Fits`, that an argument has a shape and mentions only known variables, which holds of
  whatever represents an expression of the shape;
- `Posting.formObjection?_eq_none_iff`, what a posting's form must satisfy;
- `Session.Compiled.accepts`, that there is no objection to a stated posting.
-/

namespace ConstraintCompiler

/-- The argument has the shape, and its variables are known. -/
inductive Argument.Fits (problem : Problem) : Argument → Shape → Prop where
  | scalar {argument : Argument} {kind : Kind}
      (knows : ∀ v ∈ argument.mentions, problem.Knows v)
      (scalarKind : argument.scalarKind? = some kind) : Fits problem argument (.scalar kind)
  | vars {vs : List Variable} {kind : Kind} (knows : ∀ v ∈ vs, problem.Knows v)
      (kinds : ∀ v ∈ vs, v.kind = kind) : Fits problem (.vars vs) (.array kind)
  | ints (numbers : List Int) : Fits problem (.ints numbers) (.array .int)

namespace Argument.Fits

variable {problem : Problem} {argument : Argument} {shape : Shape} {kind : Kind}

theorem knows (fits : argument.Fits problem shape) : ∀ v ∈ argument.mentions, problem.Knows v := by
  cases fits with
  | scalar knows => exact knows
  | vars knows => exact knows
  | ints numbers => exact nofun

theorem scalarKind? (fits : argument.Fits problem (.scalar kind)) :
    argument.scalarKind? = some kind := by
  cases fits with
  | scalar _ scalarKind => exact scalarKind

theorem isScalar (fits : argument.Fits problem (.scalar kind)) : argument.isScalar kind = true := by
  rw [Argument.isScalar, fits.scalarKind?]
  exact beq_self_eq_true _

end Argument.Fits

theorem Model.Represents.isArrayOf {model : Model} {expression : Expression} {argument : Argument}
    {kind : Kind} (represents : model.Represents expression argument)
    (shape : expression.shape = .array kind) (unfixed : expression.isConstantArray = false) :
    argument.isArrayOf kind = true := by
  cases represents with
  | array items =>
      have kinds : items.kind = kind := by
        simpa [Expression.shape, VariableArray.shape] using shape
      simp only [Argument.isArrayOf, List.all_eq_true, beq_iff_eq]
      exact fun v member => (items.uniform v member).trans kinds
  | constant literal =>
      cases literal <;> simp_all [Expression.shape, Constant.shape, Expression.isConstantArray,
        Shape.isArray]
  | _ => cases shape

namespace Session.Compiled

variable {session : Session} (compiled : session.Compiled)

include compiled

theorem knows_definition {label : Label} {v : Variable}
    (defined : (label, v) ∈ session.model.definitions) {connective : Connective}
    {operands : List Expression} {kind : Kind}
    (built : session.built[label]? = some (.composite label connective operands kind)) :
    v.kind = kind ∧ session.model.problem.Knows v := by
  obtain ⟨_, _, _, _, introduces, _⟩ := compiled.defines label v defined
  cases built.symm.trans introduces.built
  refine ⟨introduces.kind_eq, Problem.variableObjection?_eq_none_iff.mpr ⟨_, introduces.domain, ?_⟩⟩
  rw [Model.Settings.kind_auxiliaryDomain, introduces.kind_eq]

/-- What represents an expression at hand fits its shape. -/
theorem fits_of_represents {expression : Expression} {argument : Argument}
    (represents : session.model.Represents expression argument)
    (atHand : session.AtHand expression) :
    argument.Fits session.model.problem expression.shape := by
  cases represents with
  | «variable» v =>
      refine .scalar ?_ rfl
      intro other member
      rw [List.mem_singleton.mp member]
      exact atHand
  | array items => exact .vars atHand items.uniform
  | constant literal =>
      cases literal with
      | ints numbers => exact .ints numbers
      | _ => exact .scalar nofun rfl
  | @composite label connective operands kind v defined =>
      obtain ⟨kindEq, known⟩ := compiled.knows_definition defined atHand
      refine .scalar ?_ (congrArg some kindEq)
      intro other member
      rw [List.mem_singleton.mp member]
      exact known

theorem fits_of_merges {operator : LogicOperator} {operands : List Expression}
    {arguments : List Argument} (merges : session.model.Merges (.logic operator) operands arguments)
    (atHand : ∀ operand ∈ operands, session.AtHand operand)
    (shapes : ∀ operand ∈ operands, operand.shape = .scalar .bool) :
    ∀ argument ∈ arguments, argument.Fits session.model.problem (.scalar .bool) := by
  induction merges with
  | nil => exact nofun
  | @keep operand argument rest others head _ inductionHypothesis =>
      intro other member
      rcases List.mem_cons.mp member with rfl | member
      · rw [← shapes operand (by simp)]
        exact compiled.fits_of_represents head (atHand operand (by simp))
      · exact inductionHypothesis (fun next found => atHand next (List.mem_cons_of_mem _ found))
          (fun next found => shapes next (List.mem_cons_of_mem _ found)) other member
  | @inline label nestedOperands rest kind inner others _ _ nestedHypothesis tailHypothesis =>
      obtain ⟨joins, operandsAtHand⟩ := (atHand _ (List.mem_cons_self ..)).joins compiled.wellBuilt
      cases joins with
      | logic nestedShapes _ =>
          intro argument member
          rcases List.mem_append.mp member with nested | tail
          · exact nestedHypothesis operandsAtHand nestedShapes argument nested
          · exact tailHypothesis (fun next found => atHand next (List.mem_cons_of_mem _ found))
              (fun next found => shapes next (List.mem_cons_of_mem _ found)) argument tail

theorem fits_each {expressions : List Expression} {arguments : List Argument}
    (represents : List.Forall₂ session.model.Represents expressions arguments)
    (atHand : ∀ expression ∈ expressions, session.AtHand expression) :
    List.Forall₂ (fun expression argument =>
      argument.Fits session.model.problem expression.shape) expressions arguments := by
  induction represents with
  | nil => exact .nil
  | cons head _ inductionHypothesis =>
      exact .cons (compiled.fits_of_represents head (atHand _ (by simp)))
        (inductionHypothesis fun other member => atHand other (List.mem_cons_of_mem _ member))

end Session.Compiled

/-! ### The form of postings -/

namespace Problem

/-- Nothing speaks against the form of a posting exactly when its arguments fit, it has the
relation it needs, and its primitive supports its polarity and its target, a truth value. -/
theorem formObjection?_eq_none_iff {posting : Posting} :
    formObjection? posting = none ↔
      posting.isWellShaped = true ∧
        (posting.primitive.needsRelation = true → posting.relation ≠ none) ∧
        (posting.negated = true → posting.primitive.supportsNegation = true) ∧
        ∀ target ∈ posting.target,
          posting.primitive.supportsReification = true ∧ target.kind = .bool := by
  unfold formObjection?
  cases posting.target with
  | none =>
      cases posting.isWellShaped <;> cases posting.primitive.needsRelation <;>
        cases posting.relation <;> cases posting.negated <;>
        cases posting.primitive.supportsNegation <;> simp
  | some target =>
      cases posting.isWellShaped <;> cases posting.primitive.needsRelation <;>
        cases posting.relation <;> cases posting.negated <;>
        cases posting.primitive.supportsNegation <;>
        cases posting.primitive.supportsReification <;> simp

end Problem

namespace Session.Compiled

variable {session : Session} (compiled : session.Compiled)

include compiled

/-- Arguments of a connective's operands, and a result of its kind, are known and fit the
connective. -/
private theorem fits_connective {connective : Connective} {operands : List Expression} {kind : Kind}
    {arguments : List Argument} {result : Argument} (joins : connective.Joins operands kind)
    (atHand : ∀ operand ∈ operands, session.AtHand operand)
    (represents : session.model.RepresentsOperands connective operands arguments)
    (resultFits : result.Fits session.model.problem (.scalar kind)) :
    Posting.fitsConnective connective (arguments ++ [result]) = true ∧
      ∀ argument ∈ arguments, ∀ v ∈ argument.mentions, session.model.problem.Knows v := by
  cases joins with
  | @logic operator operands truths binary =>
      obtain ⟨fits, arity⟩ :
          (∀ argument ∈ arguments, argument.Fits session.model.problem (.scalar .bool)) ∧
            (operator.flattens = false → arguments.length = 2) := by
        by_cases flattens : operator.flattens = true
        · have merges : session.model.Merges (.logic operator) operands arguments := by
            simpa [Model.RepresentsOperands, Connective.flattens, flattens] using represents
          exact ⟨compiled.fits_of_merges merges atHand truths, by simp [flattens]⟩
        · have separate : List.Forall₂ session.model.Represents operands arguments := by
            simpa [Model.RepresentsOperands, Connective.flattens, flattens] using represents
          refine ⟨?_, fun plain => separate.length_eq.symm.trans (binary plain)⟩
          intro argument member
          obtain ⟨operand, operandMember, head⟩ := exists_of_mem_forall₂ separate.flip member
          rw [← truths operand operandMember]
          exact compiled.fits_of_represents head (atHand operand operandMember)
      refine ⟨?_, fun argument member => (fits argument member).knows⟩
      have scalars : (arguments ++ [result]).all (·.isScalar .bool) = true := by
        rw [List.all_append,
          List.all_eq_true.mpr fun argument member => (fits argument member).isScalar]
        simpa using resultFits.isScalar
      rw [Posting.fitsConnective, scalars]
      cases flattens : operator.flattens with
      | true => simp
      | false => simp [arity flattens]
  | aggregate integers =>
      obtain _ | ⟨itemsHead, _ | _⟩ := represents
      have items := itemsHead.isArrayOf (congrArg Shape.array integers) rfl
      have itemsFits := compiled.fits_of_represents itemsHead (atHand _ (by simp))
      refine ⟨by simp [Posting.fitsConnective, items, resultFits.isScalar], ?_⟩
      simpa using itemsFits.knows
  | element array position =>
      obtain _ | ⟨itemsHead, _ | ⟨indexHead, _ | _⟩⟩ := represents
      have itemsFits := compiled.fits_of_represents itemsHead (atHand _ (by simp))
      have indexFits := compiled.fits_of_represents indexHead (atHand _ (by simp))
      rw [array] at itemsFits
      rw [position] at indexFits
      refine ⟨?_, by simpa using ⟨itemsFits.knows, indexFits.knows⟩⟩
      cases itemsFits with
      | vars knows kinds =>
          simp [Posting.fitsConnective, Posting.fitsElement, indexFits.isScalar,
            resultFits.scalarKind?]
          exact kinds
      | ints numbers =>
          simp [Posting.fitsConnective, Posting.fitsElement, indexFits.isScalar,
            resultFits.isScalar]
  | count integers integer =>
      obtain _ | ⟨itemsHead, _ | ⟨itemHead, _ | _⟩⟩ := represents
      have items := itemsHead.isArrayOf (congrArg Shape.array integers) rfl
      have itemsFits := compiled.fits_of_represents itemsHead (atHand _ (by simp))
      have itemFits := compiled.fits_of_represents itemHead (atHand _ (by simp))
      rw [integer] at itemFits
      refine ⟨?_, by simpa using ⟨itemsFits.knows, itemFits.knows⟩⟩
      simp [Posting.fitsConnective, items, itemFits.isScalar, resultFits.isScalar]
  | selection members positions =>
      obtain _ | ⟨setsHead, _ | ⟨selectorHead, _ | _⟩⟩ := represents
      have sets := setsHead.isArrayOf (congrArg Shape.array members) rfl
      have setsFits := compiled.fits_of_represents setsHead (atHand _ (by simp))
      have selectorFits := compiled.fits_of_represents selectorHead (atHand _ (by simp))
      rw [positions] at selectorFits
      refine ⟨?_, by simpa using ⟨setsFits.knows, selectorFits.knows⟩⟩
      simp [Posting.fitsConnective, sets, selectorFits.isScalar, resultFits.isScalar]

/-- There is no objection to a posting that compares a composite at hand with a result of its
kind. -/
private theorem accepts_comparison {posting : Posting} {label : Label} {connective : Connective}
    {operands : List Expression} {kind : Kind} {arguments : List Argument} {result : Argument}
    (compares : posting.Compares connective arguments result) (plain : posting.target = none)
    (atHand : session.AtHand (.composite label connective operands kind))
    (represents : session.model.RepresentsOperands connective operands arguments)
    (resultFits : result.Fits session.model.problem (.scalar kind)) :
    session.model.problem.objection? posting = none := by
  obtain ⟨primitive, given, relation⟩ := compares
  obtain ⟨joins, operandsAtHand⟩ := atHand.joins compiled.wellBuilt
  obtain ⟨shaped, knows⟩ := compiled.fits_connective joins operandsAtHand represents resultFits
  refine Problem.objection?_eq_none_iff.mpr ⟨?_, Problem.formObjection?_eq_none_iff.mpr
    ⟨?_, ?_, ?_, ?_⟩⟩
  · intro v member
    simp only [Posting.mentions, given, plain, List.flatMap_append, List.mem_append,
      List.mem_flatMap, List.mem_singleton, Option.toList_none, List.not_mem_nil, or_false,
      exists_eq_left] at member
    rcases member with ⟨argument, argumentMember, mentioned⟩ | mentioned
    · exact knows argument argumentMember v mentioned
    · exact resultFits.knows v mentioned
  · rw [Posting.isWellShaped, primitive, given]
    exact shaped
  · rw [primitive, relation]
    intro needed
    simp [Connective.posting, needed]
  · intro _
    rw [primitive]
    rfl
  · rw [plain]
    exact nofun

private theorem fits_channel {form : ChannelForm} {items other : Expression}
    {itemsArgument otherArgument : Argument} (ties : form.Ties items.shape other.shape)
    (itemsUnfixed : items.isConstantArray = false) (otherUnfixed : other.isConstantArray = false)
    (itemsHead : session.model.Represents items itemsArgument)
    (otherHead : session.model.Represents other otherArgument) (otherAtHand : session.AtHand other)
    (offset : Int) :
    Posting.fitsChannel form (itemsArgument :: otherArgument :: form.constants offset) = true := by
  have otherFits := compiled.fits_of_represents otherHead otherAtHand
  generalize itemsShape : items.shape = first, otherShape : other.shape = second at ties otherFits
  cases ties with
  | boolInt =>
      simp [Posting.fitsChannel, ChannelForm.constants,
        itemsHead.isArrayOf itemsShape itemsUnfixed, otherFits.isScalar]
  | boolSet =>
      simp [Posting.fitsChannel, ChannelForm.constants,
        itemsHead.isArrayOf itemsShape itemsUnfixed, otherFits.isScalar]
  | intInt =>
      simp [Posting.fitsChannel, ChannelForm.constants,
        itemsHead.isArrayOf itemsShape itemsUnfixed, otherHead.isArrayOf otherShape otherUnfixed]
  | intSet =>
      simp [Posting.fitsChannel, ChannelForm.constants,
        itemsHead.isArrayOf itemsShape itemsUnfixed, otherHead.isArrayOf otherShape otherUnfixed]

private theorem fits_statement {offset : Int} {statement : Statement} {primitive : Primitive}
    {subjects : List Expression} {swapped : Bool} {constants : List Argument}
    {relation : Option Relation}
    (becomes : statement.Becomes offset primitive subjects swapped constants relation)
    {posting : Posting} {arguments : List Argument} (primitive_eq : posting.primitive = primitive)
    (arguments_eq : posting.arguments =
      (if swapped then arguments.reverse else arguments) ++ constants)
    (represents : List.Forall₂ session.model.Represents subjects arguments)
    (atHand : ∀ subject ∈ subjects, session.AtHand subject) : posting.isWellShaped = true := by
  have fits := compiled.fits_each represents atHand
  unfold Posting.isWellShaped
  rw [primitive_eq, arguments_eq]
  cases becomes with
  | relate leftShape _ rightShape =>
      obtain _ | ⟨leftFits, _ | ⟨rightFits, _ | _⟩⟩ := fits
      rw [leftShape] at leftFits
      rw [rightShape] at rightFits
      simp [leftFits.scalarKind?, rightFits.scalarKind?]
  | truth shape =>
      obtain _ | ⟨subjectFits, _ | ⟨expectedFits, _ | _⟩⟩ := fits
      rw [shape] at subjectFits
      change Argument.Fits _ _ (.scalar .bool) at expectedFits
      simp [subjectFits.scalarKind?, expectedFits.scalarKind?]
  | distinct shape unfixed =>
      obtain _ | ⟨head, _ | _⟩ := represents
      exact head.isArrayOf shape unfixed
  | sorted shape unfixed =>
      obtain _ | ⟨head, _ | _⟩ := represents
      exact head.isArrayOf shape unfixed
  | table _ lengths =>
      obtain _ | ⟨head, _ | _⟩ := represents
      cases head
      simpa [VariableArray.length] using lengths
  | @channel left right form swapped shapes leftUnfixed rightUnfixed =>
      obtain _ | ⟨leftHead, _ | ⟨rightHead, _ | _⟩⟩ := represents
      have ties := channelForm?_ties shapes
      cases swapped with
      | false =>
          exact compiled.fits_channel ties leftUnfixed rightUnfixed leftHead rightHead
            (atHand right (by simp)) offset
      | true =>
          exact compiled.fits_channel ties rightUnfixed leftUnfixed rightHead leftHead
            (atHand left (by simp)) offset
  | @setOperation operation _ _ shape =>
      obtain _ | ⟨leftFits, _ | ⟨rightFits, _ | ⟨resultFits, _ | _⟩⟩⟩ := fits
      rw [operation.left_shape] at leftFits
      rw [operation.right_shape] at rightFits
      rw [shape] at resultFits
      simp [leftFits.isScalar, rightFits.isScalar, resultFits.isScalar]
  | @setElements elements _ _ _ shape =>
      obtain _ | ⟨setFits, _ | ⟨boundFits, _ | _⟩⟩ := fits
      rw [elements.set_shape] at setFits
      rw [shape] at boundFits
      simp [setFits.isScalar, boundFits.isScalar]

/-- There is no objection to the posting that ends a declaration. -/
private theorem accepts_ending {declaration : Declaration} {plan : Plan} {posting : Posting}
    (planned : declaration.Planned plan) (finishes : session.model.Finishes plan posting)
    (atHand : ∀ expression ∈ declaration.expressions, session.AtHand expression) :
    session.model.problem.objection? posting = none := by
  have planAtHand := planned.atHand atHand
  have subjectsAtHand : ∀ subject ∈ plan.subjects, session.AtHand subject :=
    fun subject member => planAtHand subject (List.mem_append_left _ member)
  cases finishes with
  | @plain arguments target subjects bound =>
      have shaped : (plan.posting arguments target).isWellShaped = true :=
        compiled.fits_statement planned.becomes rfl rfl subjects subjectsAtHand
      have targetFits : ∀ v ∈ target, session.model.problem.Knows v ∧ v.kind = .bool ∧
          plan.primitive.supportsReification = true := by
        have targetsAtHand : ∀ wanted ∈ plan.target, session.AtHand wanted :=
          fun wanted member => planAtHand wanted (List.mem_append_right _ (by simpa using member))
        have targets := planned.targets
        have reification := planned.reification
        generalize plan.target = wanted at bound targetsAtHand targets reification
        cases bound with
        | none => exact nofun
        | @some expression v represents =>
            have fits := compiled.fits_of_represents represents (targetsAtHand expression rfl)
            rw [(targets expression rfl).1] at fits
            intro other member
            cases member
            exact ⟨fits.knows v (by simp [Argument.mentions]), Option.some.inj fits.scalarKind?,
              reification nofun⟩
      refine Problem.objection?_eq_none_iff.mpr ⟨?_, Problem.formObjection?_eq_none_iff.mpr
        ⟨shaped, planned.becomes.relation_ne_none, planned.negation, ?_⟩⟩
      · intro v mentioned
        rcases List.mem_append.mp mentioned with inArguments | inTarget
        · obtain ⟨argument, member, mentioned⟩ := List.mem_flatMap.mp inArguments
          rcases List.mem_append.mp member with subject | constant
          · have inSubjects : argument ∈ arguments := by
              split at subject
              · exact List.mem_reverse.mp subject
              · exact subject
            obtain ⟨expression, expressionMember, head⟩ :=
              exists_of_mem_forall₂ subjects.flip inSubjects
            have fits := compiled.fits_of_represents head
              (subjectsAtHand expression expressionMember)
            exact fits.knows v mentioned
          · rw [planned.becomes.mentions_constant argument constant] at mentioned
            cases mentioned
        · exact (targetFits v (Option.mem_toList.mp inTarget)).1
      · exact fun v member => ⟨(targetFits v member).2.2, (targetFits v member).2.1⟩
  | @fused composite left right other arguments result equality faces represents operands =>
      obtain ⟨compositeMember, otherMember, otherShape, _⟩ := planned.fusion equality faces
      have resultFits :=
        compiled.fits_of_represents represents (subjectsAtHand other otherMember)
      rw [otherShape] at resultFits
      have compares : (plan.fusedPosting composite.connective arguments result).Compares
          composite.connective arguments result := ⟨rfl, rfl, rfl⟩
      exact compiled.accepts_comparison compares rfl
        (subjectsAtHand composite.expression compositeMember) operands resultFits

/-- There is no objection to anything that a compiled session states. -/
theorem accepts : ∀ posting ∈ session.model.stated,
    session.model.problem.objection? posting = none := by
  intro posting member
  cases compiled.accounts posting member with
  | @definition label v connective operands kind arguments defined introduces =>
      obtain ⟨kindEq, known⟩ := compiled.knows_definition defined introduces.built
      have atHand : session.AtHand (.composite label connective operands kind) := introduces.built
      refine compiled.accepts_comparison ⟨rfl, rfl, rfl⟩ rfl atHand introduces.represents
        (.scalar ?_ (congrArg some kindEq))
      intro other mentioned
      rw [List.mem_singleton.mp mentioned]
      exact known
  | @declaration declaration plan _ declared planned finishes =>
      apply compiled.accepts_ending (Declaration.plan_eq_ok planned) finishes
      intro expression expressionMember
      exact compiled.atHand expression (List.mem_append_right _
        (List.mem_flatMap.mpr ⟨declaration, declared, expressionMember⟩))

end Session.Compiled

end ConstraintCompiler
