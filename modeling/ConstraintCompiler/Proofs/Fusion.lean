import ConstraintCompiler.Proofs.Runs

/-!
Contract: equalities that become the posting of a composite.

Owns:
- `Statement.Relates`, the ways to state that a relation holds between an expression and another;
- `Expression.IsSettledIn`, that an expression needs no variable that a model does not have;
- `fusion?_left` and `fusion?_right`, which side of an equality is tied to the other one;
- `Connective.declaredPosting`, the posting of a connective with a declaration's annotations;
- `Statement.Relates.plan` and `Statement.Relates.accepted`, when such a statement is accepted;
- `Model.declare_equating`: a plain equality between a composite without a variable and an
  expression that needs none is accepted, and ends in the posting of the composite's connective,
  with what stands for the other side in its last place.

Does not own: what is added for the operands of the composite.
-/

namespace ConstraintCompiler

/-- The statement relates the subject and the value, from either side. A truth value is also equated
with a constant by saying that it is the expected one. -/
inductive Statement.Relates (subject : Expression) : Relation → Expression → Statement → Prop where
  | left {relation : Relation} {value : Expression} :
      Relates subject relation value (.relate subject relation value)
  | right {relation : Relation} {value : Expression} :
      Relates subject relation value (.relate value relation subject)
  | truth {expected : Bool} :
      Relates subject .eq (.constant (.bool expected)) (.truth subject expected)

/-- The options bind nothing to the truth of a statement, and give no offset. -/
structure Options.ArePlain (options : Options) : Prop where
  target : options.target = none
  offset : options.offset = none

def Expression.IsSettledIn (expression : Expression) (model : Model) : Prop :=
  ∀ label, expression.label? = some label → model.definition? label ≠ none

theorem Expression.IsSettledIn.label?_ne {model : Model} {expression : Expression} {label : Label}
    (settled : expression.IsSettledIn model) (undefined : model.definition? label = none) :
    expression.label? ≠ some label :=
  fun same => settled label same undefined

theorem Expression.isSettledIn_of_label?_eq_none {expression : Expression}
    (simple : expression.label? = none) (model : Model) : expression.IsSettledIn model :=
  fun label same => by simp [simple] at same

theorem Expression.exists_composite {expression : Expression}
    (labelled : expression.label? ≠ none) :
    ∃ composite : Composite, expression = composite.expression := by
  cases expression with
  | composite label connective operands kind =>
      exact ⟨⟨label, connective, operands, kind⟩, rfl⟩
  | _ => exact absurd rfl labelled

section Sides

variable {model : Model} (composite : Composite) {other : Expression}
  (undefined : model.definition? composite.label = none)

include undefined

/-- A composite on the left that lacks a variable is tied to whatever is on the right, if this is
not the composite once more. -/
theorem fusion?_left (apart : other.label? ≠ some composite.label) :
    fusion? model composite.expression other = some (composite, other) := by
  have lacks : composite.isUndefined model = true := by simp [Composite.isUndefined, undefined]
  cases other with
  | composite label connective operands kind =>
      have different : composite.label ≠ label := fun same => apart (congrArg some same.symm)
      simp [fusion?, Composite.expression, Expression.composite?, different, lacks]
  | _ => simp [fusion?, Composite.expression, Expression.composite?, lacks]

/-- A composite on the right that lacks a variable is tied to the left side, if this needs none. -/
theorem fusion?_right (settled : other.IsSettledIn model) :
    fusion? model other composite.expression = some (composite, other) := by
  have lacks : composite.isUndefined model = true := by simp [Composite.isUndefined, undefined]
  cases other with
  | composite label connective operands kind =>
      have defined := settled label rfl
      have different : label ≠ composite.label := by
        rintro rfl
        exact defined undefined
      have has : Composite.isUndefined ⟨label, connective, operands, kind⟩ model = false := by
        simpa [Composite.isUndefined, Option.isNone_eq_false_iff, Option.isSome_iff_ne_none] using
          defined
      simp [fusion?, Composite.expression, Expression.composite?, different, lacks, has]
  | _ => simp [fusion?, Composite.expression, Expression.composite?, lacks]

end Sides

def Connective.declaredPosting (connective : Connective) (operands : List Argument)
    (result : Argument) (negated : Bool) (options : Options) : Posting :=
  { connective.posting operands result with
    negated
    strength := options.resolvedStrength
    priority := options.priority }

namespace Model

/-- The model after the other side of a fused equality and the operands of its composite have been
resolved, with the posting that compares the two in the queue. -/
def afterFusion (model : Model) (composite : Composite) (other : Expression) (negated : Bool)
    (options : Options) : Model :=
  let result := other.resolve model
  let operands := composite.resolveOperands result.2
  { operands.2 with
    queue := operands.2.queue ++
      [.post (composite.connective.declaredPosting operands.1 result.1 negated options)] }

variable {model : Model} {composite : Composite} {other : Expression}

/-- A declaration that is planned as an equality without a target, and whose sides are fused, is
accepted and ends in the composite's posting. -/
theorem declare_fused {declaration : Declaration} {left right : Expression}
    (planned : declaration.plan =
      .ok (declaration.annotated .relation [left, right] [] (some .eq)))
    (untargeted : declaration.options.target = none)
    (fusion : fusion? model left right = some (composite, other)) :
    ∃ journal, declare declaration model =
      (.ok (), { model.afterFusion composite other declaration.negated declaration.options with
        journal }) := by
  have equality : (declaration.annotated .relation [left, right] [] (some .eq)).equality? =
      some (left, right) := by
    simp [Plan.equality?, Declaration.annotated, untargeted]
  obtain ⟨journal, performed⟩ := Plan.perform_of_fusion equality fusion
  exact ⟨journal, by rw [declare_of_plan planned, performed]; rfl⟩

end Model

theorem Statement.Relates.plan {subject value : Expression} {relation : Relation}
    {statement : Statement} (relates : statement.Relates subject relation value) {kind : Kind}
    (subjectShape : subject.shape = .scalar kind) (valueShape : value.shape = .scalar kind)
    (fits : relation.fits kind = true) {options : Options} (noOffset : options.offset = none)
    (targets : ∀ target ∈ options.target, target.IsTarget) (negated : Bool) :
    ∃ left right, ((left = subject ∧ right = value) ∨ (left = value ∧ right = subject)) ∧
      Declaration.plan { statement, negated, options } =
        .ok (Declaration.annotated { statement, negated, options } .relation [left, right] []
          (some relation)) := by
  cases relates with
  | left =>
      exact ⟨_, _, .inl ⟨rfl, rfl⟩,
        Declaration.plan_relate noOffset targets rfl subjectShape fits valueShape⟩
  | right =>
      exact ⟨_, _, .inr ⟨rfl, rfl⟩,
        Declaration.plan_relate noOffset targets rfl valueShape fits subjectShape⟩
  | truth =>
      cases valueShape
      exact ⟨_, _, .inl ⟨rfl, rfl⟩, Declaration.plan_truth noOffset targets rfl subjectShape⟩

theorem Statement.Relates.accepted {subject value : Expression} {relation : Relation}
    {statement : Statement} (relates : statement.Relates subject relation value) {kind : Kind}
    (subjectShape : subject.shape = .scalar kind) (valueShape : value.shape = .scalar kind)
    (fits : relation.fits kind = true) {options : Options} (noOffset : options.offset = none)
    (targets : ∀ target ∈ options.target, target.IsTarget) (negated : Bool) (model : Model) :
    ∃ after, Model.declare { statement, negated, options } model = (.ok (), after) := by
  obtain ⟨left, right, _, planned⟩ :=
    relates.plan subjectShape valueShape fits noOffset targets negated
  exact ⟨_, Model.declare_of_plan planned model⟩

/-- A plain equality between a composite that lacks a variable and a settled expression of its kind
is accepted, and ends in the composite's posting. -/
theorem Model.declare_equating {model : Model} (composite : Composite) {other : Expression}
    {statement : Statement} (equates : statement.Relates composite.expression .eq other)
    (undefined : model.definition? composite.label = none) (settled : other.IsSettledIn model)
    (shape : other.shape = .scalar composite.kind) {options : Options} (plain : options.ArePlain)
    (negated : Bool) :
    ∃ journal, declare { statement, negated, options } model =
      (.ok (), { model.afterFusion composite other negated options with journal }) := by
  have fits : Relation.eq.fits composite.kind = true := by
    cases composite.kind <;> rfl
  obtain ⟨left, right, sides, planned⟩ := equates.plan rfl shape fits plain.offset
    (by simp [plain.target]) negated
  refine declare_fused planned plain.target ?_
  rcases sides with ⟨rfl, rfl⟩ | ⟨rfl, rfl⟩
  · exact fusion?_left composite undefined (settled.label?_ne undefined)
  · exact fusion?_right composite undefined settled

end ConstraintCompiler
