import ConstraintCompiler.Proofs.Reading
import ConstraintCompiler.Declaration.Plan

/-!
Contract: what a declaration that has a plan is known to satisfy.

Owns:
- for each check of a declaration, the condition under which it succeeds;
- `Statement.Becomes`, the primitive and the subjects that each statement ends in;
- `Declaration.plan_eq_ok`, that a plan is what its statement becomes, under the polarity and the
  target of its declaration, and that its primitive supports them;
- `Declaration.plan_annotations`, that a plan has the strength and the priority asked for.
-/

namespace ConstraintCompiler

/-! ### Checks -/

/-- Target of a reified declaration: a truth value that is not a constant. -/
def Expression.IsTarget (target : Expression) : Prop :=
  target.shape = .scalar .bool ∧ ∀ literal, target ≠ .constant literal

theorem Options.checkTarget_eq_ok {options : Options} :
    options.checkTarget = .ok () ↔ ∀ target ∈ options.target, target.IsTarget := by
  unfold checkTarget
  cases options.target with
  | none => simp
  | some target =>
      by_cases shape : target.shape = .scalar .bool
      · cases target <;> simp [Expression.IsTarget, shape]
      · simp [Expression.IsTarget, shape]

theorem Options.rejectOffset_eq_ok {options : Options} {fault : OptionFault} :
    options.rejectOffset fault = .ok () ↔ options.offset = none := by
  unfold rejectOffset
  cases options.offset <;> simp

theorem Expression.rejectConstantArray_eq_ok {expression : Expression} :
    expression.rejectConstantArray = .ok () ↔ expression.isConstantArray = false := by
  unfold rejectConstantArray
  split <;> simp_all

namespace Declaration

theorem checkSupport_eq_ok {declaration : Declaration} {primitive : Primitive} :
    declaration.checkSupport primitive = .ok () ↔
      (declaration.negated = true → primitive.supportsNegation = true) ∧
        (declaration.options.target ≠ none → primitive.supportsReification = true) := by
  unfold checkSupport
  cases declaration.negated <;> cases declaration.options.target <;>
    cases support : primitive.supportsNegation <;> simp [Primitive.supportsReification, support]

theorem checkRelation_eq_ok {left right : Expression} {relation : Relation} :
    checkRelation left relation right = .ok () ↔
      ∃ kind, left.shape = .scalar kind ∧ relation.fits kind = true ∧
        right.shape = .scalar kind := by
  unfold checkRelation
  cases left.shape with
  | array kind => simp
  | scalar kind => cases fits : relation.fits kind <;> simp [Expression.expect_eq_ok, fits]

theorem checkTable_eq_ok {subject : Expression} {rows : List (List Int)} :
    checkTable subject rows = .ok () ↔
      ∃ items, subject = .array items ∧ items.kind ≠ .set ∧
        ∀ row ∈ rows, row.length = items.length := by
  cases subject with
  | array items =>
      cases found : rows.find? fun row => row.length != items.length with
      | none =>
          have fits : ∀ row ∈ rows, row.length = items.length := by
            simpa using List.find?_eq_none.mp found
          by_cases kind : items.kind = .set <;> simp [checkTable, found, kind]
          exact fits
      | some row =>
          have member := List.mem_of_find?_eq_some found
          have differs : row.length ≠ items.length := by simpa using List.find?_some found
          by_cases kind : items.kind = .set <;> simp [checkTable, found, kind]
          exact ⟨row, member, differs⟩
  | constant literal =>
      cases literal <;>
        simp [checkTable, Expression.rejectConstantArray, Expression.isConstantArray,
          Constant.shape, Shape.isArray]
  | _ => simp [checkTable]

theorem checkElements_eq_ok {relation : Relation} {bound : Expression} :
    checkElements relation bound = .ok () ↔
      relation.isArithmetic = true ∧ bound.shape = .scalar .int := by
  unfold checkElements
  cases relation.isArithmetic <;> simp [Expression.expect_eq_ok]

end Declaration

/-! ### What statements become -/

def ChannelForm.constants (offset : Int) : ChannelForm → List Argument
  | .boolInt => [.int offset]
  | .boolSet | .intInt | .intSet => []

/-- The primitive that a statement becomes, with its subjects and whether they are swapped, the
constants after them, and the relation; the shapes of the subjects fit the primitive. -/
inductive Statement.Becomes (offset : Int) : Statement → Primitive → List Expression → Bool →
    List Argument → Option Relation → Prop where
  | relate {left right : Expression} {relation : Relation} {kind : Kind}
      (leftShape : left.shape = .scalar kind) (fits : relation.fits kind = true)
      (rightShape : right.shape = .scalar kind) :
      Becomes offset (.relate left relation right) .relation [left, right] false [] (some relation)
  | truth {subject : Expression} {expected : Bool} (shape : subject.shape = .scalar .bool) :
      Becomes offset (.truth subject expected) .relation
        [subject, .constant (.bool expected)] false [] (some .eq)
  | distinct {subject : Expression} (shape : subject.shape = .array .int)
      (unfixed : subject.isConstantArray = false) :
      Becomes offset (.distinct subject) .distinct [subject] false [] none
  | sorted {subject : Expression} (shape : subject.shape = .array .int)
      (unfixed : subject.isConstantArray = false) :
      Becomes offset (.sorted subject) .sorted [subject] false [] none
  | table {items : VariableArray} {rows : List (List Int)} (kind : items.kind ≠ .set)
      (lengths : ∀ row ∈ rows, row.length = items.length) :
      Becomes offset (.table (.array items) rows) .table [.array items] false [.tuples rows] none
  | channel {left right : Expression} {form : ChannelForm} {swapped : Bool}
      (shapes : channelForm? left.shape right.shape = some (form, swapped))
      (leftUnfixed : left.isConstantArray = false)
      (rightUnfixed : right.isConstantArray = false) :
      Becomes offset (.channel left right) (.channel form) [left, right] swapped
        (form.constants offset) none
  | setOperation {operation : SetOperation} {comparison : SetComparison} {result : Expression}
      (shape : result.shape = .scalar .set) :
      Becomes offset (.setOperation operation comparison result)
        (.setOperation operation.operator) [operation.left, operation.right, result] false []
        (some comparison.relation)
  | setElements {elements : SetElements} {relation : Relation} {bound : Expression}
      (arithmetic : relation.isArithmetic = true) (shape : bound.shape = .scalar .int) :
      Becomes offset (.setElements elements relation bound) .setElements [elements.set, bound] false
        [] (some relation)

/-- The plan is what the declaration's statement becomes, with the declaration's polarity and
target, both of which the primitive supports. -/
structure Declaration.Planned (declaration : Declaration) (plan : Plan) : Prop where
  becomes : declaration.statement.Becomes (declaration.options.offset.getD 0) plan.primitive
    plan.subjects plan.swapped plan.constants plan.relation
  negated_eq : plan.negated = declaration.negated
  target_eq : plan.target = declaration.options.target
  negation : plan.negated = true → plan.primitive.supportsNegation = true
  reification : plan.target ≠ none → plan.primitive.supportsReification = true
  targets : ∀ target ∈ plan.target, target.IsTarget

namespace Declaration

variable {declaration : Declaration} {plan : Plan}

private theorem planComparison_eq_ok {primitive : Primitive} {sides : List Expression}
    {relation : Relation}
    (planned : declaration.planComparison primitive sides relation = .ok plan) :
    (∀ target ∈ declaration.options.target, target.IsTarget) ∧
      plan = declaration.annotated primitive sides [] (some relation) := by
  simp only [planComparison, except_bind_eq_ok] at planned
  obtain ⟨_, _, _, targets, result⟩ := planned
  cases result
  exact ⟨Options.checkTarget_eq_ok.mp targets, rfl⟩

section Comparison

variable (noOffset : declaration.options.offset = none)
  (targets : ∀ target ∈ declaration.options.target, target.IsTarget)

include noOffset targets

private theorem planComparison_of_plain (primitive : Primitive) (sides : List Expression)
    (relation : Relation) :
    declaration.planComparison primitive sides relation =
      .ok (declaration.annotated primitive sides [] (some relation)) := by
  rw [planComparison, Options.rejectOffset_eq_ok.mpr noOffset,
    Options.checkTarget_eq_ok.mpr targets]
  rfl

/-- A relation that fits the kind of both sides is accepted, if it has no offset and the target can
be one. -/
theorem plan_relate {left right : Expression} {relation : Relation} {kind : Kind}
    (statement : declaration.statement = .relate left relation right)
    (leftShape : left.shape = .scalar kind) (fits : relation.fits kind = true)
    (rightShape : right.shape = .scalar kind) :
    declaration.plan =
      .ok (declaration.annotated .relation [left, right] [] (some relation)) := by
  simp only [Declaration.plan, statement]
  rw [checkRelation_eq_ok.mpr ⟨kind, leftShape, fits, rightShape⟩]
  exact planComparison_of_plain noOffset targets _ _ _

theorem plan_truth {subject : Expression} {expected : Bool}
    (statement : declaration.statement = .truth subject expected)
    (shape : subject.shape = .scalar .bool) :
    declaration.plan =
      .ok (declaration.annotated .relation [subject, .constant (.bool expected)] []
        (some .eq)) := by
  simp only [Declaration.plan, statement]
  rw [Expression.expect_eq_ok.mpr shape]
  exact planComparison_of_plain noOffset targets _ _ _

end Comparison

private theorem planArray_eq_ok {primitive : Primitive} {subject : Expression}
    {constants : List Argument}
    (planned : declaration.planArray primitive subject constants = .ok plan) :
    declaration.checkSupport primitive = .ok () ∧
      (∀ target ∈ declaration.options.target, target.IsTarget) ∧
      plan = declaration.annotated primitive [subject] constants none := by
  simp only [planArray, except_bind_eq_ok] at planned
  obtain ⟨_, supported, _, _, _, targets, result⟩ := planned
  cases result
  exact ⟨supported, Options.checkTarget_eq_ok.mp targets, rfl⟩

private theorem annotated_planned {primitive : Primitive} {subjects : List Expression}
    {constants : List Argument} {relation : Option Relation}
    (becomes : declaration.statement.Becomes (declaration.options.offset.getD 0) primitive subjects
      false constants relation)
    (supported : declaration.checkSupport primitive = .ok ())
    (targets : ∀ target ∈ declaration.options.target, target.IsTarget) :
    declaration.Planned (declaration.annotated primitive subjects constants relation) :=
  have ⟨negation, reification⟩ := checkSupport_eq_ok.mp supported
  ⟨becomes, rfl, rfl, negation, reification, targets⟩

/-- A primitive without a negated and a reified form is only stated plainly. -/
private theorem plain_of_unsupported {primitive : Primitive}
    (supported : declaration.checkSupport primitive = .ok ())
    (unsupported : primitive.supportsNegation = false) :
    declaration.negated = false ∧ declaration.options.target = none := by
  have ⟨negation, reification⟩ := checkSupport_eq_ok.mp supported
  constructor
  · by_contra negated
    exact absurd (negation (by simpa using negated)) (by simp [unsupported])
  · by_contra target
    exact absurd (reification target) (by simp [Primitive.supportsReification, unsupported])

private theorem planChannel_eq_ok {left right : Expression}
    (statement : declaration.statement = .channel left right)
    (planned : declaration.planChannel left right = .ok plan) : declaration.Planned plan := by
  unfold planChannel at planned
  split at planned
  · contradiction
  · rename_i form swapped shapes
    simp only [except_bind_eq_ok] at planned
    obtain ⟨_, leftUnfixed, _, rightUnfixed, _, supported, constants, offset, result⟩ := planned
    have ⟨negated, target⟩ := plain_of_unsupported supported rfl
    have given : constants = form.constants (declaration.options.offset.getD 0) := by
      cases form <;> simp only [channelConstants, except_bind_eq_ok] at offset
      case boolInt =>
        cases offset
        rfl
      all_goals
        obtain ⟨_, _, result⟩ := offset
        cases result
        rfl
    cases result
    refine ⟨?_, negated.symm, target.symm, nofun, fun none => absurd rfl none, nofun⟩
    rw [statement, given]
    exact .channel shapes (Expression.rejectConstantArray_eq_ok.mp leftUnfixed)
      (Expression.rejectConstantArray_eq_ok.mp rightUnfixed)

private theorem planSetOperation_eq_ok {operation : SetOperation} {comparison : SetComparison}
    {result : Expression}
    (statement : declaration.statement = .setOperation operation comparison result)
    (planned : declaration.planSetOperation operation comparison result = .ok plan) :
    declaration.Planned plan := by
  simp only [planSetOperation, except_bind_eq_ok] at planned
  obtain ⟨_, supported, _, _, _, shape, result⟩ := planned
  have ⟨negated, target⟩ := plain_of_unsupported supported rfl
  cases result
  refine ⟨?_, negated.symm, target.symm, nofun, fun none => absurd rfl none, nofun⟩
  rw [statement]
  exact .setOperation (Expression.expect_eq_ok.mp shape)

/-- A declaration that has a plan is what the plan says. -/
theorem plan_eq_ok (planned : declaration.plan = .ok plan) : declaration.Planned plan := by
  unfold Declaration.plan at planned
  split at planned
  case h_1 left relation right statement =>
    rw [except_bind_eq_ok] at planned
    obtain ⟨_, checked, comparison⟩ := planned
    obtain ⟨kind, leftShape, fits, rightShape⟩ := checkRelation_eq_ok.mp checked
    obtain ⟨targets, rfl⟩ := planComparison_eq_ok comparison
    refine annotated_planned ?_ (checkSupport_eq_ok.mpr ⟨fun _ => rfl, fun _ => rfl⟩) targets
    rw [statement]
    exact .relate leftShape fits rightShape
  case h_2 subject expected statement =>
    rw [except_bind_eq_ok] at planned
    obtain ⟨_, shape, comparison⟩ := planned
    obtain ⟨targets, rfl⟩ := planComparison_eq_ok comparison
    refine annotated_planned ?_ (checkSupport_eq_ok.mpr ⟨fun _ => rfl, fun _ => rfl⟩) targets
    rw [statement]
    exact .truth (Expression.expect_eq_ok.mp shape)
  case h_3 subject statement =>
    simp only [except_bind_eq_ok] at planned
    obtain ⟨_, shape, _, unfixed, array⟩ := planned
    obtain ⟨supported, targets, rfl⟩ := planArray_eq_ok array
    refine annotated_planned ?_ supported targets
    rw [statement]
    exact .distinct (Expression.expect_eq_ok.mp shape)
      (Expression.rejectConstantArray_eq_ok.mp unfixed)
  case h_4 subject statement =>
    simp only [except_bind_eq_ok] at planned
    obtain ⟨_, shape, _, unfixed, array⟩ := planned
    obtain ⟨supported, targets, rfl⟩ := planArray_eq_ok array
    refine annotated_planned ?_ supported targets
    rw [statement]
    exact .sorted (Expression.expect_eq_ok.mp shape)
      (Expression.rejectConstantArray_eq_ok.mp unfixed)
  case h_5 subject rows statement =>
    rw [except_bind_eq_ok] at planned
    obtain ⟨_, checked, array⟩ := planned
    obtain ⟨items, rfl, kind, lengths⟩ := checkTable_eq_ok.mp checked
    obtain ⟨supported, targets, rfl⟩ := planArray_eq_ok array
    refine annotated_planned ?_ supported targets
    rw [statement]
    exact .table kind lengths
  case h_6 left right statement => exact planChannel_eq_ok statement planned
  case h_7 operation comparison result statement => exact planSetOperation_eq_ok statement planned
  case h_8 elements relation bound statement =>
    rw [except_bind_eq_ok] at planned
    obtain ⟨_, checked, comparison⟩ := planned
    obtain ⟨arithmetic, shape⟩ := checkElements_eq_ok.mp checked
    obtain ⟨targets, rfl⟩ := planComparison_eq_ok comparison
    refine annotated_planned ?_ (checkSupport_eq_ok.mpr ⟨fun _ => rfl, fun _ => rfl⟩) targets
    rw [statement]
    exact .setElements arithmetic shape

theorem plan_annotations (planned : declaration.plan = .ok plan) :
    plan.strength = declaration.options.resolvedStrength ∧
      plan.priority = declaration.options.priority := by
  unfold Declaration.plan at planned
  split at planned
  case h_1 | h_2 | h_8 =>
    obtain ⟨_, _, comparison⟩ := except_bind_eq_ok.mp planned
    obtain ⟨_, rfl⟩ := planComparison_eq_ok comparison
    exact ⟨rfl, rfl⟩
  case h_3 | h_4 =>
    simp only [except_bind_eq_ok] at planned
    obtain ⟨_, _, _, _, array⟩ := planned
    obtain ⟨_, _, rfl⟩ := planArray_eq_ok array
    exact ⟨rfl, rfl⟩
  case h_5 =>
    obtain ⟨_, _, array⟩ := except_bind_eq_ok.mp planned
    obtain ⟨_, _, rfl⟩ := planArray_eq_ok array
    exact ⟨rfl, rfl⟩
  case h_6 =>
    unfold planChannel at planned
    split at planned
    · contradiction
    · simp only [except_bind_eq_ok] at planned
      obtain ⟨_, _, _, _, _, _, _, _, result⟩ := planned
      cases result
      exact ⟨rfl, rfl⟩
  case h_7 =>
    simp only [planSetOperation, except_bind_eq_ok] at planned
    obtain ⟨_, _, _, _, _, _, result⟩ := planned
    cases result
    exact ⟨rfl, rfl⟩

end Declaration

end ConstraintCompiler
