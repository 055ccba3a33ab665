import ConstraintCompiler.Proofs.Fusion
import ConstraintCompiler.Proofs.Trees

/-!
Contract: how many variables a declaration adds.

Owns:
- `Declaration.TiesSides`, that a declaration is an equality and no more, and one side a composite;
- `Model.declare_counts`: an accepted declaration about trees of composites adds one variable for
  each of these that merges into no other, or one less where it ties two sides;
- `Model.declare_adds`: the counts of declarations about one tree, or two.

Does not own: expressions that share composites.
-/

namespace ConstraintCompiler

open Expression (labelsEach unmergedEach)

namespace Plan

variable {plan : Plan} {model : Model}

theorem expressions_of_equality {left right : Expression}
    (equality : plan.equality? = some (left, right)) : plan.expressions = [left, right] := by
  obtain ⟨_, _, target, subjects⟩ := equality?_eq_some equality
  simp [expressions, target, subjects]

/-- Where a composite is tied straight to the other side of an equality, one variable is saved. -/
theorem perform_adds_of_fusion {left right other : Expression} {composite : Composite}
    (equality : plan.equality? = some (left, right))
    (fusion : fusion? model left right = some (composite, other))
    (awaits : model.Awaits (left.labels ++ right.labels)) :
    (plan.perform model).2.auxiliaries + 1 =
      model.auxiliaries + (left.unmerged none + right.unmerged none) := by
  obtain ⟨journal, performed⟩ := perform_of_fusion equality fusion
  obtain ⟨apart, total⟩ : model.Awaits (other.labels ++ composite.expression.labels) ∧
      left.unmerged none + right.unmerged none =
        other.unmerged none + composite.expression.unmerged none := by
    rcases fusion?_faces fusion with ⟨rfl, rfl⟩ | ⟨rfl, rfl⟩
    · exact ⟨awaits.perm List.perm_append_comm, Nat.add_comm _ _⟩
    · exact ⟨awaits, rfl⟩
  have otherAdds := Expression.resolve_adds apart.left
  have composites := apart.right (other.resolve_introduces model)
  rw [composite.labels_expression] at composites
  have operandsAdd := composite.resolveOperands_adds composites.tail
  have added : (plan.perform model).2.auxiliaries =
      (composite.resolveOperands (other.resolve model).2).2.auxiliaries := by rw [performed]
  rw [added, operandsAdd, otherAdds, total, composite.unmerged_expression]
  omega

/-- Otherwise everything in the plan adds its own variables. -/
theorem perform_adds_of_no_fusion
    (separate : ∀ left right, plan.equality? = some (left, right) →
      fusion? model left right = none)
    (awaits : model.Awaits (labelsEach plan.expressions)) :
    (plan.perform model).2.auxiliaries =
      model.auxiliaries + unmergedEach none plan.expressions := by
  rw [perform_of_no_fusion separate, expressions, Expression.unmergedEach_append]
  rw [expressions, Expression.labelsEach_append] at awaits
  cases found : plan.target with
  | none =>
      obtain ⟨journal, stated⟩ := state_of_no_target found model
      rw [stated]
      exact Expression.resolveEach_adds awaits.left
  | some target =>
      obtain ⟨journal, stated⟩ := state_of_target found model
      rw [found, Option.toList_some, labelsEach, labelsEach, List.append_nil] at awaits
      have targetFirst := awaits.perm List.perm_append_comm
      have targetAdds := Expression.resolve_adds targetFirst.left
      have subjectsAdd := Expression.resolveEach_adds
        (targetFirst.right (target.resolve_introduces model))
      have added : (plan.state model).2.auxiliaries =
          (Expression.resolveEach plan.subjects (target.resolve model).2).2.auxiliaries := by
        rw [stated]
      rw [added, subjectsAdd, targetAdds, Option.toList_some, unmergedEach, unmergedEach]
      omega

end Plan

namespace Statement

def equalSides? : Statement → Option (Expression × Expression)
  | .relate left .eq right => some (left, right)
  | .truth subject expected => some (subject, .constant (.bool expected))
  | _ => none

theorem Becomes.trees_eq {offset : Int} {statement : Statement} {primitive : Primitive}
    {subjects : List Expression} {swapped : Bool} {constants : List Argument}
    {relation : Option Relation}
    (becomes : statement.Becomes offset primitive subjects swapped constants relation) :
    labelsEach subjects = labelsEach statement.expressions ∧
      unmergedEach none subjects = unmergedEach none statement.expressions := by
  cases becomes with
  | truth => simp [expressions, labelsEach, Expression.labels, unmergedEach, Expression.unmerged]
  | _ => exact ⟨rfl, rfl⟩

end Statement

namespace Declaration

def composites (declaration : Declaration) : List Expression :=
  declaration.expressions.filter fun expression => expression.label?.isSome

/-- The declaration says without a target that two sides are equal, and one of them is a
composite. -/
def TiesSides (declaration : Declaration) : Prop :=
  declaration.options.target = none ∧
    ∃ left right, declaration.statement.equalSides? = some (left, right) ∧
      (left.label? ≠ none ∨ right.label? ≠ none)

theorem Planned.trees_eq {declaration : Declaration} {plan : Plan}
    (planned : declaration.Planned plan) :
    labelsEach declaration.expressions = labelsEach plan.expressions ∧
      unmergedEach none declaration.expressions = unmergedEach none plan.expressions := by
  obtain ⟨labels, counts⟩ := planned.becomes.trees_eq
  rw [expressions, Plan.expressions, planned.target_eq]
  simp only [Expression.labelsEach_append, Expression.unmergedEach_append, labels, counts,
    and_self]

/-- A plan is an equality exactly if its declaration says that two sides are equal, and no more. -/
theorem Planned.equality?_iff {declaration : Declaration} {plan : Plan}
    (planned : declaration.Planned plan) {left right : Expression} :
    plan.equality? = some (left, right) ↔
      declaration.options.target = none ∧
        declaration.statement.equalSides? = some (left, right) := by
  have becomes := planned.becomes
  rw [← planned.target_eq]
  obtain ⟨primitive, subjects, swapped, constants, relation, _, _, target, _⟩ := plan
  generalize declaration.statement = statement at becomes ⊢
  dsimp only at becomes ⊢
  cases becomes with
  | @relate _ _ relation =>
      cases relation <;> cases target <;> simp [Plan.equality?, Statement.equalSides?]
  | _ => cases target <;> simp [Plan.equality?, Statement.equalSides?]

end Declaration

/-- Where all composites are different and none has a variable, an equality with a composite on some
side is fused. -/
theorem fusion?_ne_none {model : Model} {left right : Expression}
    (awaits : model.Awaits (left.labels ++ right.labels))
    (composites : left.label? ≠ none ∨ right.label? ≠ none) : fusion? model left right ≠ none := by
  by_cases simple : left.label? = none
  · obtain ⟨composite, rfl⟩ :=
      Expression.exists_composite (composites.resolve_left (not_not_intro simple))
    have fused := fusion?_right composite (awaits.undefined _ (by simp))
      (Expression.isSettledIn_of_label?_eq_none simple model)
    exact ne_of_eq_of_ne fused nofun
  · obtain ⟨composite, rfl⟩ := Expression.exists_composite simple
    have apart : right.label? ≠ some composite.label := by
      intro same
      have member := Expression.mem_labels_of_label? same
      simpa [member] using awaits.nodup
    have fused := fusion?_left composite (awaits.undefined _ (by simp)) apart
    exact ne_of_eq_of_ne fused nofun

namespace Model

/-- An accepted declaration about trees, no composite of which has a variable, adds one variable for
each unmerged composite. One is saved if the declaration says without a target that two sides are
equal, one of which is a composite. -/
theorem declare_counts {declaration : Declaration} {before after : Model}
    (accepted : declare declaration before = (.ok (), after))
    (awaits : before.Awaits (labelsEach declaration.expressions)) :
    (declaration.TiesSides →
        after.auxiliaries + 1 =
          before.auxiliaries + unmergedEach none declaration.expressions) ∧
      (¬declaration.TiesSides →
        after.auxiliaries =
          before.auxiliaries + unmergedEach none declaration.expressions) := by
  cases planned : declaration.plan with
  | error error =>
      rw [declare_of_error planned] at accepted
      cases accepted
  | ok plan =>
      rw [declare_of_plan planned] at accepted
      cases accepted
      have checked := Declaration.plan_eq_ok planned
      obtain ⟨labels, counts⟩ := checked.trees_eq
      rw [labels] at awaits
      rw [counts]
      have sides {left right : Expression} (equality : plan.equality? = some (left, right)) :
          before.Awaits (left.labels ++ right.labels) ∧
            unmergedEach none plan.expressions = left.unmerged none + right.unmerged none := by
        rw [Plan.expressions_of_equality equality] at awaits ⊢
        simpa [labelsEach, unmergedEach] using awaits
      rcases plan.fuses_or_not before with
        ⟨left, right, composite, other, equality, fusion⟩ | separate
      · have tied : declaration.TiesSides := by
          obtain ⟨untargeted, found⟩ := checked.equality?_iff.mp equality
          refine ⟨untargeted, left, right, found, ?_⟩
          rcases fusion?_faces fusion with ⟨rfl, _⟩ | ⟨rfl, _⟩
          · exact .inl (Option.some_ne_none composite.label)
          · exact .inr (Option.some_ne_none composite.label)
        refine ⟨fun _ => ?_, fun untied => absurd tied untied⟩
        rw [(sides equality).2]
        exact Plan.perform_adds_of_fusion equality fusion (sides equality).1
      · -- Sides that could be tied would have been fused, as no composite has a variable.
        refine ⟨fun tied => ?_, fun _ => Plan.perform_adds_of_no_fusion separate awaits⟩
        obtain ⟨untargeted, left, right, found, composites⟩ := tied
        have equality := checked.equality?_iff.mpr ⟨untargeted, found⟩
        exact absurd (separate left right equality)
          (fusion?_ne_none (sides equality).1 composites)

theorem declare_counts_one {declaration : Declaration} {tree : Expression} {before after : Model}
    (accepted : declare declaration before = (.ok (), after))
    (only : declaration.composites = [tree]) (awaits : before.Awaits tree.labels) :
    (declaration.TiesSides →
        after.auxiliaries + 1 = before.auxiliaries + tree.unmerged none) ∧
      (¬declaration.TiesSides → after.auxiliaries = before.auxiliaries + tree.unmerged none) := by
  obtain ⟨labels, counts⟩ := Expression.trees_filter none declaration.expressions
  rw [Declaration.composites] at only
  rw [only, labelsEach, labelsEach, List.append_nil] at labels
  rw [only, unmergedEach, unmergedEach, Nat.add_zero] at counts
  rw [counts]
  rw [labels] at awaits
  exact declare_counts accepted awaits

/-- The declaration is accepted, and adds the given number of variables. -/
def Adds (model : Model) (declaration : Declaration) (count : Nat) : Prop :=
  ∃ after, declare declaration model = (.ok (), after) ∧
    after.auxiliaries = model.auxiliaries + count

end Model

theorem Options.bindable {options : Options}
    (flags : ∀ target ∈ options.target, ∃ v : Variable, target = .variable v ∧ v.kind = .bool) :
    ∀ target ∈ options.target, target.IsTarget ∧ target.label? = none := by
  intro target member
  obtain ⟨v, rfl, isTruth⟩ := flags target member
  exact ⟨⟨congrArg Shape.scalar isTruth, nofun⟩, rfl⟩

namespace Statement.Relates

variable {tree value : Expression} {relation : Relation} {statement : Statement}
  {options : Options} (negated : Bool)

theorem tiesSides_iff (relates : statement.Relates tree relation value)
    (labelled : tree.label? ≠ none) :
    Declaration.TiesSides { statement, negated, options } ↔
      relation = .eq ∧ options.target = none := by
  constructor
  · rintro ⟨untargeted, left, right, sides, _⟩
    refine ⟨?_, untargeted⟩
    cases relates with
    | truth => rfl
    | _ => cases relation <;> first | rfl | cases sides
  · rintro ⟨rfl, untargeted⟩
    cases relates with
    | left | truth => exact ⟨untargeted, _, _, rfl, .inl labelled⟩
    | right => exact ⟨untargeted, _, _, rfl, .inr labelled⟩

variable (labelled : tree.label? ≠ none) (simple : value.label? = none)

include labelled simple

theorem composites_eq (relates : statement.Relates tree relation value)
    (targets : ∀ target ∈ options.target, target.label? = none) :
    Declaration.composites { statement, negated, options } = [tree] := by
  have kept : tree.label?.isSome = true := Option.isSome_iff_ne_none.mpr labelled
  have noTarget : options.target.toList.filter (fun target => target.label?.isSome) = [] := by
    refine List.filter_eq_nil_iff.mpr fun target member => ?_
    simp [targets target (by simpa using member)]
  rw [Declaration.composites, Declaration.expressions, List.filter_append, noTarget]
  cases relates <;> simp [expressions, kept, simple]

variable {model : Model} (awaits : model.Awaits tree.labels)

include awaits

theorem adds_of_equality (relates : statement.Relates tree .eq value)
    (shape : value.shape = tree.shape) (plain : options.ArePlain) :
    model.Adds { statement, negated, options } (tree.unmerged none - 1) := by
  obtain ⟨composite, rfl⟩ := Expression.exists_composite labelled
  have fits : Relation.eq.fits composite.kind = true := by
    cases composite.kind <;> rfl
  obtain ⟨after, accepted⟩ := relates.accepted rfl shape fits plain.offset
    (by simp [plain.target]) negated model
  have untargeted : ∀ target ∈ options.target, target.label? = none := by simp [plain.target]
  have only := relates.composites_eq negated labelled simple untargeted
  have counts := (Model.declare_counts_one accepted only awaits).1
    ((relates.tiesSides_iff negated labelled).mpr ⟨rfl, plain.target⟩)
  rw [composite.unmerged_expression] at counts ⊢
  exact ⟨after, accepted, by omega⟩

theorem adds_of_relation (relates : statement.Relates tree relation value) {kind : Kind}
    (treeShape : tree.shape = .scalar kind) (valueShape : value.shape = .scalar kind)
    (fits : relation.fits kind = true) (noOffset : options.offset = none)
    (flags : ∀ target ∈ options.target, ∃ v : Variable, target = .variable v ∧ v.kind = .bool)
    (untied : relation = .eq → options.target ≠ none) :
    model.Adds { statement, negated, options } (tree.unmerged none) := by
  have targets := Options.bindable flags
  obtain ⟨after, accepted⟩ := relates.accepted treeShape valueShape fits noOffset
    (fun target member => (targets target member).1) negated model
  have only := relates.composites_eq negated labelled simple
    fun target member => (targets target member).2
  refine ⟨after, accepted, (Model.declare_counts_one accepted only awaits).2 fun ties => ?_⟩
  obtain ⟨equality, untargeted⟩ := (relates.tiesSides_iff negated labelled).mp ties
  exact untied equality untargeted

end Statement.Relates

namespace Model

theorem adds_of_trees {model : Model} {tree other : Expression} (labelled : tree.label? ≠ none)
    (awaits : model.Awaits (tree.labels ++ other.labels)) (shape : other.shape = tree.shape)
    (negated : Bool) {options : Options} (plain : options.ArePlain) :
    model.Adds { statement := .relate tree .eq other, negated, options }
      (tree.unmerged none + other.unmerged none - 1) := by
  obtain ⟨composite, rfl⟩ := Expression.exists_composite labelled
  have relates : Statement.Relates composite.expression .eq other
      (.relate composite.expression .eq other) := .left
  have fits : Relation.eq.fits composite.kind = true := by
    cases composite.kind <;> rfl
  obtain ⟨after, accepted⟩ := relates.accepted rfl shape fits plain.offset
    (by simp [plain.target]) negated model
  have both : Declaration.expressions
      { statement := .relate composite.expression .eq other, negated, options } =
        [composite.expression, other] := by
    simp [Declaration.expressions, Statement.expressions, plain.target]
  have bothAwait : model.Awaits (labelsEach (Declaration.expressions
      { statement := .relate composite.expression .eq other, negated, options })) := by
    rw [both, labelsEach, labelsEach, labelsEach, List.append_nil]
    exact awaits
  have counts := (declare_counts accepted bothAwait).1
    ((relates.tiesSides_iff negated labelled).mpr ⟨rfl, plain.target⟩)
  rw [both, unmergedEach, unmergedEach, unmergedEach, composite.unmerged_expression] at counts
  rw [composite.unmerged_expression]
  exact ⟨after, accepted, by omega⟩

/-- A tree of composites, none of which has a variable, is compiled with one variable for each of
its composites that merges into no other. A plain equality with a variable or a constant saves one
of them. A plain equality between two trees that share nothing saves one of both. Every other
relation with a variable or a constant, everything bound to a variable, and whatever else is
accepted about the tree and no other composite, saves none. -/
theorem declare_adds {model : Model} {tree : Expression} (labelled : tree.label? ≠ none)
    (awaits : model.Awaits tree.labels) :
    (∀ value statement negated options, value.label? = none → value.shape = tree.shape →
        Statement.Relates tree .eq value statement → options.ArePlain →
        model.Adds { statement, negated, options } (tree.unmerged none - 1)) ∧
      (∀ relation kind value statement negated options, value.label? = none →
        tree.shape = .scalar kind → value.shape = .scalar kind → relation.fits kind = true →
        Statement.Relates tree relation value statement → options.offset = none →
        (∀ target ∈ options.target, ∃ v : Variable, target = .variable v ∧ v.kind = .bool) →
        (relation = .eq → options.target ≠ none) →
        model.Adds { statement, negated, options } (tree.unmerged none)) ∧
      (∀ other negated options, other.shape = tree.shape →
        model.Awaits (tree.labels ++ other.labels) → options.ArePlain →
        model.Adds { statement := .relate tree .eq other, negated, options }
          (tree.unmerged none + other.unmerged none - 1)) ∧
      (∀ declaration after, declare declaration model = (.ok (), after) →
        declaration.composites = [tree] → ¬declaration.TiesSides →
        after.auxiliaries = model.auxiliaries + tree.unmerged none) := by
  refine ⟨?equality, ?relation, ?trees, ?only⟩
  case equality =>
    intro value statement negated options simple shape relates plain
    exact relates.adds_of_equality negated labelled simple awaits shape plain
  case relation =>
    intro relation kind value statement negated options simple treeShape valueShape fits relates
      noOffset flags untied
    exact relates.adds_of_relation negated labelled simple awaits treeShape valueShape fits noOffset
      flags untied
  case trees =>
    intro other negated options shape apart plain
    exact adds_of_trees labelled apart shape negated plain
  case only =>
    intro declaration after accepted only untied
    exact (declare_counts_one accepted only awaits).2 untied

def flagsAndNumber : Model where
  problem := { domains := [.bool, .bool, .int 0 3] }

/-- A conjunction in a conjunction, a disjunction in the inner one, and a sum as a position. -/
def nestedTree : Expression :=
  let flags : VariableArray := ⟨.bool, [⟨0, .bool⟩, ⟨1, .bool⟩], by decide⟩
  let numbers : VariableArray := ⟨.int, [⟨2, .int⟩], by decide⟩
  let either : Expression :=
    .composite 0 (.logic .or) [.variable ⟨0, .bool⟩, .variable ⟨1, .bool⟩] .bool
  let item : Expression :=
    .composite 3 .element
      [.array flags, .composite 2 (.aggregate .sum) [.array numbers] .int] .bool
  .composite 4 (.logic .and)
    [.composite 1 (.logic .and) [.variable ⟨0, .bool⟩, either] .bool, item] .bool

theorem nestedTree_adds :
    flagsAndNumber.Adds { statement := .relate nestedTree .eq (.variable ⟨1, .bool⟩) } 3 ∧
      flagsAndNumber.Adds { statement := .relate (.variable ⟨1, .bool⟩) .ne nestedTree } 4 ∧
      flagsAndNumber.Adds
        { statement := .truth nestedTree false
          options := { target := some (.variable ⟨0, .bool⟩) } } 4 := by
  have labels : nestedTree.labels = [4, 1, 0, 3, 2] := rfl
  have awaits : flagsAndNumber.Awaits nestedTree.labels := by
    rw [labels]
    exact ⟨by decide, fun _ _ => rfl⟩
  have four : nestedTree.unmerged none = 4 := rfl
  obtain ⟨equality, others, _, _⟩ := declare_adds (nofun : nestedTree.label? ≠ none) awaits
  rw [four] at equality others
  refine ⟨equality (.variable ⟨1, .bool⟩) _ _ _ rfl rfl .left ⟨rfl, rfl⟩, ?_, ?_⟩
  · exact others .ne .bool _ _ _ _ rfl rfl rfl rfl .right rfl nofun nofun
  · refine others .eq .bool _ _ _ _ rfl rfl rfl rfl .truth rfl ?_ nofun
    rintro _ ⟨⟩
    exact ⟨_, rfl, rfl⟩

end Model

end ConstraintCompiler
