import ConstraintCompiler.Proofs.Emission

/-!
Contract: how many variables are added for trees of composites.

Owns:
- `Expression.unmerged`, the number of composites that do not merge into the composite around them;
- `Model.Awaits`, that composites are all different and have no variables yet;
- `Expression.resolve_adds` and `Composite.resolveOperands_adds`, that resolving such trees adds one
  variable for each unmerged composite.

Does not own: expressions that share composites, which add fewer.
-/

namespace ConstraintCompiler

mutual

/-- Number of composites in an expression that stands below the given connective. A conjunction
directly below a conjunction merges into it and does not count, and neither does a disjunction
below a disjunction. -/
def Expression.unmerged (outer : Option Connective) : Expression → Nat
  | .composite _ connective operands _ =>
      (if connective.flattens ∧ outer = some connective then 0 else 1) +
        Expression.unmergedEach (some connective) operands
  | _ => 0

def Expression.unmergedEach (outer : Option Connective) : List Expression → Nat
  | [] => 0
  | expression :: rest => expression.unmerged outer + Expression.unmergedEach outer rest

end

namespace Expression

/-- Only below its own connective does a composite merge. -/
theorem unmerged_eq {outer : Option Connective} {expression : Expression}
    (separate : ∀ label connective operands kind,
      expression = .composite label connective operands kind →
        connective.flattens = true → outer ≠ some connective) :
    expression.unmerged outer = expression.unmerged none := by
  cases expression with
  | composite label connective operands kind =>
      have different : ¬(connective.flattens = true ∧ outer = some connective) :=
        fun merges => separate label connective operands kind rfl merges.1 merges.2
      simp [unmerged, different]
  | _ => simp [unmerged]

/-- Nothing merges into a composite whose connective does not flatten. -/
theorem unmergedEach_eq {connective : Connective} (separate : connective.flattens = false)
    (expressions : List Expression) :
    unmergedEach (some connective) expressions = unmergedEach none expressions := by
  induction expressions with
  | nil => simp [unmergedEach]
  | cons expression rest inductionHypothesis =>
      rw [unmergedEach, unmergedEach, inductionHypothesis, unmerged_eq]
      rintro _ inner _ _ - flattens same
      cases same
      simp [separate] at flattens

theorem unmergedEach_append (outer : Option Connective) (first second : List Expression) :
    unmergedEach outer (first ++ second) =
      unmergedEach outer first + unmergedEach outer second := by
  induction first with
  | nil => simp [unmergedEach]
  | cons expression rest inductionHypothesis =>
      rw [List.cons_append, unmergedEach, unmergedEach, inductionHypothesis, Nat.add_assoc]

theorem labelsEach_append (first second : List Expression) :
    labelsEach (first ++ second) = labelsEach first ++ labelsEach second := by
  induction first with
  | nil => simp [labelsEach]
  | cons expression rest inductionHypothesis =>
      rw [List.cons_append, labelsEach, labelsEach, inductionHypothesis, List.append_assoc]

theorem trees_filter (outer : Option Connective) (expressions : List Expression) :
    labelsEach (expressions.filter fun expression => expression.label?.isSome) =
        labelsEach expressions ∧
      unmergedEach outer (expressions.filter fun expression => expression.label?.isSome) =
        unmergedEach outer expressions := by
  induction expressions with
  | nil => exact ⟨rfl, rfl⟩
  | cons expression rest inductionHypothesis =>
      obtain ⟨labelsSame, unmergedSame⟩ := inductionHypothesis
      cases expression with
      | composite =>
          rw [List.filter_cons_of_pos rfl, labelsEach, labelsSame, unmergedEach, unmergedSame,
            labelsEach, unmergedEach]
          exact ⟨rfl, rfl⟩
      | _ =>
          rw [List.filter_cons_of_neg (by simp [label?]), labelsSame, unmergedSame]
          simp [labelsEach, labels, unmergedEach, unmerged]

theorem mem_labels_of_label? {expression : Expression} {label : Label}
    (labelled : expression.label? = some label) : label ∈ expression.labels := by
  cases expression with
  | composite =>
      cases labelled
      exact List.mem_cons_self ..
  | _ => cases labelled

end Expression

@[simp]
theorem Composite.labels_expression (composite : Composite) :
    composite.expression.labels =
      composite.label :: Expression.labelsEach composite.operands := by
  rw [expression, Expression.labels]

/-- A composite that merges into nothing counts beside its operands. -/
theorem Composite.unmerged_expression (composite : Composite) :
    composite.expression.unmerged none =
      Expression.unmergedEach (some composite.connective) composite.operands + 1 := by
  rw [expression, Expression.unmerged, if_neg nofun, Nat.add_comm]

structure Model.Awaits (model : Model) (labels : List Label) : Prop where
  nodup : labels.Nodup
  undefined : ∀ label ∈ labels, model.definition? label = none

namespace Model.Awaits

variable {model : Model} {first second : List Label}

theorem left (awaits : model.Awaits (first ++ second)) : model.Awaits first :=
  ⟨(List.nodup_append.mp awaits.nodup).1, fun label member =>
    awaits.undefined label (List.mem_append_left _ member)⟩

theorem right (awaits : model.Awaits (first ++ second)) {later : Model}
    (introduces : model.Introduces later first) : later.Awaits second := by
  obtain ⟨_, nodup, apart⟩ := List.nodup_append.mp awaits.nodup
  refine ⟨nodup, fun label member => ?_⟩
  rw [introduces.definition?_of_not_mem fun inFirst => apart label inFirst label member rfl]
  exact awaits.undefined label (List.mem_append_right _ member)

theorem perm (awaits : model.Awaits first) (permuted : first.Perm second) :
    model.Awaits second :=
  ⟨permuted.nodup_iff.mp awaits.nodup, fun label member =>
    awaits.undefined label (permuted.mem_iff.mpr member)⟩

theorem tail {label : Label} (awaits : model.Awaits (label :: first)) : model.Awaits first :=
  ⟨(List.nodup_cons.mp awaits.nodup).2, fun other member =>
    awaits.undefined other (List.mem_cons_of_mem _ member)⟩

end Model.Awaits

namespace Expression

open Model (Awaits)

private theorem resolveOperands_adds_of (composite : Composite) {model : Model}
    (merged : composite.connective.flattens = true →
      (resolveMerged composite.connective composite.operands model).2.auxiliaries =
        model.auxiliaries + unmergedEach (some composite.connective) composite.operands)
    (each : (resolveEach composite.operands model).2.auxiliaries =
      model.auxiliaries + unmergedEach none composite.operands) :
    (composite.resolveOperands model).2.auxiliaries =
      model.auxiliaries + unmergedEach (some composite.connective) composite.operands := by
  by_cases flattens : composite.connective.flattens = true
  · rw [Composite.resolveOperands, if_pos flattens]
    exact merged flattens
  · rw [Composite.resolveOperands, if_neg flattens, unmergedEach_eq (by simpa using flattens)]
    exact each

private theorem additions :
    (∀ (expression : Expression) (model : Model), model.Awaits expression.labels →
      (expression.resolve model).2.auxiliaries =
        model.auxiliaries + expression.unmerged none) ∧
    (∀ (expressions : List Expression) (model : Model), model.Awaits (labelsEach expressions) →
      (resolveEach expressions model).2.auxiliaries =
        model.auxiliaries + unmergedEach none expressions) ∧
    (∀ (connective : Connective) (expressions : List Expression) (model : Model),
      connective.flattens = true → model.Awaits (labelsEach expressions) →
      (resolveMerged connective expressions model).2.auxiliaries =
        model.auxiliaries + unmergedEach (some connective) expressions) := by
  -- Along the recursion of resolution. What is resolved first gives variables to its own composites
  -- only, so that the rest still awaits its own.
  apply resolve.mutual_induct
  case case1 | case2 | case3 =>
    intro _ model _
    rw [resolve, unmerged]
    · rfl
    · rintro _ _ _ _ ⟨⟩
  case case4 =>
    intro label connective operands kind merged each model awaits
    rw [labels] at awaits
    rw [resolve_composite_of_undefined (awaits.undefined label (List.mem_cons_self ..))]
    have operandsAdd : (Composite.resolveOperands ⟨label, connective, operands, kind⟩
        model).2.auxiliaries = model.auxiliaries + unmergedEach (some connective) operands :=
      resolveOperands_adds_of ⟨label, connective, operands, kind⟩
        (fun flattens => merged model flattens awaits.tail) (each model awaits.tail)
    change (Composite.resolveOperands _ model).2.auxiliaries + 1 = _
    rw [operandsAdd, unmerged, if_neg (by simp)]
    omega
  case case5 =>
    intro model _
    rw [resolveEach, unmergedEach]
    rfl
  case case6 =>
    intro expression rest head tail model awaits
    rw [labelsEach] at awaits
    rw [resolveEach_cons, unmergedEach, ← Nat.add_assoc, ← head model awaits.left]
    exact tail _ (awaits.right (expression.resolve_introduces model))
  case case7 =>
    intro connective model _ _
    rw [resolveMerged, unmergedEach]
    rfl
  case case8 =>
    intro connective label inner operands kind rest nested head tail model flattens awaits
    rw [labelsEach] at awaits
    have undefined := awaits.undefined label (by simp [labels])
    by_cases same : inner = connective
    · -- The operand does not count itself, and its operands count below the same connective.
      subst same
      have nestedAwaits : model.Awaits (labelsEach operands ++ labelsEach rest) := by
        rw [labels, List.cons_append] at awaits
        exact awaits.tail
      rw [resolveMerged_cons_inline undefined, unmergedEach, unmerged, if_pos ⟨flattens, rfl⟩,
        Nat.zero_add, ← Nat.add_assoc, ← nested model flattens nestedAwaits.left]
      exact tail _ flattens (nestedAwaits.right (resolveMerged_introduces _ operands model))
    · rw [resolveMerged_cons_keep (by
        rintro _ _ _ composite
        cases composite
        exact (same rfl).elim),
        unmergedEach, unmerged_eq (by
          rintro _ _ _ _ composite - merges
          cases composite
          exact same (Option.some.inj merges).symm), ← Nat.add_assoc, ← head model awaits.left]
      exact tail _ flattens (awaits.right (resolve_introduces _ model))
  case case9 =>
    intro connective expression rest simple head tail model flattens awaits
    rw [labelsEach] at awaits
    rw [resolveMerged_cons_keep fun label operands kind same => (simple _ _ _ _ same).elim,
      unmergedEach, unmerged_eq fun label inner operands kind same => (simple _ _ _ _ same).elim,
      ← Nat.add_assoc, ← head model awaits.left]
    exact tail _ flattens (awaits.right (expression.resolve_introduces model))

/-- Resolving a tree, no composite of which has a variable, adds one variable for each composite
that does not merge into the one around it. -/
theorem resolve_adds {expression : Expression} {model : Model}
    (awaits : model.Awaits expression.labels) :
    (expression.resolve model).2.auxiliaries = model.auxiliaries + expression.unmerged none :=
  additions.1 expression model awaits

theorem resolveEach_adds {expressions : List Expression} {model : Model}
    (awaits : model.Awaits (labelsEach expressions)) :
    (resolveEach expressions model).2.auxiliaries =
      model.auxiliaries + unmergedEach none expressions :=
  additions.2.1 expressions model awaits

end Expression

open Expression (labelsEach unmergedEach)

theorem Composite.resolveOperands_adds (composite : Composite) {model : Model}
    (awaits : model.Awaits (labelsEach composite.operands)) :
    (composite.resolveOperands model).2.auxiliaries =
      model.auxiliaries + unmergedEach (some composite.connective) composite.operands :=
  Expression.resolveOperands_adds_of composite
    (fun flattens => Expression.additions.2.2 _ _ model flattens awaits)
    (Expression.resolveEach_adds awaits)

end ConstraintCompiler
