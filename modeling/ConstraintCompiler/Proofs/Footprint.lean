import ConstraintCompiler.Proofs.Evaluation

/-!
Contract: the composites that an expression needs variables for.

Owns:
- `Expression.needed`, every composite that has a variable once the expression is resolved, whatever
  had one before. A conjunction among the operands of a conjunction needs none, and neither does a
  disjunction among those of a disjunction;
- that each of them occurs in the expression.

Does not own: models. That resolution gives variables to these composites and no others is for the
modules about it.
-/

namespace ConstraintCompiler

mutual

/-- Composites that have a variable once the expression is resolved. -/
def Expression.needed : Expression → List Expression
  | .composite label connective operands kind =>
      .composite label connective operands kind ::
        (if connective.flattens then Expression.neededMerged connective operands
         else Expression.neededEach operands)
  | _ => []

def Expression.neededEach : List Expression → List Expression
  | [] => []
  | expression :: rest => expression.needed ++ Expression.neededEach rest

/-- Composites that have a variable once the operands of a connective that flattens are resolved.
An operand that is joined by the same connective passes on what its own operands need. -/
def Expression.neededMerged (connective : Connective) : List Expression → List Expression
  | [] => []
  | .composite label inner operands kind :: rest =>
      (if inner = connective then Expression.neededMerged connective operands
       else Expression.needed (.composite label inner operands kind)) ++
        Expression.neededMerged connective rest
  | expression :: rest => expression.needed ++ Expression.neededMerged connective rest

end

def Connective.neededOperands (connective : Connective) (operands : List Expression) :
    List Expression :=
  if connective.flattens then Expression.neededMerged connective operands
  else Expression.neededEach operands

namespace Expression

theorem needed_composite (label : Label) (connective : Connective) (operands : List Expression)
    (kind : Kind) :
    needed (.composite label connective operands kind) =
      .composite label connective operands kind :: connective.neededOperands operands := by
  rw [needed, Connective.neededOperands]

theorem mem_neededEach {expressions : List Expression} {part : Expression} :
    part ∈ neededEach expressions ↔ ∃ expression ∈ expressions, part ∈ expression.needed := by
  induction expressions with
  | nil => simp [neededEach]
  | cons expression rest inductionHypothesis =>
      simp only [neededEach, List.mem_append, inductionHypothesis, List.mem_cons,
        exists_eq_or_imp]

theorem neededMerged_cons_inline (connective : Connective) (label : Label)
    (operands rest : List Expression) (kind : Kind) :
    neededMerged connective (.composite label connective operands kind :: rest) =
      neededMerged connective operands ++ neededMerged connective rest := by
  rw [neededMerged, if_pos rfl]

theorem neededMerged_cons_keep {connective : Connective} {expression : Expression}
    (different : ∀ label operands kind, expression ≠ .composite label connective operands kind)
    (rest : List Expression) :
    neededMerged connective (expression :: rest) =
      expression.needed ++ neededMerged connective rest := by
  cases expression with
  | composite label inner operands kind =>
      have separate : inner ≠ connective := fun same => different label operands kind (by rw [same])
      rw [neededMerged, if_neg separate]
  | _ =>
      rw [neededMerged]
      nofun

private theorem needed_occurs_spec :
    (∀ whole : Expression, ∀ part ∈ whole.needed, part.Within whole) ∧
    (∀ expressions : List Expression, ∀ part ∈ neededEach expressions,
      OccursIn expressions part) ∧
    (∀ (connective : Connective) (expressions : List Expression),
      ∀ part ∈ neededMerged connective expressions, OccursIn expressions part) := by
  apply needed.mutual_induct
  case case1 =>
    intro label connective operands kind merged each part member
    rw [needed_composite, Connective.neededOperands] at member
    rcases List.mem_cons.mp member with rfl | inner
    · exact .self _
    · have occurs : OccursIn operands part := by
        split at inner
        · exact merged part inner
        · exact each part inner
      exact occurs.composite label connective kind
  case case2 =>
    intro whole simple part member
    cases whole with
    | composite => exact (simple _ _ _ _ rfl).elim
    | _ => simp [needed] at member
  case case3 => simp [neededEach]
  case case4 =>
    intro expression rest head tail part member
    rcases List.mem_append.mp member with first | other
    · exact .head (head part first)
    · exact (tail part other).tail
  case case5 => simp [neededMerged]
  case case6 =>
    intro connective label inner operands kind rest nested head tail part member
    rw [neededMerged] at member
    rcases List.mem_append.mp member with first | other
    · split at first
      · exact .head ((nested part first).composite label inner kind)
      · exact .head (head part first)
    · exact (tail part other).tail
  case case7 =>
    intro connective expression rest simple head tail part member
    rw [neededMerged_cons_keep fun label operands kind same => simple _ _ _ _ same] at member
    rcases List.mem_append.mp member with first | other
    · exact .head (head part first)
    · exact (tail part other).tail

/-- Everything needed for an expression occurs in it. -/
theorem within_of_needed {whole part : Expression} (member : part ∈ whole.needed) :
    part.Within whole :=
  needed_occurs_spec.1 whole part member

theorem occurs_of_neededEach {expressions : List Expression} {part : Expression}
    (member : part ∈ neededEach expressions) : OccursIn expressions part :=
  needed_occurs_spec.2.1 expressions part member

theorem occurs_of_neededMerged {connective : Connective} {expressions : List Expression}
    {part : Expression} (member : part ∈ neededMerged connective expressions) :
    OccursIn expressions part :=
  needed_occurs_spec.2.2 connective expressions part member

theorem occurs_of_neededOperands {connective : Connective} {operands : List Expression}
    {part : Expression} (member : part ∈ connective.neededOperands operands) :
    OccursIn operands part := by
  unfold Connective.neededOperands at member
  split at member
  · exact occurs_of_neededMerged member
  · exact occurs_of_neededEach member

end Expression

end ConstraintCompiler
