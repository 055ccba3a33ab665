import ConstraintCompiler.Proofs.Kinds

/-!
Contract: arguments that stand for expressions.

Owns:
- `Model.Represents`, which argument a model uses for an expression, and `Model.Merges`, which
  arguments it uses for the operands of a connective that flattens;
- `Session.IsFaithful`, that the variables of composites have the composites' values;
- that under such an assignment an argument has what its expression has, and that the posting of a
  connective is true exactly when the result has the value of the composite.

Does not own: how a model comes to use an argument.
-/

namespace ConstraintCompiler

namespace Model

/-- The model uses the argument for the expression. A composite is represented by a variable that
it was given. -/
inductive Represents (model : Model) : Expression → Argument → Prop where
  | «variable» (v : Variable) : Represents model (.variable v) (.var v)
  | array (items : VariableArray) : Represents model (.array items) (.vars items.elements)
  | constant (literal : Constant) : Represents model (.constant literal) literal.argument
  | composite {label : Label} {connective : Connective} {operands : List Expression} {kind : Kind}
      {v : Variable} (defined : (label, v) ∈ model.definitions) :
      Represents model (.composite label connective operands kind) (.var v)

/-- The model uses the arguments for the operands of the connective, with the operands of nested
occurrences in the place of these. -/
inductive Merges (model : Model) (connective : Connective) :
    List Expression → List Argument → Prop where
  | nil : Merges model connective [] []
  | keep {operand : Expression} {argument : Argument} {rest : List Expression}
      {others : List Argument} (head : model.Represents operand argument)
      (tail : Merges model connective rest others) :
      Merges model connective (operand :: rest) (argument :: others)
  | inline {label : Label} {operands rest : List Expression} {kind : Kind}
      {inner others : List Argument} (nested : Merges model connective operands inner)
      (tail : Merges model connective rest others) :
      Merges model connective (.composite label connective operands kind :: rest) (inner ++ others)

def RepresentsOperands (model : Model) (connective : Connective) (operands : List Expression)
    (arguments : List Argument) : Prop :=
  if connective.flattens then model.Merges connective operands arguments
  else List.Forall₂ model.Represents operands arguments

section Growth

variable {before after : Model}
  (grown : ∀ entry ∈ before.definitions, entry ∈ after.definitions)

include grown

theorem Represents.mono {expression : Expression} {argument : Argument}
    (represents : before.Represents expression argument) :
    after.Represents expression argument := by
  cases represents with
  | «variable» v => exact .variable v
  | array items => exact .array items
  | constant literal => exact .constant literal
  | composite defined => exact .composite (grown _ defined)

theorem Merges.mono {connective : Connective} {operands : List Expression}
    {arguments : List Argument} (merges : before.Merges connective operands arguments) :
    after.Merges connective operands arguments := by
  induction merges with
  | nil => exact .nil
  | keep head _ inductionHypothesis => exact .keep (head.mono grown) inductionHypothesis
  | inline _ _ nestedHypothesis tailHypothesis => exact .inline nestedHypothesis tailHypothesis

theorem RepresentsOperands.mono {connective : Connective} {operands : List Expression}
    {arguments : List Argument}
    (represents : before.RepresentsOperands connective operands arguments) :
    after.RepresentsOperands connective operands arguments := by
  unfold RepresentsOperands at represents ⊢
  split
  · rename_i flattens
    rw [if_pos flattens] at represents
    exact represents.mono grown
  · rename_i separate
    rw [if_neg separate] at represents
    exact represents.imp fun _ _ head => head.mono grown

end Growth

end Model

namespace Session

/-- The variables of the expression, if it is a composite that has any, have the expression's
value. -/
def IsFaithfulTo (session : Session) (assignment : Assignment) (expression : Expression) : Prop :=
  ∀ label v, expression.label? = some label → (label, v) ∈ session.model.definitions →
    ∃ value, expression.value? assignment = some value ∧ assignment v.id = some value

def IsFaithful (session : Session) (assignment : Assignment) : Prop :=
  ∀ label v, (label, v) ∈ session.model.definitions →
    ∃ expression value, session.built[label]? = some expression ∧
      expression.value? assignment = some value ∧ assignment v.id = some value

theorem IsFaithful.to {session : Session} {assignment : Assignment}
    (faithful : session.IsFaithful assignment) {expression : Expression}
    (atHand : session.AtHand expression) : session.IsFaithfulTo assignment expression := by
  intro label v labelled defined
  obtain ⟨other, value, found, otherValue, variableValue⟩ := faithful label v defined
  cases expression with
  | composite own connective operands kind =>
      cases labelled
      change session.built[label]? = _ at atHand
      rw [atHand] at found
      cases found
      exact ⟨value, otherValue, variableValue⟩
  | _ => cases labelled

end Session

/-- Under the assignment the argument has what the expression has, and it has it. -/
structure Argument.Denotes (assignment : Assignment) (argument : Argument)
    (expression : Expression) : Prop where
  scalar : argument.scalar? assignment = expression.value? assignment
  array : argument.array? assignment = expression.array? assignment
  hasValue : expression.HasValue assignment

section Denotation

variable {session : Session} {assignment : Assignment} (wellBuilt : session.IsWellBuilt)
  (assigned : session.model.problem.IsAssigned assignment)

include assigned

/-- What is at hand and has no label has a value. -/
theorem Expression.hasValue_of_assigned {expression : Expression}
    (atHand : session.AtHand expression) (simple : expression.label? = none) :
    expression.HasValue assignment := by
  apply Expression.hasValue_of_mentions assigned.respects atHand simple
  intro v mentioned
  have known : session.model.problem.Knows v := by
    cases expression with
    | «variable» own =>
        rw [List.mem_singleton.mp mentioned]
        exact atHand
    | array items => exact atHand v mentioned
    | constant literal => cases mentioned
    | composite label connective operands kind => cases simple
  obtain ⟨value, found, _⟩ := assigned.value known
  exact ⟨value, found⟩

include wellBuilt

/-- An argument denotes the expression that it represents, if the variables of that expression are
faithful to it. -/
theorem Model.Represents.denotes {expression : Expression} {argument : Argument}
    (represents : session.model.Represents expression argument)
    (atHand : session.AtHand expression)
    (faithful : session.IsFaithfulTo assignment expression) :
    argument.Denotes assignment expression := by
  cases represents with
  | «variable» v => exact ⟨rfl, rfl, Expression.hasValue_of_assigned assigned atHand rfl⟩
  | array items => exact ⟨rfl, rfl, Expression.hasValue_of_assigned assigned atHand rfl⟩
  | constant literal =>
      refine ⟨?_, ?_, Expression.hasValue_of_assigned assigned atHand rfl⟩
      · cases literal <;> rfl
      · cases literal <;> rfl
  | composite defined =>
      obtain ⟨value, found, variableValue⟩ := faithful _ _ rfl defined
      refine ⟨variableValue.trans found.symm, rfl, ?_⟩
      exact Expression.IsDefined.hasValue assigned.respects wellBuilt atHand ⟨value, found⟩

theorem Model.Represents.denoteEach {expressions : List Expression} {arguments : List Argument}
    (represents : List.Forall₂ session.model.Represents expressions arguments)
    (atHand : ∀ expression ∈ expressions, session.AtHand expression)
    (faithful : ∀ expression ∈ expressions, session.IsFaithfulTo assignment expression) :
    List.Forall₂ (fun expression argument => argument.Denotes assignment expression)
      expressions arguments := by
  induction represents with
  | nil => exact .nil
  | cons head _ inductionHypothesis =>
      refine .cons ?_ (inductionHypothesis ?_ ?_)
      · exact head.denotes wellBuilt assigned (atHand _ (by simp)) (faithful _ (by simp))
      · exact fun other member => atHand other (List.mem_cons_of_mem _ member)
      · exact fun other member => faithful other (List.mem_cons_of_mem _ member)

end Denotation

end ConstraintCompiler
