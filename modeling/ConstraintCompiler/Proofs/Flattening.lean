import ConstraintCompiler.Proofs.Conditions
import ConstraintCompiler.Proofs.Emission
import ConstraintCompiler.Proofs.Fusion

/-!
Contract: nested conjunctions, and nested disjunctions, that become one posting.

Owns:
- `Model.Provides`, that an expression has an argument at once, and `Expression.abbreviated`, the
  expression that is left to evaluate when composites with variables are read off these;
- `Model.Nests` and `Model.IsNesting`, an operator nested in itself in any way over given leaves;
- `Model.Nests.resolveMerged`, that resolving a nesting collects the leaves from left to right and
  changes nothing, and `Model.Nests.eval?`, that the operator makes the same of the leaves as of
  the nesting;
- `Model.declare_flattens`: all nestings over one list of leaves, equated with one value, end in
  one and the same posting, which is true exactly when the nesting has the value.

Does not own: operators that do not flatten.
-/

namespace ConstraintCompiler

/-- The model has an argument for the expression without adding a variable: the variable or the
constant that it is, or the variable that the composite has. -/
inductive Model.Provides (model : Model) : Expression → Argument → Prop where
  | «variable» (v : Variable) : Provides model (.variable v) (.var v)
  | constant (literal : Constant) : Provides model (.constant literal) literal.argument
  | composite {label : Label} {connective : Connective} {operands : List Expression} {kind : Kind}
      {v : Variable} (defined : model.definition? label = some v) :
      Provides model (.composite label connective operands kind) (.var v)

mutual

/-- The expression in which each composite that has a variable stands as this variable. -/
def Expression.abbreviated (model : Model) : Expression → Expression
  | .composite label connective operands kind =>
      match model.definition? label with
      | some v => .variable v
      | none => .composite label connective (Expression.abbreviatedEach model operands) kind
  | expression => expression

def Expression.abbreviatedEach (model : Model) : List Expression → List Expression
  | [] => []
  | expression :: rest => expression.abbreviated model :: Expression.abbreviatedEach model rest

end

namespace Expression

theorem abbreviated_of_defined {model : Model} {label : Label} {v : Variable}
    (defined : model.definition? label = some v) (connective : Connective)
    (operands : List Expression) (kind : Kind) :
    (composite label connective operands kind).abbreviated model = .variable v := by
  rw [abbreviated, defined]

theorem abbreviated_of_undefined {model : Model} {label : Label}
    (undefined : model.definition? label = none) (connective : Connective)
    (operands : List Expression) (kind : Kind) :
    (composite label connective operands kind).abbreviated model =
      .composite label connective (abbreviatedEach model operands) kind := by
  rw [abbreviated, undefined]

private theorem abbreviation {model : Model} :
    (∀ expression : Expression, (∀ label ∈ expression.labels, model.definition? label = none) →
      expression.abbreviated model = expression) ∧
    ∀ expressions : List Expression,
      (∀ label ∈ labelsEach expressions, model.definition? label = none) →
      abbreviatedEach model expressions = expressions := by
  apply labels.mutual_induct
  case case1 =>
    intro label connective operands kind operandsHypothesis undefined
    rw [labels, List.forall_mem_cons] at undefined
    rw [abbreviated_of_undefined undefined.1, operandsHypothesis undefined.2]
  case case2 =>
    intro expression simple _
    cases expression with
    | composite => exact (simple _ _ _ _ rfl).elim
    | _ => rfl
  case case3 => exact fun _ => rfl
  case case4 =>
    intro expression rest headHypothesis tailHypothesis undefined
    rw [labelsEach, List.forall_mem_append] at undefined
    rw [abbreviatedEach, headHypothesis undefined.1, tailHypothesis undefined.2]

/-- Nothing is abbreviated where no composite has a variable. -/
theorem abbreviated_eq_self {model : Model} {expression : Expression}
    (undefined : ∀ label ∈ expression.labels, model.definition? label = none) :
    expression.abbreviated model = expression :=
  abbreviation.1 expression undefined

end Expression

namespace LogicOperator

variable {operator : LogicOperator} (flattens : operator.flattens = true)

include flattens

/-- What the operator makes of two lists together, it makes of what it makes of each. -/
theorem eval?_append_eq (first second : List Bool) :
    operator.eval? (first ++ second) =
      (operator.eval? first).bind fun left =>
        (operator.eval? second).bind fun right => operator.eval? [left, right] := by
  cases operator <;> simp_all [LogicOperator.eval?, LogicOperator.flattens]

theorem bind_eval?_append (first second : Option (List Bool)) :
    (first.bind fun truths => second.bind fun others => operator.eval? (truths ++ others)) =
      (first.bind operator.eval?).bind fun left =>
        (second.bind operator.eval?).bind fun right => operator.eval? [left, right] := by
  cases first with
  | none => rfl
  | some truths =>
      cases second with
      | none => simp
      | some others => exact eval?_append_eq flattens truths others

theorem bind_eval?_cons (head : Option Bool) (tail : Option (List Bool)) :
    (head.bind fun truth => tail.bind fun others => operator.eval? (truth :: others)) =
      head.bind fun left =>
        (tail.bind operator.eval?).bind fun right => operator.eval? [left, right] := by
  cases head with
  | none => rfl
  | some truth =>
      have whole := bind_eval?_append flattens (some [truth]) tail
      rwa [Option.bind_some, Option.bind_some, eval?_singleton flattens, Option.bind_some] at whole

end LogicOperator

namespace Expression

/-- The operator joins the truth value of the first expression with what it makes of the others. -/
theorem bind_bools?_cons {operator : LogicOperator} (flattens : operator.flattens = true)
    (assignment : Assignment) (expression : Expression) (rest : List Expression) :
    (bools? assignment (expression :: rest)).bind operator.eval? =
      ((expression.value? assignment).bind Value.asBool?).bind fun left =>
        ((bools? assignment rest).bind operator.eval?).bind fun right =>
          operator.eval? [left, right] := by
  rw [← LogicOperator.bind_eval?_cons flattens, bools?]
  simp only [Option.bind_eq_bind, Option.pure_def, Option.bind_assoc, Option.bind_some]

theorem truth_logic (assignment : Assignment) (label : Label) (operator : LogicOperator)
    (operands : List Expression) (kind : Kind) :
    ((composite label (.logic operator) operands kind).value? assignment).bind Value.asBool? =
      (bools? assignment operands).bind operator.eval? := by
  rw [value?]
  simp only [Option.bind_eq_bind, Option.pure_def, Option.bind_assoc, Option.bind_some,
    Value.asBool?]
  simp only [Option.bind_fun_some]

end Expression

namespace Model

variable {model : Model}

namespace Provides

variable {expression : Expression} {argument : Argument}
  (provides : model.Provides expression argument)

include provides

theorem resolve : expression.resolve model = (argument, model) := by
  cases provides with
  | «variable» | constant =>
      rw [Expression.resolve]
      rfl
  | composite defined => exact Expression.resolve_composite_of_defined defined _ _ _

theorem isSettledIn : expression.IsSettledIn model := by
  intro label labelled
  cases provides with
  | «variable» | constant => cases labelled
  | composite defined =>
      cases labelled
      simp [defined]

theorem truth? (assignment : Assignment) :
    argument.truth? assignment =
      ((expression.abbreviated model).value? assignment).bind Value.asBool? := by
  cases provides with
  | «variable» v =>
      simp [Expression.abbreviated, Expression.value?, Argument.truth?, Argument.scalar?]
  | constant literal =>
      cases literal <;> simp [Expression.abbreviated, Expression.value?, Constant.value?,
        Argument.truth?, Argument.scalar?, Constant.argument]
  | composite defined =>
      simp [Expression.abbreviated_of_defined defined, Expression.value?, Argument.truth?,
        Argument.scalar?]

end Provides

/-- The operands are leaves that the model provides, and composites of the operator without a
variable whose own operands are such operands. The arguments are those of the leaves, from left to
right. -/
inductive Nests (model : Model) (operator : LogicOperator) :
    List Expression → List Argument → Prop where
  | nil : Nests model operator [] []
  | leaf {expression : Expression} {argument : Argument} {rest : List Expression}
      {others : List Argument} (provides : model.Provides expression argument)
      (tail : Nests model operator rest others) :
      Nests model operator (expression :: rest) (argument :: others)
  | join {label : Label} {operands rest : List Expression} {kind : Kind}
      {inner others : List Argument} (undefined : model.definition? label = none)
      (nested : Nests model operator operands inner) (tail : Nests model operator rest others) :
      Nests model operator (.composite label (.logic operator) operands kind :: rest)
        (inner ++ others)

inductive IsNesting (model : Model) (operator : LogicOperator) :
    Expression → List Argument → Prop where
  | composite {label : Label} {operands : List Expression} {leaves : List Argument}
      (undefined : model.definition? label = none) (nests : model.Nests operator operands leaves) :
      IsNesting model operator (.composite label (.logic operator) operands .bool) leaves

namespace Nests

variable {operator : LogicOperator} {operands : List Expression} {leaves : List Argument}

/-- A nesting resolves to its leaves, and nothing is added for it. -/
theorem resolveMerged (nests : model.Nests operator operands leaves) :
    Expression.resolveMerged (.logic operator) operands model = (leaves, model) := by
  induction nests with
  | nil =>
      rw [Expression.resolveMerged]
      rfl
  | leaf provides _ tailHypothesis =>
      have kept := provides.isSettledIn
      rw [Expression.resolveMerged_cons_keep fun label _ _ same => kept label (by rw [same]; rfl),
        provides.resolve]
      simp only [tailHypothesis]
  | join undefined _ _ nestedHypothesis tailHypothesis =>
      rw [Expression.resolveMerged_cons_inline undefined]
      simp only [nestedHypothesis, tailHypothesis]

/-- The operator makes the same of the leaves as of the operands that are nested over them. -/
theorem eval? (flattens : operator.flattens = true) (nests : model.Nests operator operands leaves)
    (assignment : Assignment) :
    (leaves.mapM (Argument.truth? assignment)).bind operator.eval? =
      (Expression.bools? assignment (Expression.abbreviatedEach model operands)).bind
        operator.eval? := by
  induction nests with
  | nil => rfl
  | leaf provides _ tailHypothesis =>
      rw [Expression.abbreviatedEach, Expression.bind_bools?_cons flattens, ← provides.truth?,
        ← tailHypothesis, ← LogicOperator.bind_eval?_cons flattens, List.mapM_cons]
      simp only [Option.bind_eq_bind, Option.pure_def, Option.bind_assoc, Option.bind_some]
  | @join label operands rest kind inner others undefined _ _ nestedHypothesis tailHypothesis =>
      -- The truth value of the inner composite is what the operator makes of its own leaves.
      rw [Expression.abbreviatedEach, Expression.bind_bools?_cons flattens,
        Expression.abbreviated_of_undefined undefined, Expression.truth_logic, ← tailHypothesis,
        ← nestedHypothesis, ← LogicOperator.bind_eval?_append flattens, List.mapM_append]
      simp only [Option.bind_eq_bind, Option.pure_def, Option.bind_assoc, Option.bind_some]

end Nests

theorem IsNesting.truth? {operator : LogicOperator} (flattens : operator.flattens = true)
    {nesting : Expression} {leaves : List Argument}
    (isNesting : model.IsNesting operator nesting leaves) (assignment : Assignment) :
    ((nesting.abbreviated model).value? assignment).bind Value.asBool? =
      (leaves.mapM (Argument.truth? assignment)).bind operator.eval? := by
  obtain ⟨undefined, nests⟩ := isNesting
  rw [Expression.abbreviated_of_undefined undefined, Expression.truth_logic,
    nests.eval? flattens]

/-- The posting of an operator that flattens compares what the operator makes of all arguments but
the last with the last. -/
theorem condition?_declaredPosting {operator : LogicOperator} (flattens : operator.flattens = true)
    (leaves : List Argument) (result : Argument) (negated : Bool) (options : Options)
    (assignment : Assignment) :
    ((Connective.logic operator).declaredPosting leaves result negated options).condition?
        assignment = do
      let expected ← result.truth? assignment
      let truth ← (leaves.mapM (Argument.truth? assignment)).bind operator.eval?
      return truth == expected := by
  have sides : Posting.logicSides operator
      ((Connective.logic operator).declaredPosting leaves result negated options).arguments =
        (leaves, some result) := by
    simp [Posting.logicSides, flattens, Connective.declaredPosting, Connective.posting]
  change Posting.logicCondition? operator _ assignment = _
  rw [Posting.logicCondition?, sides]
  simp [Option.bind_assoc, Argument.truth?]
  rfl

/-- All nestings of an operator over one list of leaves, equated with one truth value that needs no
variable, are accepted, add no variable, and queue one and the same posting: its arguments are the
leaves from left to right and then the value. It says of every assignment whether the nesting,
evaluated from the inside out, has the value; composites that have a variable are read off it. -/
theorem declare_flattens {operator : LogicOperator} (flattens : operator.flattens = true)
    {value : Expression} {result : Argument} (provides : model.Provides value result)
    (isTruth : value.shape = .scalar .bool) (leaves : List Argument) (negated : Bool)
    {options : Options} (plain : options.ArePlain) :
    let posting := (Connective.logic operator).declaredPosting leaves result negated options
    posting.arguments = leaves ++ [result] ∧
      ∀ nesting, model.IsNesting operator nesting leaves →
        (∀ statement, Statement.Relates nesting .eq value statement →
          ∃ journal, declare { statement, negated, options } model =
            (.ok (), { model with queue := model.queue ++ [.post posting], journal })) ∧
        (∀ assignment, posting.condition? assignment = do
          let expected ← result.truth? assignment
          let truth ← ((nesting.abbreviated model).value? assignment).bind Value.asBool?
          return truth == expected) ∧
        ((∀ label ∈ nesting.labels, model.definition? label = none) →
          nesting.abbreviated model = nesting) := by
  refine ⟨rfl, fun nesting isNesting => ⟨fun statement equates => ?_, fun assignment => ?_,
    Expression.abbreviated_eq_self⟩⟩
  · obtain @⟨label, operands, _, undefined, nests⟩ := isNesting
    let composite : Composite := ⟨label, .logic operator, operands, .bool⟩
    have merged : composite.connective.flattens = true := flattens
    have resolved : composite.resolveOperands model = (leaves, model) := by
      rw [Composite.resolveOperands, if_pos merged]
      exact nests.resolveMerged
    obtain ⟨journal, declared⟩ := declare_equating composite equates undefined
      provides.isSettledIn isTruth plain negated
    refine ⟨journal, declared.trans ?_⟩
    simp only [afterFusion, provides.resolve, resolved]
    rfl
  · rw [isNesting.truth? flattens]
    exact condition?_declaredPosting flattens leaves result negated options assignment

def definesThird : Model where
  problem := { domains := [.bool, .bool, .bool] }
  definitions := [(5, ⟨2, .bool⟩)]

def excludesBoth : Expression :=
  .composite 5 (.logic .xor) [.variable ⟨0, .bool⟩, .variable ⟨1, .bool⟩] .bool

/-- A conjunction of one conjunction with itself, and of the empty conjunction with another. -/
def joinsTwice : Expression :=
  let both : Expression :=
    .composite 0 (.logic .and) [.variable ⟨0, .bool⟩, .variable ⟨1, .bool⟩] .bool
  let rest : Expression :=
    .composite 3 (.logic .and)
      [.composite 1 (.logic .and) [] .bool,
        .composite 2 (.logic .and) [excludesBoth, .constant (.bool true)] .bool] .bool
  .composite 4 (.logic .and) [.composite 6 (.logic .and) [both, both] .bool, rest] .bool

def joinsRight : Expression :=
  let join (label : Label) (first second : Expression) : Expression :=
    .composite label (.logic .and) [first, second] .bool
  join 10 (.variable ⟨0, .bool⟩)
    (join 11 (.variable ⟨1, .bool⟩)
      (join 12 (.variable ⟨0, .bool⟩)
        (join 13 (.variable ⟨1, .bool⟩) (join 14 excludesBoth (.constant (.bool true))))))

def sixLeaves : List Argument :=
  [.var ⟨0, .bool⟩, .var ⟨1, .bool⟩, .var ⟨0, .bool⟩, .var ⟨1, .bool⟩, .var ⟨2, .bool⟩,
    .bool true]

theorem nests_third : definesThird.Nests .and [excludesBoth, .constant (.bool true)]
    [.var ⟨2, .bool⟩, .bool true] :=
  .leaf (.composite rfl) (.leaf (.constant (.bool true)) .nil)

theorem isNesting_joinsTwice : definesThird.IsNesting .and joinsTwice sixLeaves := by
  have flags : definesThird.Nests .and [.variable ⟨0, .bool⟩, .variable ⟨1, .bool⟩]
      [.var ⟨0, .bool⟩, .var ⟨1, .bool⟩] :=
    .leaf (.variable _) (.leaf (.variable _) .nil)
  have both {rest : List Expression} {others : List Argument}
      (tail : definesThird.Nests .and rest others) :
      definesThird.Nests .and
        (.composite 0 (.logic .and) [.variable ⟨0, .bool⟩, .variable ⟨1, .bool⟩] .bool :: rest)
        ([.var ⟨0, .bool⟩, .var ⟨1, .bool⟩] ++ others) :=
    .join rfl flags tail
  exact .composite rfl
    (.join rfl (both (both .nil)) (.join rfl (.join rfl .nil (.join rfl nests_third .nil)) .nil))

theorem isNesting_joinsRight : definesThird.IsNesting .and joinsRight sixLeaves := by
  have join {label : Label} {first : Variable} {second : Expression} {others : List Argument}
      (undefined : definesThird.definition? label = none)
      (tail : definesThird.Nests .and [second] others) :
      definesThird.Nests .and [.composite label (.logic .and) [.variable first, second] .bool]
        (.var first :: others) := by
    simpa using Nests.join undefined (.leaf (.variable first) tail) .nil
  have last : definesThird.Nests .and
      [.composite 14 (.logic .and) [excludesBoth, .constant (.bool true)] .bool]
      [.var ⟨2, .bool⟩, .bool true] := .join rfl nests_third .nil
  exact .composite rfl (.leaf (.variable _) (join rfl (join rfl (join rfl last))))

theorem bracketings_flatten :
    ∃ posting : Posting, posting.arguments = sixLeaves ++ [.var ⟨0, .bool⟩] ∧
      (declare { statement := .relate joinsTwice .eq (.variable ⟨0, .bool⟩) }
        definesThird).2.queue = [.post posting] ∧
      (declare { statement := .relate (.variable ⟨0, .bool⟩) .eq joinsRight }
        definesThird).2.queue = [.post posting] ∧
      posting.condition? (fun id => some (.bool (id != 2))) = some false := by
  have plain : Options.ArePlain {} := ⟨rfl, rfl⟩
  have flag : definesThird.Provides (.variable ⟨0, .bool⟩) (.var ⟨0, .bool⟩) := .variable _
  have flattens : LogicOperator.and.flattens = true := rfl
  obtain ⟨given, nestings⟩ := declare_flattens flattens flag rfl sixLeaves false plain
  obtain ⟨_, twice⟩ := (nestings _ isNesting_joinsTwice).1 _ .left
  obtain ⟨_, right⟩ := (nestings _ isNesting_joinsRight).1 _ .right
  refine ⟨_, given, ?_, ?_, ?_⟩
  · rw [twice]
    rfl
  · rw [right]
    rfl
  · rw [(nestings _ isNesting_joinsTwice).2.1]
    rfl

end Model

end ConstraintCompiler
