import ConstraintCompiler.Proofs.Representation

/-!
Contract: the truth of the posting of a connective.

Owns:
- what the arguments of a posting read, once they denote expressions;
- `Model.Merges.eval?`, that merging operands does not change what a connective makes of them;
- `Posting.Compares.condition?`, that the posting of a connective is true exactly when the result
  has the value of the composite.
-/

namespace ConstraintCompiler

/-! ### Values of known kind -/

theorem Value.exists_bool {value : Value} (kind : value.kind = .bool) :
    ∃ truth, value = .bool truth := by
  cases value <;> simp_all [Value.kind]

theorem Value.exists_int {value : Value} (kind : value.kind = .int) :
    ∃ number, value = .int number := by
  cases value <;> simp_all [Value.kind]

theorem Value.exists_set {value : Value} (kind : value.kind = .set) :
    ∃ members, value = .set members := by
  cases value <;> simp_all [Value.kind]

namespace Expression.HasValue

variable {assignment : Assignment} {expression : Expression}
  (hasValue : expression.HasValue assignment)

include hasValue

theorem scalar {kind : Kind} (shape : expression.shape = .scalar kind) :
    ∃ value, expression.value? assignment = some value ∧ value.kind = kind := by
  unfold HasValue at hasValue
  rw [shape] at hasValue
  exact hasValue

theorem truth (shape : expression.shape = .scalar .bool) :
    ∃ truth, expression.value? assignment = some (.bool truth) := by
  obtain ⟨value, found, kind⟩ := hasValue.scalar shape
  obtain ⟨truth, rfl⟩ := Value.exists_bool kind
  exact ⟨truth, found⟩

theorem number (shape : expression.shape = .scalar .int) :
    ∃ number, expression.value? assignment = some (.int number) := by
  obtain ⟨value, found, kind⟩ := hasValue.scalar shape
  obtain ⟨number, rfl⟩ := Value.exists_int kind
  exact ⟨number, found⟩

theorem members (shape : expression.shape = .scalar .set) :
    ∃ members, expression.value? assignment = some (.set members) := by
  obtain ⟨value, found, kind⟩ := hasValue.scalar shape
  obtain ⟨members, rfl⟩ := Value.exists_set kind
  exact ⟨members, found⟩

theorem values {kind : Kind} (shape : expression.shape = .array kind) :
    ∃ values, expression.array? assignment = some values ∧ ∀ value ∈ values, value.kind = kind := by
  unfold HasValue at hasValue
  rw [shape] at hasValue
  exact hasValue

theorem truths (shape : expression.shape = .array .bool) :
    ∃ values truths, expression.array? assignment = some values ∧
      values.mapM Value.asBool? = some truths := by
  obtain ⟨values, found, kinds⟩ := hasValue.values shape
  obtain ⟨truths, read⟩ : ∃ truths, values.mapM Value.asBool? = some truths := by
    apply exists_mapM_eq_some
    intro value member
    obtain ⟨truth, rfl⟩ := Value.exists_bool (kinds value member)
    exact ⟨truth, rfl⟩
  exact ⟨values, truths, found, read⟩

theorem numbers (shape : expression.shape = .array .int) :
    ∃ numbers, expression.ints? assignment = some numbers := by
  obtain ⟨values, found, kinds⟩ := hasValue.values shape
  obtain ⟨numbers, read⟩ : ∃ numbers, values.mapM Value.asInt? = some numbers := by
    apply exists_mapM_eq_some
    intro value member
    obtain ⟨number, rfl⟩ := Value.exists_int (kinds value member)
    exact ⟨number, rfl⟩
  exact ⟨numbers, Option.bind_eq_some_iff.mpr ⟨values, found, read⟩⟩

theorem sets (shape : expression.shape = .array .set) :
    ∃ sets, expression.sets? assignment = some sets := by
  obtain ⟨values, found, kinds⟩ := hasValue.values shape
  obtain ⟨sets, read⟩ : ∃ sets, values.mapM Value.asSet? = some sets := by
    apply exists_mapM_eq_some
    intro value member
    obtain ⟨members, rfl⟩ := Value.exists_set (kinds value member)
    exact ⟨members, rfl⟩
  exact ⟨sets, Option.bind_eq_some_iff.mpr ⟨values, found, read⟩⟩

end Expression.HasValue

/-! ### Arguments of a posting -/

namespace Posting

section Arguments

variable (posting : Posting) {assignment : Assignment} (position : Nat) {argument : Argument}
  {expression : Expression} (given : posting.arguments[position]? = some argument)
  (denotes : argument.Denotes assignment expression)

include given denotes

theorem scalarAt?_of_denotes :
    posting.scalarAt? assignment position = expression.value? assignment := by
  rw [scalarAt?, given]
  exact denotes.scalar

theorem arrayAt?_of_denotes :
    posting.arrayAt? assignment position = expression.array? assignment := by
  rw [arrayAt?, given]
  exact denotes.array

theorem intAt?_of_denotes :
    posting.intAt? assignment position = (expression.value? assignment).bind Value.asInt? := by
  rw [intAt?, scalarAt?_of_denotes posting position given denotes]
  rfl

theorem setAt?_of_denotes :
    posting.setAt? assignment position = (expression.value? assignment).bind Value.asSet? := by
  rw [setAt?, scalarAt?_of_denotes posting position given denotes]
  rfl

theorem boolsAt?_of_denotes :
    posting.boolsAt? assignment position =
      (expression.array? assignment).bind fun values => values.mapM Value.asBool? := by
  rw [boolsAt?, arrayAt?_of_denotes posting position given denotes]
  rfl

theorem intsAt?_of_denotes : posting.intsAt? assignment position = expression.ints? assignment := by
  rw [intsAt?, arrayAt?_of_denotes posting position given denotes, Expression.ints?]

theorem setsAt?_of_denotes : posting.setsAt? assignment position = expression.sets? assignment := by
  rw [setsAt?, arrayAt?_of_denotes posting position given denotes, Expression.sets?]

end Arguments

theorem compareSides?_eq {posting : Posting} (relation : posting.relation = some .eq)
    {left : Option Value} {right : Value} (kinds : ∀ value ∈ left, value.kind = right.kind) :
    posting.compareSides? left (some right) = some (decide (left = some right)) := by
  cases left with
  | none => rfl
  | some value =>
      rw [compareSides?, relation]
      exact (Relation.between?_eq (kinds value rfl)).trans (by simp)

end Posting

/-! ### Merged operands -/

/-- What a connective that flattens makes of a nested occurrence and the rest, it makes of the
operands of that occurrence and the rest. -/
theorem LogicOperator.eval?_append {operator : LogicOperator} (flattens : operator.flattens = true)
    {inner others rest : List Bool} {truth : Bool} (nested : operator.eval? inner = some truth)
    (tail : operator.eval? others = operator.eval? rest) :
    operator.eval? (inner ++ others) = operator.eval? (truth :: rest) := by
  cases operator <;> simp_all [LogicOperator.eval?, LogicOperator.flattens]

theorem LogicOperator.eval?_singleton {operator : LogicOperator}
    (flattens : operator.flattens = true) (truth : Bool) :
    operator.eval? [truth] = some truth := by
  cases operator <;> simp_all [LogicOperator.eval?, LogicOperator.flattens]

theorem LogicOperator.exists_eval? {operator : LogicOperator} {truths : List Bool}
    (fits : operator.flattens = false → truths.length = 2) :
    ∃ truth, operator.eval? truths = some truth := by
  cases operator with
  | and => exact ⟨_, rfl⟩
  | or => exact ⟨_, rfl⟩
  | _ =>
      obtain ⟨left, right, rfl⟩ := List.length_eq_two.mp (fits rfl)
      exact ⟨_, rfl⟩

def Argument.truth? (assignment : Assignment) (argument : Argument) : Option Bool :=
  (argument.scalar? assignment).bind Value.asBool?

theorem Argument.mapM_truth? {assignment : Assignment} {operands : List Expression}
    {arguments : List Argument}
    (denote : List.Forall₂ (fun operand argument => argument.Denotes assignment operand)
      operands arguments) :
    arguments.mapM (Argument.truth? assignment) = Expression.bools? assignment operands := by
  induction denote with
  | nil => rfl
  | cons head _ inductionHypothesis =>
      rw [List.mapM_cons, inductionHypothesis, Argument.truth?, head.scalar, Expression.bools?]
      simp only [Option.bind_eq_bind, Option.bind_assoc]

theorem Expression.exists_bools? {assignment : Assignment} {operands : List Expression}
    (truths : ∀ operand ∈ operands, operand.shape = .scalar .bool)
    (haveValues : ∀ operand ∈ operands, operand.HasValue assignment) :
    ∃ truths, bools? assignment operands = some truths ∧ truths.length = operands.length := by
  induction operands with
  | nil => exact ⟨[], rfl, rfl⟩
  | cons operand rest inductionHypothesis =>
      obtain ⟨truth, found⟩ := (haveValues operand (by simp)).truth (truths operand (by simp))
      obtain ⟨others, othersFound, length⟩ := inductionHypothesis
        (fun other member => truths other (List.mem_cons_of_mem _ member))
        (fun other member => haveValues other (List.mem_cons_of_mem _ member))
      refine ⟨truth :: others, ?_, by simp [length]⟩
      simp [bools?, found, othersFound, Value.asBool?]

/-- The posting compares what the connective makes of the arguments with the result, whatever else
is noted on it. -/
structure Posting.Compares (posting : Posting) (connective : Connective)
    (arguments : List Argument) (result : Argument) : Prop where
  primitive_eq : posting.primitive = .defining connective
  arguments_eq : posting.arguments = arguments ++ [result]
  relation_eq : posting.relation = (connective.posting arguments result).relation

theorem Posting.Compares.scalarAt?_result {posting : Posting} {connective : Connective}
    {arguments : List Argument} {result : Argument}
    (compares : posting.Compares connective arguments result) (assignment : Assignment) :
    posting.scalarAt? assignment arguments.length = result.scalar? assignment := by
  rw [scalarAt?, compares.arguments_eq, List.getElem?_concat_length]
  rfl

section Truth

variable {session : Session} {assignment : Assignment} (wellBuilt : session.IsWellBuilt)
  (assigned : session.model.problem.IsAssigned assignment)

include wellBuilt assigned

/-- Merging operands does not change what the connective makes of them. -/
theorem Model.Merges.eval? {operator : LogicOperator} (flattens : operator.flattens = true)
    {operands : List Expression} {arguments : List Argument}
    (merges : session.model.Merges (.logic operator) operands arguments)
    (atHand : ∀ operand ∈ operands, session.AtHand operand)
    (shapes : ∀ operand ∈ operands, operand.shape = .scalar .bool)
    (faithful : ∀ operand ∈ operands, ∀ part : Expression, part.Within operand →
      session.IsFaithfulTo assignment part) :
    ∃ merged truths, arguments.mapM (Argument.truth? assignment) = some merged ∧
      Expression.bools? assignment operands = some truths ∧
      operator.eval? merged = operator.eval? truths := by
  induction merges with
  | nil => exact ⟨[], [], rfl, rfl, rfl⟩
  | @keep operand argument rest others head tail inductionHypothesis =>
      obtain ⟨merged, truths, mergedFound, truthsFound, same⟩ := inductionHypothesis
        (fun other member => atHand other (List.mem_cons_of_mem _ member))
        (fun other member => shapes other (List.mem_cons_of_mem _ member))
        (fun other member => faithful other (List.mem_cons_of_mem _ member))
      have denotes := head.denotes wellBuilt assigned (atHand operand (by simp))
        (faithful operand (by simp) operand (.self _))
      obtain ⟨truth, found⟩ := denotes.hasValue.truth (shapes operand (by simp))
      have read : argument.truth? assignment = some truth := by
        rw [Argument.truth?, denotes.scalar, found]
        rfl
      refine ⟨truth :: merged, truth :: truths, ?_, ?_, ?_⟩
      · simp [List.mapM_cons, read, mergedFound]
      · simp [Expression.bools?, found, truthsFound, Value.asBool?]
      · exact LogicOperator.eval?_append flattens
          (LogicOperator.eval?_singleton flattens truth) same
  | @inline label nestedOperands rest kind inner others nested tail nestedHypothesis
      tailHypothesis =>
      have nestedAtHand := atHand _ (List.mem_cons_self ..)
      obtain ⟨joins, operandsAtHand⟩ := nestedAtHand.joins wellBuilt
      obtain ⟨merged, truths, mergedFound, truthsFound, same⟩ := tailHypothesis
        (fun other member => atHand other (List.mem_cons_of_mem _ member))
        (fun other member => shapes other (List.mem_cons_of_mem _ member))
        (fun other member => faithful other (List.mem_cons_of_mem _ member))
      cases joins with
      | logic nestedShapes binary =>
          obtain ⟨innerMerged, innerTruths, innerFound, innerTruthsFound, innerSame⟩ :=
            nestedHypothesis operandsAtHand nestedShapes fun operand member part within =>
              faithful _ (List.mem_cons_self ..) part (.operand member within)
          obtain ⟨truth, joined⟩ : ∃ truth, operator.eval? innerTruths = some truth :=
            LogicOperator.exists_eval? (by simp [flattens])
          refine ⟨innerMerged ++ merged, truth :: truths, ?_, ?_, ?_⟩
          · simp [List.mapM_append, innerFound, mergedFound]
          · simp [Expression.bools?, Expression.value?, innerTruthsFound, joined, truthsFound,
              Value.asBool?]
          · exact LogicOperator.eval?_append flattens (innerSame.trans joined) same

private theorem logicCondition?_eq {label : Label} {operator : LogicOperator}
    {operands : List Expression} {arguments : List Argument}
    (shapes : ∀ operand ∈ operands, operand.shape = .scalar .bool)
    (binary : operator.flattens = false → operands.length = 2)
    (atHand : ∀ operand ∈ operands, session.AtHand operand)
    (faithful : ∀ operand ∈ operands, ∀ part : Expression, part.Within operand →
      session.IsFaithfulTo assignment part)
    (represents : session.model.RepresentsOperands (.logic operator) operands arguments)
    {posting : Posting} {result : Argument} (given : posting.arguments = arguments ++ [result])
    {truth : Bool} (resultValue : result.scalar? assignment = some (.bool truth)) :
    Posting.logicCondition? operator posting assignment =
      some (decide
        ((Expression.composite label (.logic operator) operands .bool).value? assignment =
          some (.bool truth))) := by
  obtain ⟨merged, truths, mergedFound, truthsFound, same, ⟨joined, joins⟩, sides⟩ :
      ∃ merged truths, arguments.mapM (Argument.truth? assignment) = some merged ∧
        Expression.bools? assignment operands = some truths ∧
        operator.eval? merged = operator.eval? truths ∧
        (∃ joined, operator.eval? truths = some joined) ∧
        Posting.logicSides operator posting.arguments = (arguments, some result) := by
    by_cases flattens : operator.flattens = true
    · have merges : session.model.Merges (.logic operator) operands arguments := by
        simpa [Model.RepresentsOperands, Connective.flattens, flattens] using represents
      obtain ⟨merged, truths, mergedFound, truthsFound, same⟩ :=
        merges.eval? wellBuilt assigned flattens atHand shapes faithful
      refine ⟨merged, truths, mergedFound, truthsFound, same, ?_, ?_⟩
      · exact LogicOperator.exists_eval? (by simp [flattens])
      · simp [Posting.logicSides, flattens, given]
    · have separate : List.Forall₂ session.model.Represents operands arguments := by
        simpa [Model.RepresentsOperands, Connective.flattens, flattens] using represents
      have denote := Model.Represents.denoteEach wellBuilt assigned separate atHand
        fun operand member => faithful operand member operand (.self _)
      have two : operands.length = 2 := binary (by simpa using flattens)
      obtain ⟨truths, truthsFound, length⟩ := Expression.exists_bools? shapes
        fun operand member => by
        obtain ⟨_, _, denotes⟩ := exists_of_mem_forall₂ denote member
        exact denotes.hasValue
      refine ⟨truths, truths, ?_, truthsFound, rfl, ?_, ?_⟩
      · exact (Argument.mapM_truth? denote).trans truthsFound
      · exact LogicOperator.exists_eval? fun _ => length.trans two
      · obtain ⟨left, right, rfl⟩ := List.length_eq_two.mp (separate.length_eq ▸ two)
        simp [Posting.logicSides, flattens, given]
  have readMerged : (arguments.mapM fun operand => do
      (← operand.scalar? assignment).asBool?) = some merged := mergedFound
  have readResult : (Value.bool truth).asBool? = some truth := rfl
  have condition :
      Posting.logicCondition? operator posting assignment = some (joined == truth) := by
    rw [Posting.logicCondition?, sides]
    simp only [Option.bind_eq_bind] at readMerged
    simp only [Option.bind_eq_bind, Option.bind_some, resultValue, readResult, readMerged, same,
      joins, Option.pure_def]
  rw [condition, Bool.beq_eq_decide_eq]
  simp [Expression.value?, truthsFound, joins]

private theorem denotes_pair {first second : Expression} {arguments : List Argument}
    (represents : List.Forall₂ session.model.Represents [first, second] arguments)
    (atHand : ∀ operand ∈ [first, second], session.AtHand operand)
    (faithful : ∀ operand ∈ [first, second], session.IsFaithfulTo assignment operand) :
    ∃ firstArgument secondArgument, arguments = [firstArgument, secondArgument] ∧
      firstArgument.Denotes assignment first ∧ secondArgument.Denotes assignment second := by
  obtain ⟨firstArgument, _, firstDenotes, rest, rfl⟩ := List.forall₂_cons_left_iff.mp
    (Model.Represents.denoteEach wellBuilt assigned represents atHand faithful)
  obtain ⟨secondArgument, _, secondDenotes, none, rfl⟩ := List.forall₂_cons_left_iff.mp rest
  obtain rfl := List.forall₂_nil_left_iff.mp none
  exact ⟨firstArgument, secondArgument, rfl, firstDenotes, secondDenotes⟩

/-- The posting of a connective is decided, and says whether the result has the value of the
composite. A composite without a value differs from every result. -/
theorem Posting.Compares.condition? {label : Label} {connective : Connective}
    {operands : List Expression} {kind : Kind} {posting : Posting} {arguments : List Argument}
    {result : Argument} (compares : posting.Compares connective arguments result)
    (atHand : session.AtHand (.composite label connective operands kind))
    (faithful : ∀ operand ∈ operands, ∀ part : Expression, part.Within operand →
      session.IsFaithfulTo assignment part)
    (represents : session.model.RepresentsOperands connective operands arguments)
    {value : Value} (resultValue : result.scalar? assignment = some value)
    (resultKind : value.kind = kind) :
    posting.condition? assignment =
      some (decide ((Expression.composite label connective operands kind).value? assignment =
        some value)) := by
  have readLast := (compares.scalarAt?_result assignment).trans resultValue
  obtain ⟨primitive, given, relation⟩ := compares
  obtain ⟨joins, operandsAtHand⟩ := atHand.joins wellBuilt
  have kinds : ∀ found ∈ (Expression.composite label connective operands kind).value? assignment,
      found.kind = value.kind := by
    intro found member
    rw [Expression.kind_of_value? assigned.respects wellBuilt atHand rfl member, resultKind]
  have faithfulOperands : ∀ operand ∈ operands, session.IsFaithfulTo assignment operand :=
    fun operand member => faithful operand member operand (.self _)
  unfold Posting.condition?
  rw [primitive]
  -- A logical connective may have merged its operands; the others represent theirs one by one.
  cases joins with
  | logic shapes binary =>
      obtain ⟨truth, rfl⟩ := Value.exists_bool resultKind
      exact logicCondition?_eq wellBuilt assigned shapes binary operandsAtHand faithful represents
        given resultValue
  | @aggregate function items integers =>
      obtain ⟨argument, _, denotes, none, rfl⟩ := List.forall₂_cons_left_iff.mp
        (Model.Represents.denoteEach wellBuilt assigned represents operandsAtHand faithfulOperands)
      obtain rfl := List.forall₂_nil_left_iff.mp none
      obtain ⟨numbers, found⟩ := denotes.hasValue.numbers (congrArg Shape.array integers)
      have readItems := Posting.intsAt?_of_denotes posting 0
        (by rw [given]; rfl) denotes
      have readResult : posting.scalarAt? assignment 1 = some value := readLast
      have composite : (Expression.composite label (.aggregate function) [.array items] .int).value?
          assignment = (function.eval? numbers).map .int := by
        rw [Expression.value?, found, Option.map_eq_bind]
        rfl
      rw [← Posting.compareSides?_eq relation kinds, composite]
      simp [Posting.definingCondition?, readItems, found, readResult]
  | @element items index kind array position =>
      obtain ⟨itemsArgument, indexArgument, rfl, itemsDenotes, indexDenotes⟩ :=
        denotes_pair wellBuilt assigned represents operandsAtHand faithfulOperands
      obtain ⟨values, valuesFound, _⟩ := itemsDenotes.hasValue.values array
      obtain ⟨number, numberFound⟩ := indexDenotes.hasValue.number position
      have readItems := Posting.arrayAt?_of_denotes posting 0
        (by rw [given]; rfl) itemsDenotes
      have readIndex := Posting.intAt?_of_denotes posting 1
        (by rw [given]; rfl) indexDenotes
      have readResult : posting.scalarAt? assignment 2 = some value := readLast
      have composite : (Expression.composite label .element [items, index] kind).value? assignment =
          itemAt? values number := by
        rw [Expression.value?, valuesFound, numberFound]
        rfl
      rw [← Posting.compareSides?_eq relation kinds, composite]
      simp [Posting.definingCondition?, readItems, valuesFound, readIndex, numberFound,
        Value.asInt?, readResult]
  | @count items item integers integer =>
      obtain ⟨itemsArgument, itemArgument, rfl, itemsDenotes, itemDenotes⟩ :=
        denotes_pair wellBuilt assigned represents operandsAtHand faithfulOperands
      obtain ⟨numbers, numbersFound⟩ :=
        itemsDenotes.hasValue.numbers (congrArg Shape.array integers)
      obtain ⟨number, numberFound⟩ := itemDenotes.hasValue.number integer
      have readItems := Posting.intsAt?_of_denotes posting 0
        (by rw [given]; rfl) itemsDenotes
      have readItem := Posting.intAt?_of_denotes posting 1
        (by rw [given]; rfl) itemDenotes
      have readResult : posting.scalarAt? assignment 2 = some value := readLast
      have composite : (Expression.composite label .count [.array items, item] .int).value?
          assignment = some (.int (numbers.count number)) := by
        rw [Expression.value?, numbersFound, numberFound]
        rfl
      rw [← Posting.compareSides?_eq relation kinds, composite]
      simp [Posting.definingCondition?, readItems, numbersFound, readItem, numberFound,
        Value.asInt?, readResult]
  | @selection function sets selector members positions =>
      obtain ⟨setsArgument, selectorArgument, rfl, setsDenotes, selectorDenotes⟩ :=
        denotes_pair wellBuilt assigned represents operandsAtHand faithfulOperands
      obtain ⟨held, heldFound⟩ := setsDenotes.hasValue.sets (congrArg Shape.array members)
      obtain ⟨chosen, chosenFound⟩ := selectorDenotes.hasValue.members positions
      have readSets := Posting.setsAt?_of_denotes posting 0
        (by rw [given]; rfl) setsDenotes
      have readSelector := Posting.setAt?_of_denotes posting 1
        (by rw [given]; rfl) selectorDenotes
      have readResult : posting.scalarAt? assignment 2 = some value := readLast
      have composite : (Expression.composite label (.selection function) [.array sets, selector]
          .set).value? assignment = (function.eval? held chosen).map .set := by
        rw [Expression.value?, heldFound, chosenFound, Option.map_eq_bind]
        rfl
      rw [← Posting.compareSides?_eq relation kinds, composite]
      simp [Posting.definingCondition?, readSets, heldFound, readSelector, chosenFound,
        Value.asSet?, readResult]

end Truth

end ConstraintCompiler
