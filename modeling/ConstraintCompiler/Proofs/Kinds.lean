import ConstraintCompiler.Proofs.Evaluation

/-!
Contract: expressions that a session can hold, and the kinds of their values.

Owns:
- `Connective.Joins`, the operands that each connective takes and the kind that it makes of them;
- `Session.IsWellBuilt`, that every composite built sits at its label and joins expressions at
  hand, which building establishes;
- `Expression.IsDefined` and `Expression.HasValue`, and that a value is of the expression's kind.
-/

namespace ConstraintCompiler

/-- The connective takes the operands, and what it makes of them is of the kind. -/
inductive Connective.Joins : Connective → List Expression → Kind → Prop where
  | logic {operator : LogicOperator} {operands : List Expression}
      (truths : ∀ operand ∈ operands, operand.shape = .scalar .bool)
      (binary : operator.flattens = false → operands.length = 2) :
      Joins (.logic operator) operands .bool
  | aggregate {function : Aggregate} {items : VariableArray} (integers : items.kind = .int) :
      Joins (.aggregate function) [.array items] .int
  | element {items index : Expression} {kind : Kind} (array : items.shape = .array kind)
      (position : index.shape = .scalar .int) : Joins .element [items, index] kind
  | count {items : VariableArray} {item : Expression} (integers : items.kind = .int)
      (integer : item.shape = .scalar .int) : Joins .count [.array items, item] .int
  | selection {function : Selection} {sets : VariableArray} {selector : Expression}
      (members : sets.kind = .set) (positions : selector.shape = .scalar .set) :
      Joins (.selection function) [.array sets, selector] .set

namespace Composition

def Offers (composition : Composition) (operand : Expression) : Prop :=
  operand ∈ composition.parts ∨
    ∃ items : VariableArray, .array items ∈ composition.parts ∧
      ∃ v ∈ items.elements, operand = .variable v

private theorem logicOver_eq_ok {operator : LogicOperator} {items : VariableArray} {label : Label}
    {expression : Expression} (flattens : operator.flattens = true)
    (built : Expression.logicOver operator items label = .ok expression) :
    expression = .composite label (.logic operator) (items.elements.map .variable) .bool ∧
      (Connective.logic operator).Joins (items.elements.map .variable) .bool := by
  simp only [Expression.logicOver, VariableArray.expect, except_bind_eq_ok] at built
  obtain ⟨_, checked, result⟩ := built
  split at checked
  · rename_i itemsKind
    cases result
    refine ⟨rfl, .logic ?_ (by simp [flattens])⟩
    intro operand member
    obtain ⟨v, vMember, rfl⟩ := List.mem_map.mp member
    rw [Expression.shape, items.uniform v vMember, itemsKind]
  · contradiction

/-- A composite that gets built carries its label and joins what the composition offers. -/
theorem build_eq_ok {composition : Composition} {label : Label} {expression : Expression}
    (built : composition.build label = .ok expression) :
    ∃ connective operands kind, expression = .composite label connective operands kind ∧
      connective.Joins operands kind ∧ ∀ operand ∈ operands, composition.Offers operand := by
  cases composition with
  | logic operator left right =>
      simp only [build, Expression.logic, except_bind_eq_ok] at built
      obtain ⟨_, leftShape, _, rightShape, result⟩ := built
      cases result
      refine ⟨_, _, _, rfl, .logic ?_ fun _ => rfl, fun operand member => .inl member⟩
      intro operand member
      rcases List.mem_pair.mp member with rfl | rfl
      · exact Expression.expect_eq_ok.mp leftShape
      · exact Expression.expect_eq_ok.mp rightShape
  | all items =>
      obtain ⟨rfl, joins⟩ := logicOver_eq_ok rfl built
      refine ⟨_, _, _, rfl, joins, fun operand member => .inr ⟨items, by simp [parts], ?_⟩⟩
      obtain ⟨v, vMember, rfl⟩ := List.mem_map.mp member
      exact ⟨v, vMember, rfl⟩
  | any items =>
      obtain ⟨rfl, joins⟩ := logicOver_eq_ok rfl built
      refine ⟨_, _, _, rfl, joins, fun operand member => .inr ⟨items, by simp [parts], ?_⟩⟩
      obtain ⟨v, vMember, rfl⟩ := List.mem_map.mp member
      exact ⟨v, vMember, rfl⟩
  | aggregate function items =>
      simp only [build, Expression.aggregate, VariableArray.expect, except_bind_eq_ok] at built
      obtain ⟨_, checked, result⟩ := built
      split at checked
      · rename_i itemsKind
        cases result
        exact ⟨_, _, _, rfl, .aggregate itemsKind, fun operand member => .inl member⟩
      · contradiction
  | count items item =>
      simp only [build, Expression.count, VariableArray.expect, except_bind_eq_ok] at built
      obtain ⟨_, checked, _, itemShape, result⟩ := built
      split at checked
      · rename_i itemsKind
        cases result
        exact ⟨_, _, _, rfl, .count itemsKind (Expression.expect_eq_ok.mp itemShape),
          fun operand member => .inl member⟩
      · contradiction
  | element items index =>
      simp only [build, Expression.element] at built
      split at built
      · rename_i held
        split at built
        · contradiction
        · simp only [except_bind_eq_ok] at built
          obtain ⟨_, indexShape, result⟩ := built
          cases result
          exact ⟨_, _, _, rfl, .element rfl (Expression.expect_eq_ok.mp indexShape),
            fun operand member => .inl member⟩
      · simp only [except_bind_eq_ok] at built
        obtain ⟨_, indexShape, result⟩ := built
        cases result
        exact ⟨_, _, _, rfl, .element rfl (Expression.expect_eq_ok.mp indexShape),
          fun operand member => .inl member⟩
      · contradiction
  | selection function sets selector =>
      simp only [build, except_bind_eq_ok] at built
      obtain ⟨selected, checked, result⟩ := built
      cases result
      unfold SelectedSets.select at checked
      split at checked
      · split at checked
        · rename_i setsKind selectorShape
          cases checked
          exact ⟨_, _, _, rfl, .selection setsKind selectorShape, fun operand member => .inl member⟩
        · contradiction
      · contradiction

end Composition

namespace Session

/-- Every composite built sits at the position of its label, and joins expressions at hand. -/
def IsWellBuilt (session : Session) : Prop :=
  ∀ (label : Label) (expression : Expression), session.built[label]? = some expression →
    ∃ connective operands kind, expression = .composite label connective operands kind ∧
      connective.Joins operands kind ∧ ∀ operand ∈ operands, session.AtHand operand

variable {session : Session}

theorem AtHand.joins {label : Label} {connective : Connective} {operands : List Expression}
    {kind : Kind} (wellBuilt : session.IsWellBuilt)
    (atHand : session.AtHand (.composite label connective operands kind)) :
    connective.Joins operands kind ∧ ∀ operand ∈ operands, session.AtHand operand := by
  obtain ⟨_, _, _, same, joins, operandsAtHand⟩ := wellBuilt _ _ atHand
  cases same
  exact ⟨joins, operandsAtHand⟩

theorem AtHand.within {part whole : Expression} (wellBuilt : session.IsWellBuilt)
    (within : part.Within whole) (atHand : session.AtHand whole) : session.AtHand part := by
  induction within with
  | self => exact atHand
  | operand member _ inductionHypothesis =>
      exact inductionHypothesis ((atHand.joins wellBuilt).2 _ member)

theorem AtHand.knows {expression : Expression} (wellBuilt : session.IsWellBuilt)
    (atHand : session.AtHand expression) :
    ∀ v ∈ expression.mentions, session.model.problem.Knows v := by
  induction expression using Expression.partInduction with
  | step whole inductionHypothesis =>
      intro v mentioned
      cases whole with
      | «variable» known =>
          rw [Expression.mentions, List.mem_singleton] at mentioned
          exact mentioned ▸ atHand
      | array items => exact atHand v mentioned
      | constant literal => simp [Expression.mentions] at mentioned
      | composite label connective operands kind =>
          rw [Expression.mentions, Expression.mem_mentionsEach] at mentioned
          obtain ⟨operand, member, mentioned⟩ := mentioned
          exact inductionHypothesis operand member operand (.self _)
            ((atHand.joins wellBuilt).2 operand member) v mentioned

end Session

/-! ### Kinds of values -/

theorem Problem.Knows.domain {problem : Problem} {v : Variable} (known : problem.Knows v) :
    ∃ domain, problem.domains[v.id]? = some domain ∧ domain.kind = v.kind :=
  Problem.variableObjection?_eq_none_iff.mp known

theorem Problem.Knows.id_lt {problem : Problem} {v : Variable} (known : problem.Knows v) :
    v.id < problem.size := by
  obtain ⟨domain, found, _⟩ := known.domain
  exact (List.getElem?_eq_some_iff.mp found).1

theorem Problem.IsAssigned.respects {problem : Problem} {assignment : Assignment}
    (assigned : problem.IsAssigned assignment) : problem.Respects assignment := by
  intro id domain value known found
  obtain ⟨other, otherFound, kind⟩ := assigned id domain known
  rw [found] at otherFound
  cases otherFound
  exact kind

/-- A list of values of the variables' kinds assigns all of them. -/
theorem Problem.isAssigned_assigning {problem : Problem} {values : List Value}
    (kinds : values.map Value.kind = problem.domains.map Domain.kind) :
    problem.IsAssigned (Search.assigning values) := by
  intro id domain found
  have atId := congrArg (·[id]?) kinds
  simp only [List.getElem?_map, found, Option.map_some] at atId
  obtain ⟨value, valueFound, kind⟩ := Option.map_eq_some_iff.mp atId
  exact ⟨value, valueFound, kind⟩

theorem Problem.Respects.kind {problem : Problem} {assignment : Assignment}
    (respects : problem.Respects assignment) {v : Variable} (known : problem.Knows v)
    {value : Value} (found : assignment v.id = some value) : value.kind = v.kind := by
  obtain ⟨domain, domainFound, kind⟩ := known.domain
  exact (respects v.id domain value domainFound found).trans kind

theorem Problem.IsAssigned.value {problem : Problem} {assignment : Assignment}
    (assigned : problem.IsAssigned assignment) {v : Variable} (known : problem.Knows v) :
    ∃ value, assignment v.id = some value ∧ value.kind = v.kind := by
  obtain ⟨domain, domainFound, kind⟩ := known.domain
  obtain ⟨value, found, valueKind⟩ := assigned v.id domain domainFound
  exact ⟨value, found, valueKind.trans kind⟩

namespace Expression

def IsDefined (assignment : Assignment) (expression : Expression) : Prop :=
  match expression.shape with
  | .scalar _ => ∃ value, expression.value? assignment = some value
  | .array _ => ∃ values, expression.array? assignment = some values

/-- Direct evaluation gives the expression a value of its kind, or all its items one. -/
def HasValue (assignment : Assignment) (expression : Expression) : Prop :=
  match expression.shape with
  | .scalar kind => ∃ value, expression.value? assignment = some value ∧ value.kind = kind
  | .array kind =>
      ∃ values, expression.array? assignment = some values ∧ ∀ value ∈ values, value.kind = kind

section Kinds

variable {session : Session} {assignment : Assignment}
  (respects : session.model.problem.Respects assignment)

include respects

theorem kind_of_array? {items : Expression} {kind : Kind} (atHand : session.AtHand items)
    (shape : items.shape = .array kind) {values : List Value}
    (found : items.array? assignment = some values) : ∀ value ∈ values, value.kind = kind := by
  intro value member
  cases items with
  | array held =>
      obtain ⟨v, vMember, vFound⟩ := exists_of_mem_mapM found member
      have heldKind : held.kind = kind := by
        simpa [Expression.shape, VariableArray.shape] using shape
      rw [respects.kind (atHand v vMember) vFound, held.uniform v vMember, heldKind]
  | constant literal =>
      cases literal <;> simp only [Expression.shape, Constant.shape, reduceCtorEq] at shape
      cases shape
      cases found
      obtain ⟨number, _, rfl⟩ := List.mem_map.mp member
      rfl
  | _ => simp [Expression.shape] at shape

theorem kind_of_value? {expression : Expression} {kind : Kind} (wellBuilt : session.IsWellBuilt)
    (atHand : session.AtHand expression) (shape : expression.shape = .scalar kind) {value : Value}
    (found : expression.value? assignment = some value) : value.kind = kind := by
  cases expression with
  | «variable» v =>
      cases shape
      exact respects.kind atHand found
  | array items => simp [Expression.shape, VariableArray.shape] at shape
  | constant literal =>
      cases literal <;> simp_all [Expression.shape, Constant.shape, value?, Constant.value?]
      all_goals cases found; simp_all [Value.kind]
  | composite label connective operands kind =>
      cases shape
      obtain ⟨joins, operandsAtHand⟩ := atHand.joins wellBuilt
      cases joins with
      | element array position =>
          simp only [value?, Option.bind_eq_bind, Option.bind_eq_some_iff] at found
          obtain ⟨values, arrayFound, index, _, number, _, item⟩ := found
          exact kind_of_array? respects (operandsAtHand _ (by simp)) array arrayFound value
            (mem_of_itemAt? item)
      | _ =>
          simp only [value?, Option.bind_eq_bind, Option.bind_eq_some_iff, Option.pure_def,
            Option.some.injEq] at found
          grind [Value.kind]

/-- What has no label has a value when the variables that it mentions do. -/
theorem hasValue_of_mentions {expression : Expression} (atHand : session.AtHand expression)
    (simple : expression.label? = none)
    (values : ∀ v ∈ expression.mentions, ∃ value, assignment v.id = some value) :
    expression.HasValue assignment := by
  cases expression with
  | «variable» v =>
      obtain ⟨value, found⟩ := values v (by simp [mentions])
      exact ⟨value, found, respects.kind atHand found⟩
  | array items =>
      obtain ⟨results, found⟩ := exists_mapM_eq_some values
      exact ⟨results, found, kind_of_array? respects atHand rfl found⟩
  | constant literal =>
      cases literal with
      | ints numbers => exact ⟨_, rfl, kind_of_array? respects atHand rfl rfl⟩
      | _ => exact ⟨_, rfl, rfl⟩
  | composite label connective operands kind => cases simple

theorem IsDefined.hasValue {expression : Expression} (wellBuilt : session.IsWellBuilt)
    (atHand : session.AtHand expression) (defined : expression.IsDefined assignment) :
    expression.HasValue assignment := by
  unfold IsDefined at defined
  unfold HasValue
  split at defined
  · rename_i kind shape
    obtain ⟨value, found⟩ := defined
    exact ⟨value, found, kind_of_value? respects wellBuilt atHand shape found⟩
  · rename_i kind shape
    obtain ⟨values, found⟩ := defined
    exact ⟨values, found, kind_of_array? respects atHand shape found⟩

end Kinds

theorem ReadsSame.isDefined_iff {first second : Assignment} {expression : Expression}
    (same : expression.ReadsSame first second) :
    expression.IsDefined first ↔ expression.IsDefined second := by
  unfold IsDefined
  rw [same.1, same.2]

theorem HasValue.isDefined {assignment : Assignment} {expression : Expression}
    (hasValue : expression.HasValue assignment) : expression.IsDefined assignment := by
  unfold HasValue at hasValue
  unfold IsDefined
  split at hasValue
  · obtain ⟨value, found, _⟩ := hasValue
    exact ⟨value, found⟩
  · obtain ⟨values, found, _⟩ := hasValue
    exact ⟨values, found⟩

/-- Every operand of a list of truth values that can be read has a value. -/
theorem exists_value?_of_bools? {assignment : Assignment} {operands : List Expression}
    {truths : List Bool} (found : bools? assignment operands = some truths) :
    ∀ operand ∈ operands, ∃ value, operand.value? assignment = some value := by
  induction operands generalizing truths with
  | nil => exact nofun
  | cons operand rest inductionHypothesis =>
      simp only [bools?, Option.bind_eq_bind, Option.bind_eq_some_iff] at found
      obtain ⟨value, valueFound, _, _, others, othersFound, _⟩ := found
      intro other member
      rcases List.mem_cons.mp member with rfl | member
      · exact ⟨value, valueFound⟩
      · exact inductionHypothesis othersFound other member

theorem isDefined_of_value? {assignment : Assignment} {expression : Expression}
    {kind : Kind} (shape : expression.shape = .scalar kind) {value : Value}
    (found : expression.value? assignment = some value) : expression.IsDefined assignment := by
  unfold IsDefined
  rw [shape]
  exact ⟨value, found⟩

private theorem isDefined_of_array? {assignment : Assignment} {expression : Expression}
    {kind : Kind} (shape : expression.shape = .array kind) {values : List Value}
    (found : expression.array? assignment = some values) : expression.IsDefined assignment := by
  unfold IsDefined
  rw [shape]
  exact ⟨values, found⟩

/-- A composite has a value only where its operands are defined. -/
theorem isDefined_operand {assignment : Assignment} {label : Label} {connective : Connective}
    {operands : List Expression} {kind : Kind} (joins : connective.Joins operands kind)
    {value : Value}
    (found : (composite label connective operands kind).value? assignment = some value) :
    ∀ operand ∈ operands, operand.IsDefined assignment := by
  cases joins with
  | logic truths =>
      simp only [value?, Option.bind_eq_bind, Option.bind_eq_some_iff] at found
      obtain ⟨read, readFound, _⟩ := found
      intro operand member
      obtain ⟨own, ownFound⟩ := exists_value?_of_bools? readFound operand member
      exact isDefined_of_value? (truths operand member) ownFound
  | aggregate integers =>
      simp only [value?, ints?, Option.bind_eq_bind, Option.bind_eq_some_iff] at found
      obtain ⟨_, ⟨values, array, _⟩, _⟩ := found
      intro operand member
      rw [List.mem_singleton.mp member]
      exact isDefined_of_array? rfl array
  | element arrayShape position =>
      simp only [value?, Option.bind_eq_bind, Option.bind_eq_some_iff] at found
      obtain ⟨values, array, index, indexFound, _⟩ := found
      intro operand member
      rcases List.mem_pair.mp member with rfl | rfl
      · exact isDefined_of_array? arrayShape array
      · exact isDefined_of_value? position indexFound
  | count integers integer =>
      simp only [value?, ints?, Option.bind_eq_bind, Option.bind_eq_some_iff] at found
      obtain ⟨_, ⟨values, array, _⟩, item, itemFound, _⟩ := found
      intro operand member
      rcases List.mem_pair.mp member with rfl | rfl
      · exact isDefined_of_array? rfl array
      · exact isDefined_of_value? integer itemFound
  | selection members positions =>
      simp only [value?, sets?, Option.bind_eq_bind, Option.bind_eq_some_iff] at found
      obtain ⟨_, ⟨values, array, _⟩, selector, selectorFound, _⟩ := found
      intro operand member
      rcases List.mem_pair.mp member with rfl | rfl
      · exact isDefined_of_array? rfl array
      · exact isDefined_of_value? positions selectorFound

/-- Whatever occurs in a defined expression at hand is defined. -/
theorem IsDefined.within {session : Session} {assignment : Assignment} {part whole : Expression}
    (wellBuilt : session.IsWellBuilt) (within : part.Within whole) (atHand : session.AtHand whole)
    (defined : whole.IsDefined assignment) : part.IsDefined assignment := by
  induction within with
  | self => exact defined
  | operand member _ inductionHypothesis =>
      obtain ⟨joins, operandsAtHand⟩ := atHand.joins wellBuilt
      obtain ⟨value, found⟩ := defined
      exact inductionHypothesis (operandsAtHand _ member) (isDefined_operand joins found _ member)

end Expression

end ConstraintCompiler
