import ConstraintCompiler.Proofs.Locality
import ConstraintCompiler.Proofs.Session

/-!
Contract: laws of direct evaluation.

Owns:
- the parts of an expression and of several, and induction over them;
- the variables that an expression mentions, which alone decide its value;
- that the truth of a declaration depends only on what its expressions have.

Does not own: compilation. Nothing here mentions a posting.
-/

namespace ConstraintCompiler

namespace Expression

def operands : Expression → List Expression
  | .composite _ _ operands _ => operands
  | _ => []

/-- The first expression occurs in the second one, or is it. -/
inductive Within : Expression → Expression → Prop where
  | self (expression : Expression) : Within expression expression
  | operand {part operand : Expression} {label : Label} {connective : Connective}
      {operands : List Expression} {kind : Kind} (member : operand ∈ operands)
      (within : Within part operand) : Within part (.composite label connective operands kind)

theorem Within.trans {part middle whole : Expression} (inner : part.Within middle)
    (outer : middle.Within whole) : part.Within whole := by
  induction outer with
  | self => exact inner
  | operand member _ inductionHypothesis => exact .operand member inductionHypothesis

def OccursIn (expressions : List Expression) (part : Expression) : Prop :=
  ∃ expression ∈ expressions, part.Within expression

theorem OccursIn.head {expression part : Expression} {rest : List Expression}
    (within : part.Within expression) : OccursIn (expression :: rest) part :=
  ⟨expression, List.mem_cons_self .., within⟩

theorem OccursIn.tail {expression part : Expression} {rest : List Expression}
    (occurs : OccursIn rest part) : OccursIn (expression :: rest) part := by
  obtain ⟨other, member, within⟩ := occurs
  exact ⟨other, List.mem_cons_of_mem _ member, within⟩

theorem OccursIn.subset {fewer more : List Expression} {part : Expression}
    (occurs : OccursIn fewer part) (subset : ∀ expression ∈ fewer, expression ∈ more) :
    OccursIn more part := by
  obtain ⟨expression, member, within⟩ := occurs
  exact ⟨expression, subset expression member, within⟩

theorem OccursIn.composite {operands : List Expression} {part : Expression} (label : Label)
    (connective : Connective) (kind : Kind) (occurs : OccursIn operands part) :
    part.Within (.composite label connective operands kind) := by
  obtain ⟨operand, member, within⟩ := occurs
  exact .operand member within

theorem sizeOf_lt_composite {operand : Expression} {operands : List Expression}
    (member : operand ∈ operands) (label : Label) (connective : Connective) (kind : Kind) :
    sizeOf operand < sizeOf (composite label connective operands kind) := by
  have := List.sizeOf_lt_of_mem member
  simp only [composite.sizeOf_spec]
  omega

theorem sizeOf_le_of_within {part whole : Expression} (within : part.Within whole) :
    sizeOf part ≤ sizeOf whole := by
  induction within with
  | self => exact Nat.le_refl _
  | operand member _ inductionHypothesis =>
      exact Nat.le_trans inductionHypothesis (Nat.le_of_lt (sizeOf_lt_composite member _ _ _))

/-- A property holds of every expression if it passes from all parts of the operands to the
whole. -/
theorem partInduction {property : Expression → Prop}
    (step : ∀ whole : Expression,
      (∀ operand ∈ whole.operands, ∀ part : Expression, part.Within operand → property part) →
        property whole)
    (expression : Expression) : property expression := by
  have all : ∀ (size : Nat) (part : Expression), sizeOf part < size → property part := by
    intro size
    induction size with
    | zero => intro part small; omega
    | succ size inductionHypothesis =>
        intro part small
        refine step part fun operand member inner within => inductionHypothesis inner ?_
        have innerSmall := sizeOf_le_of_within within
        cases part with
        | composite label connective operands kind =>
            change operand ∈ operands at member
            have operandSmall := sizeOf_lt_composite member label connective kind
            omega
        | _ => simp [operands] at member
  exact all _ expression (Nat.lt_succ_self _)

mutual

def mentions : Expression → List Variable
  | .variable v => [v]
  | .array items => items.elements
  | .constant _ => []
  | .composite _ _ operands _ => mentionsEach operands

def mentionsEach : List Expression → List Variable
  | [] => []
  | expression :: rest => mentions expression ++ mentionsEach rest

end

@[simp] theorem mem_mentionsEach {expressions : List Expression} {v : Variable} :
    v ∈ mentionsEach expressions ↔ ∃ expression ∈ expressions, v ∈ expression.mentions := by
  induction expressions with
  | nil => simp [mentionsEach]
  | cons expression rest inductionHypothesis => simp [mentionsEach, inductionHypothesis]

theorem mem_mentions_composite {operand : Expression} {operands : List Expression} {v : Variable}
    (member : operand ∈ operands) (mentioned : v ∈ operand.mentions) (label : Label)
    (connective : Connective) (kind : Kind) :
    v ∈ (composite label connective operands kind).mentions := by
  rw [mentions, mem_mentionsEach]
  exact ⟨operand, member, mentioned⟩

theorem mentions_subset_of_within {part whole : Expression} (within : part.Within whole) :
    ∀ v ∈ part.mentions, v ∈ whole.mentions := by
  induction within with
  | self => exact fun _ mentioned => mentioned
  | operand member _ inductionHypothesis =>
      intro v mentioned
      exact mem_mentions_composite member (inductionHypothesis v mentioned) _ _ _

end Expression

namespace Assignment

theorem ExtendsOn.operand {first second : Assignment} {operand : Expression}
    {operands : List Expression} {label : Label} {connective : Connective} {kind : Kind}
    (extension : first.ExtendsOn second
      (Expression.composite label connective operands kind).mentions)
    (member : operand ∈ operands) : first.ExtendsOn second operand.mentions :=
  extension.subset fun _ mentioned =>
    Expression.mem_mentions_composite member mentioned label connective kind

end Assignment

/-! ### Evaluation reads only what is mentioned -/

namespace Expression

section Extension

variable {first second : Assignment}

theorem array?_extends {items : Expression} {values : List Value}
    (extension : first.ExtendsOn second items.mentions) (found : items.array? first = some values) :
    items.array? second = some values := by
  cases items with
  | array held => exact mapM_mono (fun v member => extension v member) found
  | constant literal => cases literal <;> exact found
  | _ => exact found

theorem ints?_extends {items : Expression} {numbers : List Int}
    (extension : first.ExtendsOn second items.mentions) (found : items.ints? first = some numbers) :
    items.ints? second = some numbers := by
  obtain ⟨values, array, integers⟩ := Option.bind_eq_some_iff.mp found
  exact Option.bind_eq_some_iff.mpr ⟨values, array?_extends extension array, integers⟩

theorem sets?_extends {items : Expression} {sets : List IntSet}
    (extension : first.ExtendsOn second items.mentions) (found : items.sets? first = some sets) :
    items.sets? second = some sets := by
  obtain ⟨values, array, members⟩ := Option.bind_eq_some_iff.mp found
  exact Option.bind_eq_some_iff.mpr ⟨values, array?_extends extension array, members⟩

/-- Expressions keep their values, and their truth values, when every variable mentioned keeps its
value. -/
private theorem evaluation_extends :
    (∀ expression : Expression, first.ExtendsOn second expression.mentions →
      ∀ value, expression.value? first = some value → expression.value? second = some value) ∧
    (∀ operands : List Expression, first.ExtendsOn second (mentionsEach operands) →
      ∀ truths, bools? first operands = some truths → bools? second operands = some truths) := by
  apply value?.mutual_induct
  case case1 =>
    intro v extension value found
    exact extension v (by simp [mentions]) value found
  case case2 => exact fun _ _ _ found => found
  case case3 => exact fun _ _ _ found => found
  case case4 =>
    intro label operator operands kind operandsExtend extension value found
    simp only [value?, Option.bind_eq_bind, Option.bind_eq_some_iff] at found ⊢
    obtain ⟨truths, bools, result⟩ := found
    exact ⟨truths, operandsExtend extension truths bools, result⟩
  case case5 =>
    intro label function items kind extension value found
    simp only [value?, Option.bind_eq_bind, Option.bind_eq_some_iff] at found ⊢
    obtain ⟨numbers, ints, result⟩ := found
    have itemsExtend : first.ExtendsOn second items.mentions := extension.operand (by simp)
    exact ⟨numbers, ints?_extends itemsExtend ints, result⟩
  case case6 =>
    intro label items index kind indexExtends extension value found
    simp only [value?, Option.bind_eq_bind, Option.bind_eq_some_iff] at found ⊢
    obtain ⟨values, array, position, positionFound, result⟩ := found
    have itemsExtend : first.ExtendsOn second items.mentions := extension.operand (by simp)
    have indexKept := indexExtends (extension.operand (by simp)) position positionFound
    exact ⟨values, array?_extends itemsExtend array, position, indexKept, result⟩
  case case7 =>
    intro label items item kind itemExtends extension value found
    simp only [value?, Option.bind_eq_bind, Option.bind_eq_some_iff] at found ⊢
    obtain ⟨numbers, ints, counted, itemFound, result⟩ := found
    have itemsExtend : first.ExtendsOn second items.mentions := extension.operand (by simp)
    have itemKept := itemExtends (extension.operand (by simp)) counted itemFound
    exact ⟨numbers, ints?_extends itemsExtend ints, counted, itemKept, result⟩
  case case8 =>
    intro label function sets selector kind selectorExtends extension value found
    simp only [value?, Option.bind_eq_bind, Option.bind_eq_some_iff] at found ⊢
    obtain ⟨members, membersFound, selected, selectorFound, result⟩ := found
    have setsExtend : first.ExtendsOn second sets.mentions := extension.operand (by simp)
    have selectorKept := selectorExtends (extension.operand (by simp)) selected selectorFound
    exact ⟨members, sets?_extends setsExtend membersFound, selected, selectorKept, result⟩
  case case9 =>
    intro label connective operands kind notLogic notAggregate notElement notCount notSelection
      extension value found
    rw [value?.eq_9 _ _ _ _ _ notLogic notAggregate notElement notCount notSelection] at found
    contradiction
  case case10 => exact fun _ _ found => found
  case case11 =>
    intro operand rest operandExtends restExtends extension truths found
    simp only [bools?, Option.bind_eq_bind, Option.bind_eq_some_iff] at found ⊢
    obtain ⟨value, valueFound, truth, isTruth, others, othersFound, result⟩ := found
    have headKept := operandExtends
      (extension.subset fun v mentioned => List.mem_append_left _ mentioned) value valueFound
    have tailKept := restExtends
      (extension.subset fun v mentioned => List.mem_append_right _ mentioned) others othersFound
    exact ⟨value, headKept, truth, isTruth, others, tailKept, result⟩

theorem value?_extends {expression : Expression} {value : Value}
    (extension : first.ExtendsOn second expression.mentions)
    (found : expression.value? first = some value) : expression.value? second = some value :=
  evaluation_extends.1 expression extension value found

/-- The value of an expression depends only on the variables that it mentions. -/
theorem value?_congr {expression : Expression}
    (agree : ∀ v ∈ expression.mentions, first v.id = second v.id) :
    expression.value? first = expression.value? second := by
  refine Option.ext fun value => ⟨?_, ?_⟩
  · exact value?_extends (.of_agree agree)
  · exact value?_extends (.of_agree fun v mentioned => (agree v mentioned).symm)

end Extension

end Expression

/-! ### Truth reads only what the sides have -/

def Expression.ReadsSame (first second : Assignment) (expression : Expression) : Prop :=
  expression.value? first = expression.value? second ∧
    expression.array? first = expression.array? second

section Congruence

variable {first second : Assignment}

/-- The second assignment reads the expression as the first, if it keeps what the first gives its
variables and the first gives it something. -/
theorem Expression.ReadsSame.of_extends {expression : Expression}
    (extension : first.ExtendsOn second expression.mentions)
    (found : (∃ value, expression.value? first = some value) ∨
      ∃ values, expression.array? first = some values) : expression.ReadsSame second first := by
  rcases found with ⟨value, valueFound⟩ | ⟨values, arrayFound⟩
  · refine ⟨(value?_extends extension valueFound).trans valueFound.symm, ?_⟩
    cases expression with
    | array items => cases valueFound
    | constant literal => cases literal <;> rfl
    | _ => rfl
  · refine ⟨?_, (array?_extends extension arrayFound).trans arrayFound.symm⟩
    cases expression with
    | array items => rfl
    | constant literal => rfl
    | _ => cases arrayFound

theorem Expression.ReadsSame.of_agree {expression : Expression}
    (agree : ∀ v ∈ expression.mentions, first v.id = second v.id) :
    expression.ReadsSame first second := by
  refine ⟨value?_congr agree, Option.ext fun values => ⟨?_, ?_⟩⟩
  · exact array?_extends (.of_agree agree)
  · exact array?_extends (.of_agree fun v mentioned => (agree v mentioned).symm)

theorem Expression.ReadsSame.ints? {expression : Expression}
    (same : expression.ReadsSame first second) :
    expression.ints? first = expression.ints? second := by
  rw [Expression.ints?, Expression.ints?, same.2]

theorem Expression.ReadsSame.sets? {expression : Expression}
    (same : expression.ReadsSame first second) :
    expression.sets? first = expression.sets? second := by
  rw [Expression.sets?, Expression.sets?, same.2]

theorem Statement.holds?_congr {statement : Statement} (offset : Int)
    (same : ∀ expression ∈ statement.expressions, expression.ReadsSame first second) :
    statement.holds? first offset = statement.holds? second offset := by
  cases statement with
  | relate left relation right =>
      have leftSame := same left (by simp [expressions])
      have rightSame := same right (by simp [expressions])
      rw [holds?, holds?, leftSame.1, rightSame.1]
  | truth subject expected =>
      have subjectSame := same subject (by simp [expressions])
      rw [holds?, holds?, subjectSame.1]
  | distinct subject | sorted subject =>
      have subjectSame := same subject (by simp [expressions])
      rw [holds?, holds?, subjectSame.ints?]
  | table subject rows =>
      have subjectSame := same subject (by simp [expressions])
      rw [holds?, holds?, subjectSame.2]
  | channel left right =>
      have leftSame := same left (by simp [expressions])
      have rightSame := same right (by simp [expressions])
      rw [holds?, holds?, channelHolds?, channelHolds?]
      cases channelForm? left.shape right.shape with
      | none => rfl
      | some found =>
          obtain ⟨form, swapped⟩ := found
          cases swapped <;> cases form <;>
            simp [leftSame.1, leftSame.2, leftSame.ints?, leftSame.sets?, rightSame.1,
              rightSame.2, rightSame.ints?, rightSame.sets?]
  | setOperation operation comparison result =>
      have leftSame := same operation.left (by simp [expressions])
      have rightSame := same operation.right (by simp [expressions])
      have resultSame := same result (by simp [expressions])
      rw [holds?, holds?, leftSame.1, rightSame.1, resultSame.1]
  | setElements elements relation bound =>
      have setSame := same elements.set (by simp [expressions])
      have boundSame := same bound (by simp [expressions])
      rw [holds?, holds?, setSame.1, boundSame.1]

theorem Declaration.assertion_congr {declaration : Declaration}
    (same : ∀ expression ∈ declaration.statement.expressions, expression.ReadsSame first second) :
    declaration.assertion first = declaration.assertion second := by
  rw [assertion, assertion, Statement.holds?_congr _ same]

theorem Declaration.isTrue_congr {declaration : Declaration}
    (same : ∀ expression ∈ declaration.expressions, expression.ReadsSame first second) :
    declaration.isTrue first = declaration.isTrue second := by
  have sameAssertion : declaration.assertion first = declaration.assertion second :=
    assertion_congr fun expression member => same expression (List.mem_append_left _ member)
  rw [isTrue, isTrue, sameAssertion]
  cases found : declaration.options.target with
  | none => rfl
  | some target =>
      have targetSame := same target (List.mem_append_right _ (by simp [found]))
      simp only [targetSame.1]

end Congruence

end ConstraintCompiler
