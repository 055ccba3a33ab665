import ConstraintCompiler.Proofs.Conditions
import ConstraintCompiler.Proofs.Planning
import Mathlib.Data.Option.Basic

/-!
Contract: the truth of the posting that a statement becomes.

Owns:
- `Statement.Becomes.condition?`, that a posting on arguments that denote the subjects of a
  statement is decided, and true exactly when the statement holds;
- `Statement.Becomes.holds_equality_iff`, that a stated equality holds exactly when both sides have
  one value.

Does not own: polarity and targets, and the fusing of an equality with one of its sides.
-/

namespace ConstraintCompiler

/-- Shapes of the two sides of a channel, the array that gives it its form first. -/
inductive ChannelForm.Ties : ChannelForm → Shape → Shape → Prop where
  | boolInt : Ties .boolInt (.array .bool) (.scalar .int)
  | boolSet : Ties .boolSet (.array .bool) (.scalar .set)
  | intInt : Ties .intInt (.array .int) (.array .int)
  | intSet : Ties .intSet (.array .int) (.array .set)

/-- The form of a channel ties the shapes of its sides, in the order of its arguments. -/
theorem channelForm?_ties {left right : Shape} {form : ChannelForm} {swapped : Bool}
    (found : channelForm? left right = some (form, swapped)) :
    form.Ties (if swapped then right else left) (if swapped then left else right) := by
  unfold channelForm? at found
  split at found
  all_goals
    cases found
    try constructor

def ChannelForm.holds? (assignment : Assignment) (offset : Int) (items other : Expression) :
    ChannelForm → Option Bool
  | .boolInt => do
      let flags ← (← items.array? assignment).mapM Value.asBool?
      return Channel.boolInt flags (← (← other.value? assignment).asInt?) offset
  | .boolSet => do
      let flags ← (← items.array? assignment).mapM Value.asBool?
      return Channel.boolSet flags (← (← other.value? assignment).asSet?)
  | .intInt => return Channel.intInt (← items.ints? assignment) (← other.ints? assignment)
  | .intSet => return Channel.intSet (← items.ints? assignment) (← other.sets? assignment)

theorem Statement.channelHolds?_eq {left right : Expression} {form : ChannelForm} {swapped : Bool}
    (shapes : channelForm? left.shape right.shape = some (form, swapped)) (assignment : Assignment)
    (offset : Int) :
    Statement.channelHolds? assignment offset left right =
      form.holds? assignment offset (if swapped then right else left)
        (if swapped then left else right) := by
  rw [Statement.channelHolds?, shapes]
  cases swapped <;> cases form <;> rfl

theorem Posting.channelCondition?_of_denotes {assignment : Assignment} {offset : Int}
    {form : ChannelForm} {items other : Expression} {posting : Posting}
    {itemsArgument otherArgument : Argument} (ties : form.Ties items.shape other.shape)
    (arguments_eq : posting.arguments = itemsArgument :: otherArgument :: form.constants offset)
    (itemsDenotes : itemsArgument.Denotes assignment items)
    (otherDenotes : otherArgument.Denotes assignment other) :
    posting.channelCondition? assignment form =
      some ((form.holds? assignment offset items other).getD false) := by
  have itemsGiven : posting.arguments[0]? = some itemsArgument := by rw [arguments_eq]; rfl
  have otherGiven : posting.arguments[1]? = some otherArgument := by rw [arguments_eq]; rfl
  generalize itemsShape : items.shape = first, otherShape : other.shape = second at ties
  cases ties with
  | boolInt =>
      obtain ⟨values, flags, found, read⟩ := itemsDenotes.hasValue.truths itemsShape
      obtain ⟨number, numberFound⟩ := otherDenotes.hasValue.number otherShape
      simp [channelCondition?, boolsAt?_of_denotes posting 0 itemsGiven itemsDenotes,
        intAt?_of_denotes posting 1 otherGiven otherDenotes, found, read, numberFound, Value.asInt?,
        arguments_eq, ChannelForm.constants, Argument.constant?, ChannelForm.holds?]
  | boolSet =>
      obtain ⟨values, flags, found, read⟩ := itemsDenotes.hasValue.truths itemsShape
      obtain ⟨members, membersFound⟩ := otherDenotes.hasValue.members otherShape
      simp [channelCondition?, boolsAt?_of_denotes posting 0 itemsGiven itemsDenotes,
        setAt?_of_denotes posting 1 otherGiven otherDenotes, found, read, membersFound,
        Value.asSet?, ChannelForm.holds?]
  | intInt =>
      obtain ⟨numbers, numbersFound⟩ := itemsDenotes.hasValue.numbers itemsShape
      obtain ⟨others, othersFound⟩ := otherDenotes.hasValue.numbers otherShape
      simp [channelCondition?, intsAt?_of_denotes posting 0 itemsGiven itemsDenotes,
        intsAt?_of_denotes posting 1 otherGiven otherDenotes, numbersFound, othersFound,
        ChannelForm.holds?]
  | intSet =>
      obtain ⟨numbers, numbersFound⟩ := itemsDenotes.hasValue.numbers itemsShape
      obtain ⟨sets, setsFound⟩ := otherDenotes.hasValue.sets otherShape
      simp [channelCondition?, intsAt?_of_denotes posting 0 itemsGiven itemsDenotes,
        setsAt?_of_denotes posting 1 otherGiven otherDenotes, numbersFound, setsFound,
        ChannelForm.holds?]

/-! ### What holds of the values of the sides -/

theorem Relation.exists_between? {relation : Relation} {left right : Value}
    (kinds : left.kind = right.kind) (fits : relation.fits left.kind = true) :
    ∃ truth, relation.between? left right = some truth :=
  Option.isSome_iff_exists.mp ((between?_isSome_iff relation left right).mpr ⟨kinds, fits⟩)

theorem Relation.between?_eq_true_iff {left right : Value} :
    eq.between? left right = some true ↔ left = right := by
  by_cases kinds : left.kind = right.kind
  · rw [between?_eq kinds]
    simp
  · have undecided : eq.between? left right = none := by
      have := mt (between?_isSome_iff eq left right).mp fun decided => kinds decided.1
      simpa using this
    rw [undecided]
    simp only [reduceCtorEq, false_iff]
    rintro rfl
    exact kinds rfl

theorem SetComparison.exists_between? (comparison : SetComparison) (left right : IntSet) :
    ∃ truth, comparison.relation.between? (.set left) (.set right) = some truth := by
  refine Relation.exists_between? rfl ?_
  cases comparison <;> rfl

theorem exists_mapM_code? {values : List Value} {kind : Kind} (coded : kind ≠ .set)
    (kinds : ∀ value ∈ values, value.kind = kind) :
    ∃ codes, values.mapM Value.code? = some codes := by
  apply exists_mapM_eq_some
  intro value member
  cases value with
  | set members => exact absurd (kinds _ member).symm coded
  | _ => exact ⟨_, rfl⟩

namespace Statement.Becomes

variable {assignment : Assignment} {offset : Int} {statement : Statement} {primitive : Primitive}
  {subjects : List Expression} {swapped : Bool} {constants : List Argument}
  {relation : Option Relation}

theorem subjects_subset
    (becomes : statement.Becomes offset primitive subjects swapped constants relation) :
    ∀ subject ∈ subjects,
      subject ∈ statement.expressions ∨ ∃ literal, subject = .constant literal := by
  intro subject member
  cases becomes with
  | truth =>
      rcases List.mem_pair.mp member with rfl | rfl
      · exact .inl (by simp [expressions])
      · exact .inr ⟨_, rfl⟩
  | _ => exact .inl member

theorem mentions_constant
    (becomes : statement.Becomes offset primitive subjects swapped constants relation) :
    ∀ constant ∈ constants, constant.mentions = [] := by
  intro constant member
  cases becomes with
  | table =>
      rw [List.mem_singleton.mp member]
      rfl
  | @channel _ _ form =>
      cases form with
      | boolInt =>
          rw [List.mem_singleton.mp member]
          rfl
      | _ => cases member
  | _ => cases member

/-- A primitive that needs a relation gets one. -/
theorem relation_ne_none
    (becomes : statement.Becomes offset primitive subjects swapped constants relation) :
    primitive.needsRelation = true → relation ≠ none := by
  cases becomes with
  | relate | truth | setOperation | setElements => exact fun _ => nofun
  | distinct | sorted | table | channel => exact nofun

/-- The sides of a stated equality are single values of one kind. -/
theorem equality_shapes {left right : Expression}
    (becomes : statement.Becomes offset .relation [left, right] swapped constants (some .eq)) :
    ∃ kind, left.shape = .scalar kind ∧ right.shape = .scalar kind := by
  cases becomes with
  | relate leftShape _ rightShape => exact ⟨_, leftShape, rightShape⟩
  | truth shape => exact ⟨_, shape, rfl⟩

/-- A stated equality holds exactly when both sides have one value. -/
theorem holds_equality_iff {left right : Expression}
    (becomes : statement.Becomes offset .relation [left, right] swapped constants (some .eq)) :
    (statement.holds? assignment offset).getD false = true ↔
      ∃ value, left.value? assignment = some value ∧ right.value? assignment = some value := by
  rw [Option.getD_eq_iff]
  cases becomes with
  | relate =>
      simp only [holds?, Option.bind_eq_bind, Option.bind_eq_some_iff,
        Relation.between?_eq_true_iff]
      simp
  | truth =>
      simp only [holds?, Option.bind_eq_bind, Option.bind_eq_some_iff, Value.asBool?_eq_some]
      simp [Expression.value?, Constant.value?]

section Condition

variable {posting : Posting} {arguments : List Argument}
  (primitive_eq : posting.primitive = primitive) (arguments_eq : posting.arguments =
    (if swapped then arguments.reverse else arguments) ++ constants)
  (relation_eq : posting.relation = relation)
  (denote : List.Forall₂ (fun subject argument => argument.Denotes assignment subject) subjects
    arguments)

include primitive_eq arguments_eq relation_eq denote

/-- The posting that a statement becomes is decided, and says whether the statement holds. A
statement about something without a value does not. -/
theorem condition?
    (becomes : statement.Becomes offset primitive subjects swapped constants relation) :
    posting.condition? assignment = some ((statement.holds? assignment offset).getD false) := by
  unfold Posting.condition?
  rw [primitive_eq]
  cases becomes with
  | @relate left right relation kind leftShape fits rightShape =>
      obtain _ | ⟨leftDenotes, _ | ⟨rightDenotes, _ | _⟩⟩ := denote
      obtain ⟨leftValue, leftFound, leftKind⟩ := leftDenotes.hasValue.scalar leftShape
      obtain ⟨rightValue, rightFound, rightKind⟩ := rightDenotes.hasValue.scalar rightShape
      obtain ⟨truth, decided⟩ := Relation.exists_between?
        (leftKind.trans rightKind.symm) (leftKind ▸ fits)
      have readLeft := Posting.scalarAt?_of_denotes posting 0
        (by rw [arguments_eq]; rfl) leftDenotes
      have readRight := Posting.scalarAt?_of_denotes posting 1
        (by rw [arguments_eq]; rfl) rightDenotes
      simp [relation_eq, readLeft, leftFound, readRight, rightFound, decided, holds?]
  | @truth subject expected shape =>
      obtain _ | ⟨subjectDenotes, _ | ⟨expectedDenotes, _ | _⟩⟩ := denote
      obtain ⟨truth, found⟩ := subjectDenotes.hasValue.truth shape
      have readSubject := Posting.scalarAt?_of_denotes posting 0
        (by rw [arguments_eq]; rfl) subjectDenotes
      have readExpected := Posting.scalarAt?_of_denotes posting 1
        (by rw [arguments_eq]; rfl) expectedDenotes
      simp [relation_eq, readSubject, found, readExpected, Expression.value?, Constant.value?,
        Relation.between?, Value.asBool?, holds?]
  | distinct shape =>
      obtain _ | ⟨subjectDenotes, _ | _⟩ := denote
      obtain ⟨numbers, found⟩ := subjectDenotes.hasValue.numbers shape
      have readItems := Posting.intsAt?_of_denotes posting 0
        (by rw [arguments_eq]; rfl) subjectDenotes
      simp [readItems, found, holds?]
  | sorted shape =>
      obtain _ | ⟨subjectDenotes, _ | _⟩ := denote
      obtain ⟨numbers, found⟩ := subjectDenotes.hasValue.numbers shape
      have readItems := Posting.intsAt?_of_denotes posting 0
        (by rw [arguments_eq]; rfl) subjectDenotes
      simp [readItems, found, holds?]
  | @table items rows kind lengths =>
      obtain _ | ⟨subjectDenotes, _ | _⟩ := denote
      obtain ⟨values, found, kinds⟩ := subjectDenotes.hasValue.values rfl
      obtain ⟨codes, coded⟩ := exists_mapM_code? kind kinds
      have readItems := Posting.arrayAt?_of_denotes posting 0
        (by rw [arguments_eq]; rfl) subjectDenotes
      simp [readItems, found, coded, arguments_eq, Argument.rows?, holds?]
  | @channel left right form swapped shapes =>
      obtain _ | ⟨leftDenotes, _ | ⟨rightDenotes, _ | _⟩⟩ := denote
      have ties := channelForm?_ties shapes
      rw [holds?, channelHolds?_eq shapes]
      cases swapped with
      | false =>
          exact Posting.channelCondition?_of_denotes ties arguments_eq leftDenotes rightDenotes
      | true =>
          exact Posting.channelCondition?_of_denotes ties arguments_eq rightDenotes leftDenotes
  | @setOperation operation comparison result shape =>
      obtain _ | ⟨leftDenotes, _ | ⟨rightDenotes, _ | ⟨resultDenotes, _ | _⟩⟩⟩ := denote
      obtain ⟨leftMembers, leftFound⟩ := leftDenotes.hasValue.members operation.left_shape
      obtain ⟨rightMembers, rightFound⟩ := rightDenotes.hasValue.members operation.right_shape
      obtain ⟨resultMembers, resultFound⟩ := resultDenotes.hasValue.members shape
      have readLeft := Posting.setAt?_of_denotes posting 0
        (by rw [arguments_eq]; rfl) leftDenotes
      have readRight := Posting.setAt?_of_denotes posting 1
        (by rw [arguments_eq]; rfl) rightDenotes
      have readResult := Posting.scalarAt?_of_denotes posting 2
        (by rw [arguments_eq]; rfl) resultDenotes
      cases joined : operation.operator.eval? leftMembers rightMembers with
      | none =>
          simp [readLeft, leftFound, readRight, rightFound, Value.asSet?, joined, holds?,
            Posting.compareSides?]
      | some members =>
          obtain ⟨truth, decided⟩ := comparison.exists_between? members resultMembers
          simp [readLeft, leftFound, readRight, rightFound, Value.asSet?, joined, holds?,
            Posting.compareSides?, relation_eq, readResult, resultFound, decided]
  | @setElements elements relation bound arithmetic shape =>
      obtain _ | ⟨setDenotes, _ | ⟨boundDenotes, _ | _⟩⟩ := denote
      obtain ⟨members, membersFound⟩ := setDenotes.hasValue.members elements.set_shape
      obtain ⟨number, numberFound⟩ := boundDenotes.hasValue.number shape
      have readSet := Posting.setAt?_of_denotes posting 0
        (by rw [arguments_eq]; rfl) setDenotes
      have readBound := Posting.intAt?_of_denotes posting 1
        (by rw [arguments_eq]; rfl) boundDenotes
      simp [relation_eq, arithmetic, readSet, membersFound, readBound, numberFound, Value.asSet?,
        Value.asInt?, holds?]

end Condition

end Statement.Becomes

end ConstraintCompiler
