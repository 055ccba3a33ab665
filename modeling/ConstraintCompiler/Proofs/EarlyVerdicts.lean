import ConstraintCompiler.Proofs.Acceptance
import ConstraintCompiler.Proofs.Recording

/-!
Contract: what an accepted posting says while some of its variables have no values.

Owns:
- `Argument.IsRead` and `Posting.IsReadAt`, that every variable of an argument has a value, which
  reading the argument takes;
- `Posting.FailsEarly`, that what a posting compares with its last argument has no value, although
  its other arguments have, so that the last one is not read;
- `Posting.isRead_or_failsEarly`, that any other decided condition has read all arguments;
- `Posting.undecided_until_assigned`: an accepted posting with an unassigned variable is undecided,
  unless it fails early.

Does not own: which postings are decided once every variable has a value.
-/

namespace ConstraintCompiler

/-! ### Values that are missing -/

theorem itemAt?_eq_none_iff {α : Type} {items : List α} {position : Int} :
    itemAt? items position = none ↔ position < 0 ∨ (items.length : Int) ≤ position := by
  unfold itemAt?
  split
  · simp [*]
  · rw [List.getElem?_eq_none_iff]
    omega

/-- A selection has no value exactly when a position is chosen that the array does not have. -/
theorem Selection.eval?_eq_none_iff {selection : Selection} {sets : List IntSet}
    {selector : IntSet} :
    selection.eval? sets selector = none ↔
      ∃ position ∈ selector, position < 0 ∨ (sets.length : Int) ≤ position := by
  rw [eval?, Option.map_eq_none_iff, mapM_eq_none_iff]
  simp only [itemAt?_eq_none_iff, IntSet.mem_elements]

/-- The only set operation that may lack a result is the disjoint union, of sets that overlap. -/
theorem SetOperator.eval?_eq_none_iff {operator : SetOperator} {left right : IntSet} :
    operator.eval? left right = none ↔
      operator = .disjointUnion ∧ ∃ element, element ∈ left ∧ element ∈ right := by
  have overlap : left.isDisjoint right = false ↔ ∃ element, element ∈ left ∧ element ∈ right := by
    rw [Bool.eq_false_iff, ne_eq, IntSet.isDisjoint_iff]
    push Not
    rfl
  cases operator with
  | disjointUnion => simp [eval?, overlap]
  | union | intersection | minus => simp [eval?]

/-! ### What has been read -/

namespace Argument

variable {assignment : Assignment} {argument : Argument}

def IsRead (assignment : Assignment) (argument : Argument) : Prop :=
  ∀ v ∈ argument.mentions, assignment v.id ≠ none

theorem isRead_of_closed (closed : argument.mentions = []) : argument.IsRead assignment := by
  intro v mentioned
  rw [closed] at mentioned
  exact absurd mentioned List.not_mem_nil

theorem isRead_of_scalar? {value : Value} (read : argument.scalar? assignment = some value) :
    argument.IsRead assignment := by
  cases argument with
  | var v =>
      intro other mentioned
      rw [List.mem_singleton.mp mentioned]
      exact Option.ne_none_iff_exists'.mpr ⟨value, read⟩
  | vars => cases read
  | bool | int | set | ints | tuples => exact isRead_of_closed rfl

theorem isRead_of_array? {values : List Value} (read : argument.array? assignment = some values) :
    argument.IsRead assignment := by
  cases argument with
  | vars vs =>
      intro v mentioned
      obtain ⟨value, _, found⟩ := exists_of_mem_forall₂ (mapM_eq_some_iff.mp read) mentioned
      exact Option.ne_none_iff_exists'.mpr ⟨value, found⟩
  | var => cases read
  | bool | int | set | ints | tuples => exact isRead_of_closed rfl

end Argument

namespace Posting

variable {posting : Posting} {assignment : Assignment}

def IsReadAt (posting : Posting) (assignment : Assignment) (position : Nat) : Prop :=
  ∀ argument ∈ posting.arguments[position]?, argument.IsRead assignment

section Position

variable {position : Nat}

theorem isReadAt_of_scalarAt? {value : Value}
    (read : posting.scalarAt? assignment position = some value) :
    posting.IsReadAt assignment position := by
  intro argument given
  rw [scalarAt?, Option.mem_def.mp given] at read
  exact Argument.isRead_of_scalar? read

theorem isReadAt_of_intAt? {number : Int}
    (read : posting.intAt? assignment position = some number) :
    posting.IsReadAt assignment position := by
  obtain ⟨_, scalar, _⟩ := Option.bind_eq_some_iff.mp read
  exact isReadAt_of_scalarAt? scalar

theorem isReadAt_of_setAt? {members : IntSet}
    (read : posting.setAt? assignment position = some members) :
    posting.IsReadAt assignment position := by
  obtain ⟨_, scalar, _⟩ := Option.bind_eq_some_iff.mp read
  exact isReadAt_of_scalarAt? scalar

theorem isReadAt_of_arrayAt? {values : List Value}
    (read : posting.arrayAt? assignment position = some values) :
    posting.IsReadAt assignment position := by
  intro argument given
  rw [arrayAt?, Option.mem_def.mp given] at read
  exact Argument.isRead_of_array? read

theorem isReadAt_of_boolsAt? {truths : List Bool}
    (read : posting.boolsAt? assignment position = some truths) :
    posting.IsReadAt assignment position := by
  obtain ⟨_, array, _⟩ := Option.bind_eq_some_iff.mp read
  exact isReadAt_of_arrayAt? array

theorem isReadAt_of_intsAt? {numbers : List Int}
    (read : posting.intsAt? assignment position = some numbers) :
    posting.IsReadAt assignment position := by
  obtain ⟨_, array, _⟩ := Option.bind_eq_some_iff.mp read
  exact isReadAt_of_arrayAt? array

theorem isReadAt_of_setsAt? {sets : List IntSet}
    (read : posting.setsAt? assignment position = some sets) :
    posting.IsReadAt assignment position := by
  obtain ⟨_, array, _⟩ := Option.bind_eq_some_iff.mp read
  exact isReadAt_of_arrayAt? array

end Position

theorem isRead_of_positions
    (each : ∀ position < posting.arguments.length, posting.IsReadAt assignment position) :
    ∀ argument ∈ posting.arguments, argument.IsRead assignment := by
  intro argument member
  obtain ⟨position, found⟩ := List.getElem?_of_mem member
  exact each position (List.getElem?_eq_some_iff.mp found).1 argument found

theorem isRead_of_one {argument : Argument} (given : posting.arguments = [argument])
    (only : posting.IsReadAt assignment 0) :
    ∀ argument ∈ posting.arguments, argument.IsRead assignment := by
  apply isRead_of_positions
  intro position small
  rw [given] at small
  match position, small with
  | 0, _ => exact only

theorem isRead_of_two {left right : Argument} (given : posting.arguments = [left, right])
    (first : posting.IsReadAt assignment 0) (second : posting.IsReadAt assignment 1) :
    ∀ argument ∈ posting.arguments, argument.IsRead assignment := by
  apply isRead_of_positions
  intro position small
  rw [given] at small
  match position, small with
  | 0, _ => exact first
  | 1, _ => exact second

theorem isRead_of_three {left middle right : Argument}
    (given : posting.arguments = [left, middle, right])
    (first : posting.IsReadAt assignment 0) (second : posting.IsReadAt assignment 1)
    (third : posting.IsReadAt assignment 2) :
    ∀ argument ∈ posting.arguments, argument.IsRead assignment := by
  apply isRead_of_positions
  intro position small
  rw [given] at small
  match position, small with
  | 0, _ => exact first
  | 1, _ => exact second
  | 2, _ => exact third

/-- The posting is false before its last argument is read: it unites sets that overlap as if they
were disjoint, or selects a position that the array of sets does not have. -/
inductive FailsEarly (posting : Posting) (assignment : Assignment) : Prop where
  | overlap (primitive : posting.primitive = .setOperation .disjointUnion)
      {left right : IntSet} (leftRead : posting.setAt? assignment 0 = some left)
      (rightRead : posting.setAt? assignment 1 = some right) {element : Int}
      (inLeft : element ∈ left) (inRight : element ∈ right)
  | outside {selection : Selection}
      (primitive : posting.primitive = .defining (.selection selection))
      {sets : List IntSet} (setsRead : posting.setsAt? assignment 0 = some sets)
      {selector : IntSet} (selectorRead : posting.setAt? assignment 1 = some selector)
      {position : Int} (chosen : position ∈ selector)
      (missing : position < 0 ∨ (sets.length : Int) ≤ position)

theorem FailsEarly.condition? (fails : posting.FailsEarly assignment) :
    posting.condition? assignment = some false := by
  cases fails with
  | @overlap primitive left right leftRead rightRead element inLeft inRight =>
      have lacks : SetOperator.disjointUnion.eval? left right = none :=
        SetOperator.eval?_eq_none_iff.mpr ⟨rfl, element, inLeft, inRight⟩
      simp [Posting.condition?, primitive, leftRead, rightRead, lacks, compareSides?]
  | @outside selection primitive sets setsRead selector selectorRead position chosen missing =>
      have lacks : selection.eval? sets selector = none :=
        Selection.eval?_eq_none_iff.mpr ⟨position, chosen, missing⟩
      simp [Posting.condition?, primitive, definingCondition?, setsRead, selectorRead, lacks,
        compareSides?]

/-- A comparison that is decided lacks its left side or has its right side. -/
theorem compareSides?_eq_some {left right : Option Value} {truth : Bool}
    (decided : posting.compareSides? left right = some truth) :
    left = none ∨ ∃ value, right = some value := by
  cases left with
  | none => exact .inl rfl
  | some value =>
      obtain ⟨_, _, rest⟩ := Option.bind_eq_some_iff.mp decided
      obtain ⟨other, found, _⟩ := Option.bind_eq_some_iff.mp rest
      exact .inr ⟨other, found⟩

section Decided

variable {truth : Bool}

private theorem isRead_of_logicCondition? {operator : LogicOperator}
    (shaped : fitsConnective (.logic operator) posting.arguments = true)
    (decided : logicCondition? operator posting assignment = some truth) :
    ∀ argument ∈ posting.arguments, argument.IsRead assignment := by
  simp only [fitsConnective, Bool.and_eq_true] at shaped
  obtain ⟨operands, result, sides, covered⟩ :
      ∃ operands result, logicSides operator posting.arguments = (operands, some result) ∧
        ∀ argument ∈ posting.arguments, argument ∈ operands ∨ argument = result := by
    cases flattens : operator.flattens with
    | true =>
        have filled : posting.arguments ≠ [] := by simpa [flattens] using shaped.2
        refine ⟨posting.arguments.dropLast, posting.arguments.getLast filled, ?_, ?_⟩
        · rw [logicSides, if_pos flattens, List.getLast?_eq_some_getLast filled]
        · intro argument member
          rw [← List.dropLast_concat_getLast filled] at member
          simpa using member
    | false =>
        have three : posting.arguments.length = 3 := by simpa [flattens] using shaped.2
        obtain ⟨left, right, result, given⟩ := List.length_eq_three.mp three
        refine ⟨[left, right], result, by simp [logicSides, flattens, given], ?_⟩
        simp [given]
  rw [logicCondition?, sides] at decided
  simp only [Option.bind_eq_bind, Option.bind_some, Option.bind_eq_some_iff] at decided
  obtain ⟨_, resultRead, _, _, truths, operandsRead, _⟩ := decided
  intro argument member
  rcases covered argument member with operand | rfl
  · obtain ⟨_, _, found⟩ := exists_of_mem_forall₂ (mapM_eq_some_iff.mp operandsRead) operand
    obtain ⟨_, scalar, _⟩ := Option.bind_eq_some_iff.mp found
    exact Argument.isRead_of_scalar? scalar
  · exact Argument.isRead_of_scalar? resultRead

/-- A posting of a connective that is decided has read all its arguments, or selects a position
that does not exist. -/
private theorem isRead_of_definingCondition? {connective : Connective}
    (primitive : posting.primitive = .defining connective)
    (shaped : fitsConnective connective posting.arguments = true)
    (decided : posting.definingCondition? assignment connective = some truth) :
    (∀ argument ∈ posting.arguments, argument.IsRead assignment) ∨
      posting.FailsEarly assignment := by
  have logic := @isRead_of_logicCondition? posting assignment truth
  unfold fitsConnective at shaped
  split at shaped
  case h_1 operator => exact .inl (logic (by rwa [fitsConnective]) decided)
  case h_2 function items result given =>
    simp only [definingCondition?, Option.bind_eq_bind, Option.bind_eq_some_iff] at decided
    obtain ⟨_, itemsRead, _, resultRead, _⟩ := decided
    exact .inl (isRead_of_two given (isReadAt_of_intsAt? itemsRead)
      (isReadAt_of_scalarAt? resultRead))
  case h_3 items index result given =>
    simp only [definingCondition?, Option.bind_eq_bind, Option.bind_eq_some_iff] at decided
    obtain ⟨_, itemsRead, _, indexRead, _, resultRead, _⟩ := decided
    exact .inl (isRead_of_three given (isReadAt_of_arrayAt? itemsRead)
      (isReadAt_of_intAt? indexRead) (isReadAt_of_scalarAt? resultRead))
  case h_4 items item result given =>
    simp only [definingCondition?, Option.bind_eq_bind, Option.bind_eq_some_iff] at decided
    obtain ⟨_, itemsRead, _, itemRead, _, resultRead, _⟩ := decided
    exact .inl (isRead_of_three given (isReadAt_of_intsAt? itemsRead)
      (isReadAt_of_intAt? itemRead) (isReadAt_of_scalarAt? resultRead))
  case h_5 function sets selector result given =>
    simp only [definingCondition?, Option.bind_eq_bind, Option.bind_eq_some_iff] at decided
    obtain ⟨held, setsRead, chosen, selectorRead, compared⟩ := decided
    -- The result is read only where the selection has a value.
    rcases compareSides?_eq_some compared with lacks | ⟨_, resultRead⟩
    · obtain ⟨position, member, missing⟩ :=
        Selection.eval?_eq_none_iff.mp (Option.map_eq_none_iff.mp lacks)
      exact .inr (.outside primitive setsRead selectorRead member missing)
    · exact .inl (isRead_of_three given (isReadAt_of_setsAt? setsRead)
        (isReadAt_of_setAt? selectorRead) (isReadAt_of_scalarAt? resultRead))
  case h_6 => cases shaped

private theorem isRead_of_channelCondition? {form : ChannelForm}
    (shaped : fitsChannel form posting.arguments = true)
    (decided : posting.channelCondition? assignment form = some truth) :
    ∀ argument ∈ posting.arguments, argument.IsRead assignment := by
  unfold fitsChannel at shaped
  split at shaped
  case h_1 flags number offset given =>
    simp only [channelCondition?, Option.bind_eq_bind, Option.bind_eq_some_iff] at decided
    obtain ⟨_, flagsRead, _, numberRead, _⟩ := decided
    have offsetRead : posting.IsReadAt assignment 2 := by
      rw [IsReadAt, given]
      rintro _ ⟨⟩
      exact Argument.isRead_of_closed rfl
    exact isRead_of_three given (isReadAt_of_boolsAt? flagsRead) (isReadAt_of_intAt? numberRead)
      offsetRead
  case h_2 flags members given =>
    simp only [channelCondition?, Option.bind_eq_bind, Option.bind_eq_some_iff] at decided
    obtain ⟨_, flagsRead, _, membersRead, _⟩ := decided
    exact isRead_of_two given (isReadAt_of_boolsAt? flagsRead) (isReadAt_of_setAt? membersRead)
  case h_3 left right given =>
    simp only [channelCondition?, Option.bind_eq_bind, Option.bind_eq_some_iff] at decided
    obtain ⟨_, leftRead, _, rightRead, _⟩ := decided
    exact isRead_of_two given (isReadAt_of_intsAt? leftRead) (isReadAt_of_intsAt? rightRead)
  case h_4 items sets given =>
    simp only [channelCondition?, Option.bind_eq_bind, Option.bind_eq_some_iff] at decided
    obtain ⟨_, itemsRead, _, setsRead, _⟩ := decided
    exact isRead_of_two given (isReadAt_of_intsAt? itemsRead) (isReadAt_of_setsAt? setsRead)
  case h_5 => cases shaped

/-- A well-shaped posting whose condition is decided has read all its arguments, or fails early. -/
theorem isRead_or_failsEarly (shaped : posting.isWellShaped = true)
    (decided : posting.condition? assignment = some truth) :
    (∀ argument ∈ posting.arguments, argument.IsRead assignment) ∨
      posting.FailsEarly assignment := by
  unfold isWellShaped at shaped
  split at shaped
  case h_1 connective primitive =>
    rw [condition?, primitive] at decided
    exact isRead_of_definingCondition? primitive shaped decided
  case h_2 left right primitive given =>
    simp only [condition?, primitive, Option.bind_eq_bind, Option.bind_eq_some_iff] at decided
    obtain ⟨_, _, _, leftRead, _, rightRead, _⟩ := decided
    exact .inl (isRead_of_two given (isReadAt_of_scalarAt? leftRead)
      (isReadAt_of_scalarAt? rightRead))
  case h_3 items primitive given =>
    simp only [condition?, primitive, Option.bind_eq_bind, Option.bind_eq_some_iff] at decided
    obtain ⟨_, itemsRead, _⟩ := decided
    exact .inl (isRead_of_one given (isReadAt_of_intsAt? itemsRead))
  case h_4 items primitive given =>
    simp only [condition?, primitive, Option.bind_eq_bind, Option.bind_eq_some_iff] at decided
    obtain ⟨_, itemsRead, _⟩ := decided
    exact .inl (isRead_of_one given (isReadAt_of_intsAt? itemsRead))
  case h_5 vs rows primitive given =>
    simp only [condition?, primitive, Option.bind_eq_bind, Option.bind_eq_some_iff] at decided
    obtain ⟨_, itemsRead, _⟩ := decided
    have rowsRead : posting.IsReadAt assignment 1 := by
      rw [IsReadAt, given]
      rintro _ ⟨⟩
      exact Argument.isRead_of_closed rfl
    exact .inl (isRead_of_two given (isReadAt_of_arrayAt? itemsRead) rowsRead)
  case h_6 form primitive =>
    rw [condition?, primitive] at decided
    exact .inl (isRead_of_channelCondition? shaped decided)
  case h_7 operator left right result primitive given =>
    simp only [condition?, primitive, Option.bind_eq_bind, Option.bind_eq_some_iff] at decided
    obtain ⟨_, leftRead, _, rightRead, compared⟩ := decided
    rcases compareSides?_eq_some compared with lacks | ⟨_, resultRead⟩
    · obtain ⟨rfl, element, inLeft, inRight⟩ :=
        SetOperator.eval?_eq_none_iff.mp (Option.map_eq_none_iff.mp lacks)
      exact .inr (.overlap primitive leftRead rightRead inLeft inRight)
    · exact .inl (isRead_of_three given (isReadAt_of_setAt? leftRead)
        (isReadAt_of_setAt? rightRead) (isReadAt_of_scalarAt? resultRead))
  case h_8 members bound primitive given =>
    simp only [condition?, primitive, Option.bind_eq_bind, Option.bind_eq_some_iff] at decided
    obtain ⟨_, _, _, _, _, boundRead, _, membersRead, _⟩ := decided
    exact .inl (isRead_of_two given (isReadAt_of_setAt? membersRead)
      (isReadAt_of_intAt? boundRead))
  case h_9 => cases shaped

end Decided

/-- A posting with an unassigned variable is undecided, unless it fails early. -/
theorem undecided_or_failsEarly (shaped : posting.isWellShaped = true) {v : Variable}
    (mentioned : v ∈ posting.mentions) (unassigned : assignment v.id = none) :
    posting.verdict assignment = none ∨ posting.FailsEarly assignment := by
  cases decided : posting.verdict assignment with
  | none => exact .inl rfl
  | some truth =>
      obtain ⟨base, condition, rest⟩ := Option.bind_eq_some_iff.mp decided
      rcases isRead_or_failsEarly shaped condition with read | fails
      · exfalso
        rcases List.mem_append.mp mentioned with inArguments | inTarget
        · obtain ⟨argument, member, mentions⟩ := List.mem_flatMap.mp inArguments
          exact read argument member v mentions unassigned
        · rw [Option.mem_toList.mp inTarget] at rest
          simp [unassigned] at rest
      · exact .inr fails

private theorem FailsEarly.exists_arguments (fails : posting.FailsEarly assignment)
    (shaped : posting.isWellShaped = true) :
    ∃ left right result, posting.arguments = [left, right, result] ∧
      left.IsRead assignment ∧ right.IsRead assignment ∧ result.isScalar .set = true := by
  unfold isWellShaped at shaped
  cases fails with
  | overlap primitive leftRead rightRead =>
      rw [primitive] at shaped
      split at shaped
      case h_7 operator left right result _ given =>
        refine ⟨left, right, result, given, ?_, ?_, (Bool.and_eq_true_iff.mp shaped).2⟩
        · exact isReadAt_of_setAt? leftRead left (by rw [given]; rfl)
        · exact isReadAt_of_setAt? rightRead right (by rw [given]; rfl)
      all_goals simp_all
  | outside primitive setsRead selectorRead =>
      rw [primitive] at shaped
      dsimp only at shaped
      unfold fitsConnective at shaped
      split at shaped
      case h_5 sets selector result _ given =>
        refine ⟨sets, selector, result, given, ?_, ?_, (Bool.and_eq_true_iff.mp shaped).2⟩
        · exact isReadAt_of_setsAt? setsRead sets (by rw [given]; rfl)
        · exact isReadAt_of_setAt? selectorRead selector (by rw [given]; rfl)
      all_goals simp_all

/-- An unassigned variable in the arguments of a posting that fails early is the last argument. -/
private theorem FailsEarly.last_of_unassigned (fails : posting.FailsEarly assignment)
    (shaped : posting.isWellShaped = true) {argument : Argument}
    (member : argument ∈ posting.arguments) {v : Variable} (mentioned : v ∈ argument.mentions)
    (unassigned : assignment v.id = none) : posting.arguments[2]? = some (.var v) := by
  obtain ⟨left, right, result, given, leftRead, rightRead, scalar⟩ := fails.exists_arguments shaped
  rw [given] at member ⊢
  rcases List.mem_cons.mp member with rfl | member
  · exact absurd unassigned (leftRead v mentioned)
  rcases List.mem_pair.mp member with rfl | rfl
  · exact absurd unassigned (rightRead v mentioned)
  · cases argument with
    | var other =>
        rw [List.mem_singleton.mp mentioned]
        rfl
    | vars => cases scalar
    | bool | int | set | ints | tuples => exact absurd mentioned List.not_mem_nil

/-- An accepted posting is undecided while one of its variables has no value, with one exception: a
disjoint union of sets that overlap and a selection of a position that does not exist are false
before their result is read. The verdict is then negated and compared with the target as usual, and
the variable without a value is the result, or the target. -/
theorem undecided_until_assigned {problem next : Problem} {posting : Posting}
    (posted : problem.post posting = .ok next) {assignment : Assignment} {v : Variable}
    (mentioned : v ∈ posting.mentions) (unassigned : assignment v.id = none) :
    (¬posting.FailsEarly assignment → posting.verdict assignment = none) ∧
      (posting.FailsEarly assignment →
        (posting.arguments[2]? = some (.var v) ∨ posting.target = some v) ∧
          (posting.target = none → posting.verdict assignment = some posting.negated) ∧
          ∀ target, posting.target = some target → posting.verdict assignment =
            ((assignment target.id).bind Value.asBool?).map (· == posting.negated)) := by
  have accepted := (Problem.post_eq_ok.mp posted).1
  have form := (Problem.objection?_eq_none_iff.mp accepted).2
  have shaped := (Problem.formObjection?_eq_none_iff.mp form).1
  have either := undecided_or_failsEarly shaped mentioned unassigned
  refine ⟨fun notEarly => either.resolve_right notEarly, fun fails => ⟨?_, ?_, ?_⟩⟩
  · rcases List.mem_append.mp mentioned with inArguments | inTarget
    · obtain ⟨argument, member, mentions⟩ := List.mem_flatMap.mp inArguments
      exact .inl (fails.last_of_unassigned shaped member mentions unassigned)
    · exact .inr (Option.mem_toList.mp inTarget)
  · intro plain
    rw [verdict_of_plain fails.condition? plain, Bool.false_xor]
  · intro target reified
    rw [verdict, fails.condition?, reified]
    cases read : assignment target.id with
    | none => simp [read]
    | some value => cases value <;> simp [read, Value.asBool?]

/-- Whether the union of the sets at chosen positions differs from a set is bound to a truth
value. -/
def bindsDifference : Posting where
  primitive := .defining (.selection .union)
  arguments := [.vars [⟨0, .set⟩], .var ⟨1, .set⟩, .var ⟨2, .set⟩]
  relation := some .eq
  negated := true
  target := some ⟨3, .bool⟩

/-- The second position is chosen from an array of one set. The target is true, and so is the
posting, without a value of the result. -/
theorem bindsDifference_early :
    let domains : List Domain := List.replicate 3 (.set ∅ (.ofList [0, 1])) ++ [.bool]
    let assignment : Assignment := fun id =>
      [some (.set (.ofList [0])), some (.set (.ofList [0, 1])), none, some (.bool true)][id]?.join
    Problem.post ⟨domains, []⟩ bindsDifference = .ok ⟨domains, [bindsDifference]⟩ ∧
      (⟨2, .set⟩ : Variable) ∈ bindsDifference.mentions ∧ assignment 2 = none ∧
      bindsDifference.verdict assignment = some true := by
  intro domains assignment
  have posted : Problem.post ⟨domains, []⟩ bindsDifference =
      .ok ⟨domains, [bindsDifference]⟩ := by
    decide
  have mentioned : (⟨2, .set⟩ : Variable) ∈ bindsDifference.mentions := by decide
  have unassigned : assignment 2 = none := rfl
  have early : bindsDifference.FailsEarly assignment :=
    .outside rfl rfl rfl (show (1 : Int) ∈ IntSet.ofList [0, 1] by decide) (.inr (by decide))
  obtain ⟨-, verdict⟩ := undecided_until_assigned posted mentioned unassigned
  exact ⟨posted, mentioned, unassigned, (verdict early).2.2 _ rfl⟩

/-- The sets overlap, and the posting is false although the third set has no value. -/
theorem unitesDisjoint_decided :
    let domains : List Domain := List.replicate 3 (.set ∅ (.ofList [1]))
    let assignment := Search.assigning [.set (.ofList [1]), .set (.ofList [1])]
    (∃ next, Problem.post ⟨domains, []⟩ unitesDisjoint = .ok next) ∧
      (⟨2, .set⟩ : Variable) ∈ unitesDisjoint.mentions ∧ assignment 2 = none ∧
      unitesDisjoint.verdict assignment = some false := by
  intro domains assignment
  exact ⟨⟨⟨domains, [unitesDisjoint]⟩, rfl⟩, by decide, rfl, by decide⟩

end Posting

end ConstraintCompiler
