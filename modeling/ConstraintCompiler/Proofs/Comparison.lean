import ConstraintCompiler.Proofs.Conditions
import ConstraintCompiler.Proofs.Locality

/-!
Contract: what a well-shaped posting reads, and what it compares, once every variable has a value.

Owns:
- what each kind of argument reads under a full assignment;
- `Posting.leftSide?`, the value that a posting compares with its last argument, and
  `Posting.comparedKind?`, the kind of both;
- `Posting.exists_comparison`, that the condition of a posting that compares something is this
  comparison.

Does not own: whether the posting's relation has a meaning on that kind.
-/

namespace ConstraintCompiler

/-! ### What arguments read under a full assignment -/

section Reading

variable {problem : Problem} {assignment : Assignment} (assigned : problem.IsAssigned assignment)

include assigned

theorem Argument.exists_scalar? {argument : Argument} {kind : Kind}
    (knows : ∀ v ∈ argument.mentions, problem.Knows v)
    (scalar : argument.scalarKind? = some kind) :
    ∃ value, argument.scalar? assignment = some value ∧ value.kind = kind := by
  cases argument with
  | var v =>
      obtain ⟨value, found, valueKind⟩ := assigned.value (knows v (List.mem_singleton_self v))
      exact ⟨value, found, valueKind.trans (Option.some.inj scalar)⟩
  | bool | int | set => exact ⟨_, rfl, Option.some.inj scalar⟩
  | vars | ints | tuples => cases scalar

theorem Argument.exists_array? {argument : Argument} {kind : Kind}
    (knows : ∀ v ∈ argument.mentions, problem.Knows v)
    (array : argument.isArrayOf kind = true) :
    ∃ values, argument.array? assignment = some values ∧ ∀ value ∈ values, value.kind = kind := by
  cases argument with
  | vars vs =>
      have kinds : ∀ v ∈ vs, v.kind = kind := by
        simpa [Argument.isArrayOf] using array
      obtain ⟨values, found⟩ : ∃ values, vs.mapM (fun v => assignment v.id) = some values := by
        apply exists_mapM_eq_some
        intro v member
        obtain ⟨value, valueFound, _⟩ := assigned.value (knows v member)
        exact ⟨value, valueFound⟩
      refine ⟨values, found, fun value member => ?_⟩
      obtain ⟨v, vMember, valueFound⟩ := exists_of_mem_mapM found member
      exact (assigned.respects.kind (knows v vMember) valueFound).trans (kinds v vMember)
  | _ => cases array

theorem Argument.exists_truths {arguments : List Argument}
    (knows : ∀ argument ∈ arguments, ∀ v ∈ argument.mentions, problem.Knows v)
    (scalars : ∀ argument ∈ arguments, argument.isScalar .bool = true) :
    ∃ truths, arguments.mapM (Argument.truth? assignment) = some truths ∧
      truths.length = arguments.length := by
  obtain ⟨truths, found⟩ : ∃ truths, arguments.mapM (Argument.truth? assignment) = some truths := by
    apply exists_mapM_eq_some
    intro argument member
    obtain ⟨value, read, kind⟩ := Argument.exists_scalar? assigned (knows argument member)
      (eq_of_beq (scalars argument member))
    obtain ⟨truth, rfl⟩ := Value.exists_bool kind
    exact ⟨truth, by simp [Argument.truth?, read, Value.asBool?]⟩
  exact ⟨truths, found, (mapM_eq_some_iff.mp found).length_eq.symm⟩

end Reading

namespace Posting

/-- Kind of the values that the posting's relation compares, if it compares any. -/
def comparedKind? (posting : Posting) : Option Kind :=
  match posting.primitive with
  | .defining (.aggregate _) | .defining .count | .setElements => some .int
  | .defining (.selection _) | .setOperation _ => some .set
  | .defining .element => posting.arguments[2]?.bind Argument.scalarKind?
  | .relation => posting.arguments[0]?.bind Argument.scalarKind?
  | .defining (.logic _) | .distinct | .sorted | .table | .channel _ => none


/-- The value that the posting compares with its last argument, if there is one. -/
def leftSide? (posting : Posting) (assignment : Assignment) : Option Value :=
  match posting.primitive with
  | .defining (.aggregate aggregate) =>
      ((posting.intsAt? assignment 0).bind aggregate.eval?).map .int
  | .defining .element => do
      itemAt? (← posting.arrayAt? assignment 0) (← posting.intAt? assignment 1)
  | .defining .count => do
      return .int ((← posting.intsAt? assignment 0).count (← posting.intAt? assignment 1))
  | .defining (.selection selection) => do
      let sets ← posting.setsAt? assignment 0
      let selector ← posting.setAt? assignment 1
      (selection.eval? sets selector).map .set
  | .setOperation operator => do
      let left ← posting.setAt? assignment 0
      let right ← posting.setAt? assignment 1
      (operator.eval? left right).map .set
  | .relation | .setElements => posting.scalarAt? assignment 0
  | .defining (.logic _) | .distinct | .sorted | .table | .channel _ => none

section Comparison

variable {problem : Problem} {assignment : Assignment} (assigned : problem.IsAssigned assignment)
  {posting : Posting} (knows : ∀ v ∈ posting.mentions, problem.Knows v)

include assigned knows

section Position

variable (position : Nat) {argument : Argument}
  (given : posting.arguments[position]? = some argument)

include given

theorem exists_scalarAt? {kind : Kind} (scalar : argument.scalarKind? = some kind) :
    ∃ value, posting.scalarAt? assignment position = some value ∧ value.kind = kind := by
  have member := List.mem_of_getElem? given
  rw [scalarAt?, given]
  exact Argument.exists_scalar? assigned
    (fun v mentioned => knows v (mem_mentions_of_argument member mentioned)) scalar

theorem exists_intAt? (scalar : argument.isScalar .int = true) :
    ∃ number, posting.intAt? assignment position = some number := by
  obtain ⟨value, found, kind⟩ := exists_scalarAt? assigned knows position given (eq_of_beq scalar)
  obtain ⟨number, rfl⟩ := Value.exists_int kind
  exact ⟨number, by simp [intAt?, found, Value.asInt?]⟩

theorem exists_setAt? (scalar : argument.isScalar .set = true) :
    ∃ members, posting.setAt? assignment position = some members := by
  obtain ⟨value, found, kind⟩ := exists_scalarAt? assigned knows position given (eq_of_beq scalar)
  obtain ⟨members, rfl⟩ := Value.exists_set kind
  exact ⟨members, by simp [setAt?, found, Value.asSet?]⟩

theorem exists_arrayAt? {kind : Kind} (array : argument.isArrayOf kind = true) :
    ∃ values, posting.arrayAt? assignment position = some values ∧
      ∀ value ∈ values, value.kind = kind := by
  have member := List.mem_of_getElem? given
  rw [arrayAt?, given]
  exact Argument.exists_array? assigned
    (fun v mentioned => knows v (mem_mentions_of_argument member mentioned)) array

theorem exists_boolsAt? (array : argument.isArrayOf .bool = true) :
    ∃ truths, posting.boolsAt? assignment position = some truths := by
  obtain ⟨values, found, kinds⟩ := exists_arrayAt? assigned knows position given array
  simp only [boolsAt?, found]
  apply exists_mapM_eq_some
  intro value member
  obtain ⟨truth, rfl⟩ := Value.exists_bool (kinds value member)
  exact ⟨truth, rfl⟩

theorem exists_intsAt? (array : argument.isArrayOf .int = true) :
    ∃ numbers, posting.intsAt? assignment position = some numbers := by
  obtain ⟨values, found, kinds⟩ := exists_arrayAt? assigned knows position given array
  simp only [intsAt?, found]
  apply exists_mapM_eq_some
  intro value member
  obtain ⟨number, rfl⟩ := Value.exists_int (kinds value member)
  exact ⟨number, rfl⟩

theorem exists_setsAt? (array : argument.isArrayOf .set = true) :
    ∃ sets, posting.setsAt? assignment position = some sets := by
  obtain ⟨values, found, kinds⟩ := exists_arrayAt? assigned knows position given array
  simp only [setsAt?, found]
  apply exists_mapM_eq_some
  intro value member
  obtain ⟨members, rfl⟩ := Value.exists_set (kinds value member)
  exact ⟨members, rfl⟩

end Position
/-- The items of an element constraint are of the result's kind. -/
theorem exists_elementItems {items index result : Argument} {kind : Kind}
    (given : posting.arguments = [items, index, result])
    (shaped : fitsElement items index result = true) (resultKind : result.scalarKind? = some kind) :
    index.isScalar .int = true ∧ ∃ values, posting.arrayAt? assignment 0 = some values ∧
      ∀ value ∈ values, value.kind = kind := by
  have first : posting.arguments[0]? = some items := by rw [given]; rfl
  unfold fitsElement at shaped
  split at shaped
  · obtain ⟨indexScalar, kinds⟩ := Bool.and_eq_true_iff.mp shaped
    refine ⟨indexScalar, exists_arrayAt? assigned knows 0 first ?_⟩
    simpa [Argument.isArrayOf, resultKind] using kinds
  · rename_i numbers
    obtain ⟨indexScalar, resultScalar⟩ := Bool.and_eq_true_iff.mp shaped
    cases resultKind.symm.trans (eq_of_beq resultScalar)
    refine ⟨indexScalar, numbers.map .int, by rw [arrayAt?, first]; rfl, ?_⟩
    simp [Value.kind]
  · cases shaped

/-- A posting that defines a connective's value compares it with the value of its last argument. -/
private theorem exists_definingComparison {connective : Connective} {kind : Kind}
    (primitive : posting.primitive = .defining connective)
    (shaped : fitsConnective connective posting.arguments = true)
    (compared : posting.comparedKind? = some kind) :
    ∃ right : Value, right.kind = kind ∧
      (∀ left ∈ posting.leftSide? assignment, left.kind = kind) ∧
      posting.definingCondition? assignment connective =
        posting.compareSides? (posting.leftSide? assignment) (some right) := by
  unfold comparedKind? at compared
  unfold leftSide?
  rw [primitive] at compared ⊢
  unfold fitsConnective at shaped
  split at shaped
  case h_1 => cases compared
  case h_2 function items result given =>
    cases compared
    obtain ⟨itemsArray, resultScalar⟩ := Bool.and_eq_true_iff.mp shaped
    obtain ⟨numbers, readItems⟩ :=
      exists_intsAt? assigned knows 0 (by rw [given]; rfl) itemsArray
    obtain ⟨right, readResult, rightKind⟩ :=
      exists_scalarAt? assigned knows 1 (by rw [given]; rfl) (eq_of_beq resultScalar)
    refine ⟨right, rightKind, ?_, ?_⟩
    · simp [readItems, Value.kind]
    · simp [definingCondition?, readItems, readResult]
  case h_3 items index result given =>
    have resultKind : result.scalarKind? = some kind := by
      simpa [given] using compared
    obtain ⟨indexScalar, values, readItems, itemKinds⟩ :=
      exists_elementItems assigned knows given shaped resultKind
    obtain ⟨number, readIndex⟩ :=
      exists_intAt? assigned knows 1 (by rw [given]; rfl) indexScalar
    obtain ⟨right, readResult, rightKind⟩ :=
      exists_scalarAt? assigned knows 2 (by rw [given]; rfl) resultKind
    refine ⟨right, rightKind, ?_, ?_⟩
    · simp only [readItems, readIndex, Option.bind_eq_bind, Option.bind_some]
      exact fun item member => itemKinds item (mem_of_itemAt? member)
    · simp [definingCondition?, readItems, readIndex, readResult]
  case h_4 items item result given =>
    cases compared
    simp only [Bool.and_eq_true] at shaped
    obtain ⟨⟨itemsArray, itemScalar⟩, resultScalar⟩ := shaped
    obtain ⟨numbers, readItems⟩ :=
      exists_intsAt? assigned knows 0 (by rw [given]; rfl) itemsArray
    obtain ⟨number, readItem⟩ :=
      exists_intAt? assigned knows 1 (by rw [given]; rfl) itemScalar
    obtain ⟨right, readResult, rightKind⟩ :=
      exists_scalarAt? assigned knows 2 (by rw [given]; rfl) (eq_of_beq resultScalar)
    refine ⟨right, rightKind, ?_, ?_⟩
    · simp [readItems, readItem, Value.kind]
    · simp [definingCondition?, readItems, readItem, readResult]
  case h_5 function sets selector result given =>
    cases compared
    simp only [Bool.and_eq_true] at shaped
    obtain ⟨⟨setsArray, selectorScalar⟩, resultScalar⟩ := shaped
    obtain ⟨held, readSets⟩ :=
      exists_setsAt? assigned knows 0 (by rw [given]; rfl) setsArray
    obtain ⟨chosen, readSelector⟩ :=
      exists_setAt? assigned knows 1 (by rw [given]; rfl) selectorScalar
    obtain ⟨right, readResult, rightKind⟩ :=
      exists_scalarAt? assigned knows 2 (by rw [given]; rfl) (eq_of_beq resultScalar)
    refine ⟨right, rightKind, ?_, ?_⟩
    · simp [readSets, readSelector, Value.kind]
    · simp [definingCondition?, readSets, readSelector, readResult]
  case h_6 => cases shaped

/-- A posting that compares something compares its left side with a value of the same kind. The
elements of a set are compared one by one instead. -/
theorem exists_comparison {kind : Kind} (shaped : posting.isWellShaped = true)
    (compared : posting.comparedKind? = some kind) (whole : posting.primitive ≠ .setElements) :
    ∃ right : Value, right.kind = kind ∧
      (∀ left ∈ posting.leftSide? assignment, left.kind = kind) ∧
      posting.condition? assignment =
        posting.compareSides? (posting.leftSide? assignment) (some right) := by
  unfold isWellShaped at shaped
  split at shaped
  case h_1 connective primitive =>
    rw [condition?, primitive]
    exact exists_definingComparison assigned knows primitive shaped compared
  case h_2 left right primitive given =>
    simp only [Bool.and_eq_true, Option.isSome_iff_exists, beq_iff_eq] at shaped
    have leftKind : left.scalarKind? = some kind := by
      simpa [comparedKind?, primitive, given] using compared
    obtain ⟨value, readLeft, valueKind⟩ :=
      exists_scalarAt? assigned knows 0 (by rw [given]; rfl) leftKind
    obtain ⟨other, readRight, otherKind⟩ :=
      exists_scalarAt? assigned knows 1 (by rw [given]; rfl) (shaped.2.symm.trans leftKind)
    refine ⟨other, otherKind, ?_, ?_⟩
    · simp [leftSide?, primitive, readLeft, valueKind]
    · simp [condition?, leftSide?, compareSides?, primitive, readLeft, readRight]
  case h_7 operator left right result primitive given =>
    simp only [Bool.and_eq_true] at shaped
    obtain ⟨⟨leftScalar, rightScalar⟩, resultScalar⟩ := shaped
    have setKind : kind = .set := by
      simpa [comparedKind?, primitive, eq_comm] using compared
    obtain ⟨members, readLeft⟩ :=
      exists_setAt? assigned knows 0 (by rw [given]; rfl) leftScalar
    obtain ⟨others, readRight⟩ :=
      exists_setAt? assigned knows 1 (by rw [given]; rfl) rightScalar
    obtain ⟨value, readResult, valueKind⟩ :=
      exists_scalarAt? assigned knows 2 (by rw [given]; rfl) (eq_of_beq resultScalar)
    refine ⟨value, valueKind.trans setKind.symm, ?_, ?_⟩
    · simp [leftSide?, primitive, readLeft, readRight, Value.kind, setKind]
    · simp [condition?, leftSide?, primitive, readLeft, readRight, readResult]
  case h_8 members bound primitive _ => exact absurd primitive whole
  case h_9 => cases shaped
  all_goals simp [comparedKind?, *] at compared

end Comparison

end Posting

end ConstraintCompiler
