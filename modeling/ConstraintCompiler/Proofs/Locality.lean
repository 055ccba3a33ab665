import ConstraintCompiler.Proofs.Reading
import ConstraintCompiler.Search

/-!
Contract: which part of an assignment a posting reads.

Owns:
- `Assignment.ExtendsOn`, that an assignment keeps the values that listed variables have in another;
- `Posting.keeps_verdict`, that a verdict stays when the variables that its posting mentions keep
  their values, and `Posting.verdict_congr`, that it depends on nothing else;
- `Posting.verdict_append`, that values for these variables fix it, whatever values follow;
- `Posting.verdict_local_and_stable`, what this says for a search that assigns one variable after
  the other.

Does not own: that a verdict is decided at all.
-/

namespace ConstraintCompiler

def Assignment.ExtendsOn (first second : Assignment) (vs : List Variable) : Prop :=
  ∀ v ∈ vs, ∀ value, first v.id = some value → second v.id = some value

namespace Assignment.ExtendsOn

variable {first second : Assignment}

theorem subset {fewer more : List Variable} (extension : first.ExtendsOn second more)
    (subset : ∀ v ∈ fewer, v ∈ more) : first.ExtendsOn second fewer :=
  fun v member => extension v (subset v member)

theorem of_agree {vs : List Variable} (agree : ∀ v ∈ vs, first v.id = second v.id) :
    first.ExtendsOn second vs := by
  intro v member value found
  rw [← agree v member]
  exact found

end Assignment.ExtendsOn

section Extension

variable {first second : Assignment}

theorem Argument.keeps_scalar? {argument : Argument}
    (extension : first.ExtendsOn second argument.mentions) :
    Keeps (argument.scalar? first) (argument.scalar? second) := by
  cases argument with
  | var v => exact extension v (List.mem_singleton_self v)
  | _ => exact .refl _

theorem Argument.keeps_array? {argument : Argument}
    (extension : first.ExtendsOn second argument.mentions) :
    Keeps (argument.array? first) (argument.array? second) := by
  cases argument with
  | vars vs => exact .mapM extension
  | _ => exact .refl _

namespace Posting

variable {posting : Posting}

theorem mem_mentions_of_argument {argument : Argument} (member : argument ∈ posting.arguments)
    {v : Variable} (mentioned : v ∈ argument.mentions) : v ∈ posting.mentions :=
  List.mem_append_left _ (List.mem_flatMap.mpr ⟨argument, member, mentioned⟩)

/-- What a posting compares with a left side stays when the right side does. -/
theorem keeps_compareSides? (left : Option Value) {right later : Option Value}
    (kept : Keeps right later) :
    Keeps (posting.compareSides? left right) (posting.compareSides? left later) := by
  cases left with
  | none => exact .refl _
  | some value => exact (Keeps.refl _).bind fun relation => kept.bind fun _ => .refl _

section Reading

variable (extension : first.ExtendsOn second posting.mentions)

include extension

theorem keeps_scalar? {argument : Argument} (member : argument ∈ posting.arguments) :
    Keeps (argument.scalar? first) (argument.scalar? second) :=
  Argument.keeps_scalar? (extension.subset fun _ mentioned =>
    mem_mentions_of_argument member mentioned)

theorem keeps_scalarAt? (position : Nat) :
    Keeps (posting.scalarAt? first position) (posting.scalarAt? second position) := by
  unfold scalarAt?
  cases found : posting.arguments[position]? with
  | none => exact .refl _
  | some argument => exact keeps_scalar? extension (List.mem_of_getElem? found)

theorem keeps_intAt? (position : Nat) :
    Keeps (posting.intAt? first position) (posting.intAt? second position) :=
  (keeps_scalarAt? extension position).bind fun _ => .refl _

theorem keeps_setAt? (position : Nat) :
    Keeps (posting.setAt? first position) (posting.setAt? second position) :=
  (keeps_scalarAt? extension position).bind fun _ => .refl _

theorem keeps_arrayAt? (position : Nat) :
    Keeps (posting.arrayAt? first position) (posting.arrayAt? second position) := by
  unfold arrayAt?
  cases found : posting.arguments[position]? with
  | none => exact .refl _
  | some argument =>
      exact Argument.keeps_array? (extension.subset fun _ mentioned =>
        mem_mentions_of_argument (List.mem_of_getElem? found) mentioned)

theorem keeps_boolsAt? (position : Nat) :
    Keeps (posting.boolsAt? first position) (posting.boolsAt? second position) :=
  (keeps_arrayAt? extension position).bind fun _ => .refl _

theorem keeps_intsAt? (position : Nat) :
    Keeps (posting.intsAt? first position) (posting.intsAt? second position) :=
  (keeps_arrayAt? extension position).bind fun _ => .refl _

theorem keeps_setsAt? (position : Nat) :
    Keeps (posting.setsAt? first position) (posting.setsAt? second position) :=
  (keeps_arrayAt? extension position).bind fun _ => .refl _

theorem keeps_logicCondition? (operator : LogicOperator) :
    Keeps (logicCondition? operator posting first) (logicCondition? operator posting second) := by
  have sides : (∀ argument ∈ (logicSides operator posting.arguments).1,
        argument ∈ posting.arguments) ∧
      ∀ argument, (logicSides operator posting.arguments).2 = some argument →
        argument ∈ posting.arguments := by
    unfold logicSides
    split
    · exact ⟨fun _ member => List.dropLast_subset _ member, fun _ => List.mem_of_getLast?⟩
    · exact ⟨fun _ => List.mem_of_mem_take, fun _ => List.mem_of_getElem?⟩
  unfold logicCondition?
  generalize logicSides operator posting.arguments = found at sides
  obtain ⟨operands, result⟩ := found
  cases result with
  | none => exact .refl _
  | some argument =>
      have resultKept := keeps_scalar? extension (sides.2 argument rfl)
      have operandsKept : ∀ operand ∈ operands,
          Keeps ((operand.scalar? first) >>= Value.asBool?)
            ((operand.scalar? second) >>= Value.asBool?) :=
        fun operand member => (keeps_scalar? extension (sides.1 operand member)).bind
          fun _ => .refl _
      exact resultKept.bind fun _ => (Keeps.refl _).bind fun _ =>
        (Keeps.mapM operandsKept).bind fun _ => .refl _

theorem keeps_definingCondition? (connective : Connective) :
    Keeps (posting.definingCondition? first connective)
      (posting.definingCondition? second connective) := by
  cases connective with
  | logic operator => exact keeps_logicCondition? extension operator
  | aggregate =>
      exact (keeps_intsAt? extension 0).bind fun _ =>
        (keeps_scalarAt? extension 1).bind fun _ => .refl _
  | element =>
      exact (keeps_arrayAt? extension 0).bind fun _ =>
        (keeps_intAt? extension 1).bind fun _ =>
        (keeps_scalarAt? extension 2).bind fun _ => .refl _
  | count =>
      exact (keeps_intsAt? extension 0).bind fun _ =>
        (keeps_intAt? extension 1).bind fun _ =>
        (keeps_scalarAt? extension 2).bind fun _ => .refl _
  | selection =>
      exact (keeps_setsAt? extension 0).bind fun _ =>
        (keeps_setAt? extension 1).bind fun _ =>
        keeps_compareSides? _ (keeps_scalarAt? extension 2)

theorem keeps_channelCondition? (form : ChannelForm) :
    Keeps (posting.channelCondition? first form) (posting.channelCondition? second form) := by
  cases form with
  | boolInt =>
      exact (keeps_boolsAt? extension 0).bind fun _ =>
        (keeps_intAt? extension 1).bind fun _ => .refl _
  | boolSet =>
      exact (keeps_boolsAt? extension 0).bind fun _ =>
        (keeps_setAt? extension 1).bind fun _ => .refl _
  | intInt =>
      exact (keeps_intsAt? extension 0).bind fun _ =>
        (keeps_intsAt? extension 1).bind fun _ => .refl _
  | intSet =>
      exact (keeps_intsAt? extension 0).bind fun _ =>
        (keeps_setsAt? extension 1).bind fun _ => .refl _

/-- A condition stays when the variables that its posting mentions keep their values. -/
theorem keeps_condition? : Keeps (posting.condition? first) (posting.condition? second) := by
  unfold condition?
  split
  · exact keeps_definingCondition? extension _
  · exact (Keeps.refl _).bind fun _ => (keeps_scalarAt? extension 0).bind fun _ =>
      (keeps_scalarAt? extension 1).bind fun _ => .refl _
  · exact (keeps_intsAt? extension 0).bind fun _ => .refl _
  · exact (keeps_intsAt? extension 0).bind fun _ => .refl _
  · exact (keeps_arrayAt? extension 0).bind fun _ => .refl _
  · exact keeps_channelCondition? extension _
  · exact (keeps_setAt? extension 0).bind fun _ => (keeps_setAt? extension 1).bind fun _ =>
      keeps_compareSides? _ (keeps_scalarAt? extension 2)
  · exact (Keeps.refl _).bind fun _ => (Keeps.refl _).bind fun _ =>
      (keeps_intAt? extension 1).bind fun _ => (keeps_setAt? extension 0).bind fun _ => .refl _

theorem keeps_verdict : Keeps (posting.verdict first) (posting.verdict second) := by
  refine (keeps_condition? extension).bind fun condition => ?_
  cases found : posting.target with
  | none => exact .refl _
  | some target =>
      have kept : Keeps (first target.id) (second target.id) :=
        extension target (List.mem_append_right _ (by simp [found]))
      exact kept.bind fun _ => .refl _

end Reading

theorem verdict_congr (agree : ∀ v ∈ posting.mentions, first v.id = second v.id) :
    posting.verdict first = posting.verdict second :=
  (keeps_verdict (.of_agree agree)).antisymm
    (keeps_verdict (.of_agree fun v mentioned => (agree v mentioned).symm))

end Posting

end Extension

namespace Posting

variable {posting : Posting}

theorem lastMention?_eq_none_iff : posting.lastMention? = none ↔ posting.mentions = [] := by
  rw [lastMention?, List.max?_eq_none_iff, List.map_eq_nil_iff]

/-- The last mention is a mention, and no other is greater. -/
theorem lastMention?_eq_some_iff {last : Nat} :
    posting.lastMention? = some last ↔
      (∃ v ∈ posting.mentions, v.id = last) ∧ ∀ v ∈ posting.mentions, v.id ≤ last := by
  rw [lastMention?, List.max?_eq_some_iff, List.mem_map, List.forall_mem_map]

/-- Values for all variables that a posting mentions decide it, whatever values follow. -/
theorem verdict_append {values : List Value}
    (reaches : ∀ v ∈ posting.mentions, v.id < values.length) (rest : List Value) :
    posting.verdict (Search.assigning (values ++ rest)) =
      posting.verdict (Search.assigning values) :=
  verdict_congr fun v mentioned => List.getElem?_append_left (reaches v mentioned)

/-- The verdict on any posting, well shaped or not, depends only on the variables that it mentions,
and once there is one, it stays when more variables get values. Hence a verdict at the last
variable that the posting mentions is the verdict on every completion of the values so far. -/
theorem verdict_local_and_stable (posting : Posting) :
    (∀ first second : Assignment, (∀ v ∈ posting.mentions, first v.id = second v.id) →
        posting.verdict first = posting.verdict second) ∧
      (∀ first second : Assignment,
        (∀ id value, first id = some value → second id = some value) →
          ∀ truth, posting.verdict first = some truth → posting.verdict second = some truth) ∧
      ∀ values rest : List Value,
        (∀ last, posting.lastMention? = some last → last < values.length) →
          posting.verdict (Search.assigning (values ++ rest)) =
            posting.verdict (Search.assigning values) := by
  refine ⟨fun first second agree => verdict_congr agree, fun first second extension => ?_,
    fun values rest reaches => ?_⟩
  · exact keeps_verdict fun v _ value => extension v.id value
  · apply verdict_append
    intro v mentioned
    cases last : posting.lastMention? with
    | none =>
        rw [lastMention?_eq_none_iff.mp last] at mentioned
        exact absurd mentioned List.not_mem_nil
    | some depth =>
        have greatest := (lastMention?_eq_some_iff.mp last).2 v mentioned
        exact Nat.lt_of_le_of_lt greatest (reaches depth last)

def unitesDisjoint : Posting where
  primitive := .setOperation .disjointUnion
  arguments := [.var ⟨0, .set⟩, .var ⟨1, .set⟩, .var ⟨2, .set⟩]
  relation := some .eq

/-- Two sets that overlap settle the posting. Neither a value of the third variable nor one of a
variable that is not mentioned changes that. -/
theorem unitesDisjoint_stable :
    let overlapping : List Value := [.set (.ofList [1, 2]), .set (.ofList [2])]
    let complete : List Value := overlapping ++ [.set (.ofList [1, 2])]
    unitesDisjoint.lastMention? = some 2 ∧
      unitesDisjoint.verdict (Search.assigning overlapping) = some false ∧
      unitesDisjoint.verdict (Search.assigning complete) = some false ∧
      ∀ truth, unitesDisjoint.verdict (Search.assigning (complete ++ [.bool truth])) =
        unitesDisjoint.verdict fun id => if id < 3 then complete[id]? else none := by
  intro overlapping complete
  obtain ⟨isLocal, isStable, isFixed⟩ := verdict_local_and_stable unitesDisjoint
  have settled : unitesDisjoint.verdict (Search.assigning overlapping) = some false := by decide
  have last : unitesDisjoint.lastMention? = some 2 := rfl
  have extension : ∀ id value, Search.assigning overlapping id = some value →
      Search.assigning complete id = some value :=
    fun _ _ found => getElem?_append_of_some found _
  refine ⟨last, settled, isStable _ _ extension false settled, fun truth => ?_⟩
  rw [isFixed complete [.bool truth] (by simp [last, complete, overlapping])]
  apply isLocal
  intro v mentioned
  have small : v.id < 3 := by
    have := (lastMention?_eq_some_iff.mp last).2 v mentioned
    omega
  simp [Search.assigning, small]

end Posting

end ConstraintCompiler
