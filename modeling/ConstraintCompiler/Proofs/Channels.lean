import ConstraintCompiler.Proofs.Relations
import Mathlib.Data.List.FinRange
import Mathlib.Data.Set.Lattice
import Mathlib.Logic.Equiv.Basic

/-!
Contract: what channels say of whole arrays.

Owns:
- for three of the channels, the equivalence that they demand at every position;
- `Channel.AreInverse`, that two arrays list a permutation and its inverse, which a channel between
  arrays of integers states of arrays of one length;
- `Channel.PartitionsAlong`, that sets divide the positions of an array as its items say, which a
  channel to an array of sets states;
- that a channel to an integer allows one flag at most, at a position that is found without bounds
  on the numbers;
- `Posting.channel_structure`: a channel is decided, and states this.

Does not own: arrays whose items are no positions of the other side.
-/

namespace ConstraintCompiler

theorem all_zipIdx_iff {α : Type} {items : List α} {test : α × Nat → Bool} :
    items.zipIdx.all test = true ↔
      ∀ position : Fin items.length, test (items.get position, position) = true := by
  rw [List.all_eq_true]
  constructor
  · intro all position
    exact all _ (List.mk_mem_zipIdx_iff_getElem?.mpr (List.getElem?_eq_getElem position.isLt))
  · rintro all ⟨item, position⟩ member
    obtain ⟨within, rfl⟩ :=
      List.getElem?_eq_some_iff.mp (List.mk_mem_zipIdx_iff_getElem?.mp member)
    exact all ⟨position, within⟩

theorem agree_iff {first second : Bool} :
    (first == second) = true ↔ (first = true ↔ second = true) := by
  rw [beq_iff_eq, Bool.eq_iff_iff]

namespace Channel

/-! ### Equivalences at every position -/

theorem intInt_iff {left right : List Int} :
    intInt left right = true ↔ ∀ (first : Fin left.length) (second : Fin right.length),
      left.get first = second ↔ right.get second = first := by
  simp only [intInt, all_zipIdx_iff, agree_iff]
  simp only [beq_iff_eq]

theorem intSet_iff {items : List Int} {sets : List IntSet} :
    intSet items sets = true ↔ ∀ (position : Fin items.length) (place : Fin sets.length),
      items.get position = place ↔ ((position : Nat) : Int) ∈ sets.get place := by
  simp only [intSet, all_zipIdx_iff, agree_iff]
  simp only [beq_iff_eq, decide_eq_true_eq]

/-- A sum that does not fit is not the given integer, which fits. -/
theorem boolInt_iff {flags : List Bool} {number offset : Int} (fits : Representable number) :
    boolInt flags number offset = true ↔
      ∀ position : Fin flags.length, flags.get position = true ↔ number = position + offset := by
  have reaches : ∀ position : Nat,
      add? position offset = some number ↔ number = position + offset := by
    intro position
    rw [add?_eq_some_iff]
    exact ⟨fun sum => sum.2.symm, fun same => ⟨fits, same.symm⟩⟩
  simp only [boolInt, all_zipIdx_iff, agree_iff]
  simp only [beq_iff_eq, reaches]

/-! ### Inverse permutations -/

/-- The arrays list the values of a permutation of the numbers below the count, and of its
inverse. -/
def AreInverse (count : Nat) (left right : List Int) : Prop :=
  ∃ permutation : Equiv.Perm (Fin count),
    left = List.ofFn (fun position => ((permutation position : Nat) : Int)) ∧
      right = List.ofFn (fun position => ((permutation.symm position : Nat) : Int))

/-- An array of numbers below a bound lists the values of a function. -/
theorem exists_eq_ofFn {items : List Int} {count bound : Nat} (length : items.length = count)
    (inRange : ∀ number ∈ items, 0 ≤ number ∧ number < bound) :
    ∃ values : Fin count → Fin bound,
      items = List.ofFn fun position => ((values position : Nat) : Int) := by
  subst length
  have small : ∀ position : Fin items.length, 0 ≤ items.get position ∧ items.get position < bound :=
    fun position => inRange _ (List.get_mem items position)
  refine ⟨fun position => ⟨(items.get position).toNat, by have := small position; omega⟩, ?_⟩
  refine List.ext_getElem (by simp) fun position within _ => ?_
  rw [List.getElem_ofFn]
  exact (Int.toNat_of_nonneg (small ⟨position, within⟩).1).symm

/-- Between arrays that list the values of functions, a channel states that these are each other's
inverse. -/
theorem intInt_ofFn_iff {count : Nat} {forward backward : Fin count → Fin count} :
    intInt (List.ofFn fun position => ((forward position : Nat) : Int))
        (List.ofFn fun position => ((backward position : Nat) : Int)) = true ↔
      ∀ first second, forward first = second ↔ backward second = first := by
  simp only [intInt_iff, Fin.forall_iff, List.length_ofFn, List.get_eq_getElem, List.getElem_ofFn,
    Int.natCast_inj, Fin.ext_iff]

theorem intInt_iff_areInverse {count : Nat} {left right : List Int}
    (leftLength : left.length = count) (rightLength : right.length = count)
    (leftInRange : ∀ number ∈ left, 0 ≤ number ∧ number < count)
    (rightInRange : ∀ number ∈ right, 0 ≤ number ∧ number < count) :
    intInt left right = true ↔ AreInverse count left right := by
  constructor
  · obtain ⟨forward, rfl⟩ := exists_eq_ofFn leftLength leftInRange
    obtain ⟨backward, rfl⟩ := exists_eq_ofFn rightLength rightInRange
    intro holds
    have inverse := intInt_ofFn_iff.mp holds
    refine ⟨⟨forward, backward, fun first => ?_, fun second => ?_⟩, rfl, rfl⟩
    · exact (inverse first _).mp rfl
    · exact (inverse _ second).mpr rfl
  · rintro ⟨permutation, rfl, rfl⟩
    refine intInt_ofFn_iff.mpr fun first second => ?_
    rw [← permutation.eq_symm_apply]
    exact eq_comm

theorem AreInverse.nodup {count : Nat} {left right : List Int}
    (inverse : AreInverse count left right) : left.Nodup ∧ right.Nodup := by
  obtain ⟨permutation, rfl, rfl⟩ := inverse
  have lists : ∀ other : Equiv.Perm (Fin count),
      (List.ofFn fun position => ((other position : Nat) : Int)).Nodup := by
    intro other
    refine List.nodup_ofFn.mpr fun first second same => ?_
    exact other.injective (Fin.ext (Int.ofNat.inj same))
  exact ⟨lists permutation, lists permutation.symm⟩

/-! ### Partitions -/

/-- Restricted to the positions of the items, the sets have no position in common and leave none
out, and every position is in the set that its item names. -/
structure PartitionsAlong (items : List Int) (sets : List IntSet) : Prop where
  separate : Pairwise fun first second : Fin sets.length =>
    (sets.get first).positionsBelow items.length ∩ (sets.get second).positionsBelow items.length = ∅
  covers : ⋃ place : Fin sets.length, (sets.get place).positionsBelow items.length = Set.univ
  along : ∀ position : Fin items.length, ∃ place : Fin sets.length,
    items.get position = place ∧ position ∈ (sets.get place).positionsBelow items.length

def NamesOnlySet (items : List Int) (sets : List IntSet) : Prop :=
  ∀ position : Fin items.length, ∃ place : Fin sets.length,
    items.get position = place ∧ ((position : Nat) : Int) ∈ sets.get place ∧
      ∀ other : Fin sets.length, other ≠ place → ((position : Nat) : Int) ∉ sets.get other

theorem intSet_iff_namesOnlySet {items : List Int} {sets : List IntSet}
    (inRange : ∀ number ∈ items, 0 ≤ number ∧ number < sets.length) :
    intSet items sets = true ↔ NamesOnlySet items sets := by
  rw [intSet_iff]
  constructor
  · intro equivalent position
    have small := inRange _ (List.get_mem items position)
    have named : items.get position = ((items.get position).toNat : Int) :=
      (Int.toNat_of_nonneg small.1).symm
    refine ⟨⟨(items.get position).toNat, by omega⟩, named, (equivalent position _).mp named,
      fun other different member => different (Fin.ext ?_)⟩
    exact Int.ofNat.inj (((equivalent position other).mpr member).symm.trans named)
  · intro names position place
    obtain ⟨named, item, member, apart⟩ := names position
    constructor
    · intro same
      have samePlace : place = named := Fin.ext (Int.ofNat.inj (same.symm.trans item))
      exact samePlace ▸ member
    · intro inPlace
      by_cases samePlace : place = named
      · exact samePlace ▸ item
      · exact absurd inPlace (apart place samePlace)

theorem namesOnlySet_iff_partitionsAlong {items : List Int} {sets : List IntSet} :
    NamesOnlySet items sets ↔ PartitionsAlong items sets := by
  constructor
  · intro names
    refine ⟨fun first second different => Set.eq_empty_of_forall_notMem ?_,
      Set.eq_univ_of_forall fun position => ?_, fun position => ?_⟩
    · rintro position ⟨inFirst, inSecond⟩
      obtain ⟨place, _, _, apart⟩ := names position
      have firstPlace : first = place := by
        by_contra other
        exact apart first other inFirst
      have secondPlace : second = place := by
        by_contra other
        exact apart second other inSecond
      exact different (firstPlace.trans secondPlace.symm)
    · obtain ⟨place, _, member, _⟩ := names position
      exact Set.mem_iUnion.mpr ⟨place, member⟩
    · obtain ⟨place, item, member, _⟩ := names position
      exact ⟨place, item, member⟩
  · intro partitions position
    obtain ⟨place, item, member⟩ := partitions.along position
    refine ⟨place, item, member, fun other different inOther => ?_⟩
    have both : position ∈ (sets.get other).positionsBelow items.length ∩
        (sets.get place).positionsBelow items.length := ⟨inOther, member⟩
    rw [partitions.separate different] at both
    exact both

/-! ### One flag -/

section Flags

variable {flags : List Bool} {number offset : Int}
  (set : ∀ position : Fin flags.length, flags.get position = true ↔ number = position + offset)

include set

theorem position_unique {first second : Fin flags.length} (firstSet : flags.get first = true)
    (secondSet : flags.get second = true) : first = second := by
  have firstNumber := (set first).mp firstSet
  have secondNumber := (set second).mp secondSet
  omega

/-- No flag is set when the integer lies outside the positions that the offset moves. -/
theorem all_false_of_outside
    (outside : ¬(0 ≤ number - offset ∧ number - offset < flags.length)) :
    ∀ flag ∈ flags, flag = false := by
  intro flag member
  obtain ⟨position, within, rfl⟩ := List.mem_iff_getElem.mp member
  rw [Bool.eq_false_iff]
  intro flagSet
  have numberAt := (set ⟨position, within⟩).mp flagSet
  exact outside ⟨by simp only [numberAt]; omega, by simp only [numberAt]; omega⟩

end Flags

end Channel

namespace Posting

/-- The posting ties two arrays of integers, which it reads from the assignment. -/
structure TiesPositions (posting : Posting) (assignment : Assignment) (left right : List Int) :
    Prop where
  primitive_eq : posting.primitive = .channel .intInt
  left_eq : posting.intsAt? assignment 0 = some left
  right_eq : posting.intsAt? assignment 1 = some right

structure TiesSets (posting : Posting) (assignment : Assignment) (items : List Int)
    (sets : List IntSet) : Prop where
  primitive_eq : posting.primitive = .channel .intSet
  items_eq : posting.intsAt? assignment 0 = some items
  sets_eq : posting.setsAt? assignment 1 = some sets

structure TiesFlags (posting : Posting) (assignment : Assignment) (flags : List Bool)
    (number offset : Int) : Prop where
  primitive_eq : posting.primitive = .channel .boolInt
  flags_eq : posting.boolsAt? assignment 0 = some flags
  number_eq : posting.intAt? assignment 1 = some number
  offset_eq : posting.arguments[2]? = some (.int offset)

section Condition

variable {posting : Posting} {assignment : Assignment}

theorem TiesPositions.condition? {left right : List Int}
    (ties : posting.TiesPositions assignment left right) :
    posting.condition? assignment = some (Channel.intInt left right) := by
  simp [Posting.condition?, ties.primitive_eq, channelCondition?, ties.left_eq, ties.right_eq]

theorem TiesSets.condition? {items : List Int} {sets : List IntSet}
    (ties : posting.TiesSets assignment items sets) :
    posting.condition? assignment = some (Channel.intSet items sets) := by
  simp [Posting.condition?, ties.primitive_eq, channelCondition?, ties.items_eq, ties.sets_eq]

theorem TiesFlags.condition? {flags : List Bool} {number offset : Int}
    (ties : posting.TiesFlags assignment flags number offset) :
    posting.condition? assignment = some (Channel.boolInt flags number offset) := by
  simp [Posting.condition?, ties.primitive_eq, channelCondition?, ties.flags_eq, ties.number_eq,
    ties.offset_eq, Argument.constant?]

end Condition

/-- A channel is decided. Between arrays of integers of one length, whose items are positions, it is
true exactly when they are inverse permutations, which repeat no item. Between integers and sets,
where every item is the position of a set, it is true exactly when every position is in the set that
its item names and in no other; so the sets partition the positions along the items. Between flags
and an integer it is true exactly when the set flags are those whose position and the offset add up
to the integer, without bounds; so at most one is set, and none when no position can be reached. -/
theorem channel_structure (posting : Posting) (assignment : Assignment) :
    (∀ (count : Nat) (left right : List Int), posting.TiesPositions assignment left right →
        left.length = count → right.length = count →
          (∀ number ∈ left, 0 ≤ number ∧ number < count) →
            (∀ number ∈ right, 0 ≤ number ∧ number < count) →
              ∃ truth, posting.condition? assignment = some truth ∧
                (truth = true ↔ Channel.AreInverse count left right) ∧
                (truth = true → left.Nodup ∧ right.Nodup)) ∧
      (∀ (items : List Int) (sets : List IntSet), posting.TiesSets assignment items sets →
        (∀ number ∈ items, 0 ≤ number ∧ number < sets.length) →
          ∃ truth, posting.condition? assignment = some truth ∧
            (truth = true ↔ Channel.NamesOnlySet items sets) ∧
            (truth = true ↔ Channel.PartitionsAlong items sets)) ∧
      ∀ (flags : List Bool) (number offset : Int),
        posting.TiesFlags assignment flags number offset → Representable number →
          ∃ truth, posting.condition? assignment = some truth ∧
            (truth = true ↔ ∀ position : Fin flags.length,
              flags.get position = true ↔ number = position + offset) ∧
            (truth = true →
              (∀ first second : Fin flags.length,
                flags.get first = true → flags.get second = true → first = second) ∧
              (¬(0 ≤ number - offset ∧ number - offset < flags.length) →
                ∀ flag ∈ flags, flag = false)) := by
  refine ⟨?_, ?_, ?_⟩
  · intro count left right ties leftLength rightLength leftInRange rightInRange
    have inverse :=
      Channel.intInt_iff_areInverse leftLength rightLength leftInRange rightInRange
    exact ⟨_, ties.condition?, inverse, fun holds => (inverse.mp holds).nodup⟩
  · intro items sets ties inRange
    have names := Channel.intSet_iff_namesOnlySet inRange
    exact ⟨_, ties.condition?, names, names.trans Channel.namesOnlySet_iff_partitionsAlong⟩
  · intro flags number offset ties fits
    have sets : Channel.boolInt flags number offset = true ↔ _ := Channel.boolInt_iff fits
    refine ⟨_, ties.condition?, sets, fun holds => ⟨?_, ?_⟩⟩
    · exact fun _ _ => Channel.position_unique (sets.mp holds)
    · exact Channel.all_false_of_outside (sets.mp holds)

def valuesAtLimit : Assignment := fun id =>
  [ Value.bool true, .bool false, .int 9223372036854775807, .int 1, .int 0,
    .set (.ofList [1, 4]), .set (.ofList [0, -3]) ][id]?

def tiesFlagsAtLimit : Posting where
  primitive := .channel .boolInt
  arguments :=
    [.vars [⟨0, .bool⟩, ⟨1, .bool⟩], .var ⟨2, .int⟩, .int 9223372036854775807]

def tiesPair : Posting where
  primitive := .channel .intInt
  arguments := [.vars [⟨3, .int⟩, ⟨4, .int⟩], .vars [⟨3, .int⟩, ⟨4, .int⟩]]

def tiesPairToSets : Posting where
  primitive := .channel .intSet
  arguments := [.vars [⟨3, .int⟩, ⟨4, .int⟩], .vars [⟨5, .set⟩, ⟨6, .set⟩]]

/-- At the greatest offset, the sum for the second flag does not fit. Two positions that name each
other are an inverse pair, and the sets at them divide them. -/
theorem tiesPair_structure :
    tiesFlagsAtLimit.condition? valuesAtLimit = some true ∧
      Channel.AreInverse 2 [1, 0] [1, 0] ∧
      Channel.PartitionsAlong [1, 0] [.ofList [1, 4], .ofList [0, -3]] := by
  refine ⟨?_, ?_, ?_⟩
  · obtain ⟨truth, condition, holds, _⟩ :=
      (channel_structure tiesFlagsAtLimit valuesAtLimit).2.2 [true, false] 9223372036854775807
        9223372036854775807 ⟨rfl, rfl, rfl, rfl⟩ (by decide)
    rw [condition, holds.mpr (by decide)]
  · obtain ⟨truth, condition, inverse, _⟩ :=
      (channel_structure tiesPair valuesAtLimit).1 2 [1, 0] [1, 0] ⟨rfl, rfl, rfl⟩ rfl rfl
        (by decide) (by decide)
    cases condition
    exact inverse.mp rfl
  · obtain ⟨truth, condition, _, partitions⟩ :=
      (channel_structure tiesPairToSets valuesAtLimit).2.1 [1, 0]
        [.ofList [1, 4], .ofList [0, -3]] ⟨rfl, rfl, rfl⟩ (by decide)
    cases condition
    exact partitions.mp rfl

end Posting

end ConstraintCompiler
