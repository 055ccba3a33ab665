import ConstraintCompiler.Proofs.Limits
import Mathlib.Algebra.Order.BigOperators.Group.Finset

/-!
Contract: a search depends on what its postings state, and on nothing else about them.

Owns:
- `Posting.plain`, a posting without the annotations that have no effect on what is true, and
  `Posting.StateSame`, that lists of postings differ at most in order, repetitions and these;
- `Search.explore_congr`, that a search looks at a level only through its candidates and through
  which values it admits;
- `Search.run_by_statements`: lists of postings that state the same give the same search, and more
  postings keep those solutions under which they are true.

Does not own: the order in which candidates are tried.
-/

namespace ConstraintCompiler

namespace Posting

def plain (posting : Posting) : Posting :=
  { posting with strength := .default, priority := none }

theorem verdict_plain (posting : Posting) (assignment : Assignment) :
    posting.plain.verdict assignment = posting.verdict assignment := rfl

/-- The lists have the same postings, up to order, repetitions, and annotations that tell a solver
how to propagate. -/
def StateSame (first second : List Posting) : Prop :=
  ∀ posting, posting ∈ first.map plain ↔ posting ∈ second.map plain

namespace StateSame

variable {first second : List Posting} (same : StateSame first second)

include same

theorem symm : StateSame second first := fun posting => (same posting).symm

/-- Checks that ignore annotations succeed on both lists or on neither. -/
theorem all_filter {selects holds : Posting → Bool}
    (selectsPlain : ∀ posting, selects posting.plain = selects posting)
    (holdsPlain : ∀ posting, holds posting.plain = holds posting) :
    (first.filter selects).all holds = (second.filter selects).all holds := by
  have transfer : ∀ {first second : List Posting}, StateSame first second →
      (first.filter selects).all holds = true → (second.filter selects).all holds = true := by
    intro first second same checked
    simp only [List.all_eq_true, List.mem_filter, and_imp] at checked ⊢
    intro posting member selected
    obtain ⟨other, otherMember, plainSame⟩ :=
      List.mem_map.mp ((same posting.plain).mpr (List.mem_map_of_mem member))
    rw [← holdsPlain, ← plainSame, holdsPlain]
    apply checked other otherMember
    rw [← selectsPlain, plainSame, selectsPlain, selected]
  rw [Bool.eq_iff_iff]
  exact ⟨transfer same, transfer same.symm⟩

end StateSame

end Posting

namespace Search

/-! ### Levels -/

structure Level.Alike (first second : Level) : Prop where
  candidates : first.candidates = second.candidates
  admits : ∀ values, first.admits values = second.admits values

/-- A search looks at a level only through its candidates and through the values that it admits. -/
theorem explore_congr {first second : List Level} (alike : List.Forall₂ Level.Alike first second)
    (settings : Settings) (values : List Value) (progress : Progress) :
    explore settings first values progress = explore settings second values progress := by
  induction alike generalizing values progress with
  | nil => rfl
  | cons head _ inductionHypothesis =>
      simp only [explore, head.candidates, head.admits, inductionHypothesis]

section StateSame

variable {first second : List Posting} (same : Posting.StateSame first second)

include same

theorem constantsHold_congr : constantsHold first = constantsHold second :=
  same.all_filter (fun _ => rfl) fun posting =>
    congrArg (· == some true) (posting.verdict_plain _)

theorem levels_alike (lists : List (List Value)) :
    List.Forall₂ Level.Alike (levels lists first) (levels lists second) := by
  rw [levels, levels, List.forall₂_map_left_iff, List.forall₂_map_right_iff, List.forall₂_same]
  intro entry _
  exact ⟨rfl, fun values => same.all_filter (fun _ => rfl) fun posting =>
    congrArg (· == some true) (posting.verdict_plain _)⟩

theorem runOn_congr (settings : Settings) (lists : List (List Value)) :
    runOn settings lists first = runOn settings lists second := by
  rw [runOn, runOn, constantsHold_congr same, explore_congr (levels_alike same lists)]

end StateSame

/-! ### More postings -/

theorem consistent_append (first second : List Posting) (values : List Value) :
    consistent (first ++ second) values =
      (consistent first values && consistent second values) :=
  List.all_append

/-- Where all mentioned variables have values, consistency is the truth of all postings. -/
theorem consistent_eq_all {postings : List Posting} {values : List Value}
    (reaches : ∀ posting ∈ postings, ∀ v ∈ posting.mentions, v.id < values.length) :
    consistent postings values =
      postings.all fun posting => posting.verdict (assigning values) == some true := by
  rw [Bool.eq_iff_iff, consistent_iff]
  simp only [List.all_eq_true, beq_iff_eq]
  exact forall₂_congr fun posting member =>
    ⟨fun holds => holds (reaches posting member), fun holds _ => holds⟩

/-- A search needs no more nodes for more postings. -/
theorem nodeCount_append_le (lists : List (List Value)) (postings added : List Posting) :
    nodeCount lists (postings ++ added) ≤ nodeCount lists postings := by
  apply Finset.sum_le_sum
  intro depth _
  apply Nat.mul_le_mul_right
  have narrower : (product (lists.take depth)).filter (consistent (postings ++ added)) =
      ((product (lists.take depth)).filter (consistent postings)).filter (consistent added) := by
    rw [List.filter_filter]
    exact List.filter_congr fun values _ => by rw [consistent_append, Bool.and_comm]
  rw [narrower]
  exact List.length_filter_le _ _

/-- More postings keep, of the members of the product, those under which they are true. -/
theorem filter_product_append {domains : List Domain} {lists : List (List Value)}
    (enumerate : List.Forall₂ Enumerates domains lists) (postings : List Posting)
    {added : List Posting}
    (known : ∀ posting ∈ added, ∀ v ∈ posting.mentions, v.id < domains.length) :
    (product lists).filter (consistent (postings ++ added)) =
      ((product lists).filter (consistent postings)).filter fun values =>
        added.all fun posting => posting.verdict (assigning values) == some true := by
  rw [List.filter_filter]
  apply List.filter_congr
  intro values member
  have length := ((mem_product_iff enumerate).mp member).length_eq
  have decided : consistent added values =
      added.all fun posting => posting.verdict (assigning values) == some true := by
    apply consistent_eq_all
    intro posting isAdded v mentioned
    rw [← length]
    exact known posting isAdded v mentioned
  rw [consistent_append, Bool.and_comm, decided]

/-! ### Searches -/

/-- A search of given lists for more postings keeps, of the solutions, those under which they are
true. -/
theorem solutions_runOn_append {settings : Settings} (unlimited : settings.maxSolutions = 0)
    {domains : List Domain} {lists : List (List Value)}
    (enumerate : List.Forall₂ Enumerates domains lists) {postings added : List Posting}
    (known : ∀ posting ∈ added, ∀ v ∈ posting.mentions, v.id < domains.length)
    (finished : ¬(runOn settings lists postings).1.IsCut) :
    (runOn settings lists (postings ++ added)).1.solutions =
      (runOn settings lists postings).1.solutions.filter fun solution =>
        added.all fun posting => posting.verdict (assigning solution.values) == some true := by
  have enough := nodeCount_le_of_not_isCut unlimited finished
  have enoughLater := (nodeCount_append_le lists postings added).trans enough
  rw [runOn_of_unlimited unlimited enough, runOn_of_unlimited unlimited enoughLater,
    filter_product_append enumerate postings known, List.filter_map]
  rfl

/-- A search sees of the postings of a problem only what they state: order, repetitions, strength
and priority make no difference to it. Once a search without limits or seed has listed all
solutions, posting more keeps those under which the added postings are true, in their order. -/
theorem run_by_statements (settings : Settings) (problem : Problem) :
    (∀ other : Problem, other.domains = problem.domains →
        Posting.StateSame other.postings problem.postings →
          run settings other = run settings problem) ∧
      ∀ added : List Posting, (∀ posting ∈ added, problem.objection? posting = none) →
        settings.seed = none → settings.maxSolutions = 0 → ¬(run settings problem).1.IsCut →
          (run settings { problem with postings := problem.postings ++ added }).1.solutions =
            (run settings problem).1.solutions.filter fun solution =>
              added.all fun posting =>
                posting.verdict (assigning solution.values) == some true := by
  constructor
  · intro other domains same
    rw [run, run, domains]
    simp only [runOn_congr same]
  · intro added accepted unseeded unlimited finished
    cases valid : settings.fault? with
    | some fault => simp [run, valid]
    | none =>
        cases listed : candidateLists settings.maxDomainSize problem.domains with
        | error oversize => simp [run, valid, listed]
        | ok lists =>
            have searched : ∀ postings,
                (run settings { problem with postings }).1 = (runOn settings lists postings).1 := by
              intro postings
              have listedAlike : candidateLists settings.maxDomainSize
                  ({ problem with postings } : Problem).domains = .ok lists := listed
              rw [run_of_listed valid listedAlike, unseeded]
              rfl
            rw [searched problem.postings] at finished ⊢
            rw [searched]
            refine solutions_runOn_append unlimited (candidateLists_spec listed) ?_ finished
            intro posting isAdded v mentioned
            have known := (Problem.objection?_eq_none_iff.mp (accepted posting isAdded)).1
            obtain ⟨domain, found, _⟩ :=
              Problem.variableObjection?_eq_none_iff.mp (known v mentioned)
            exact (List.getElem?_eq_some_iff.mp found).1

def statesBound : Posting where
  primitive := .relation
  arguments := [.var ⟨1, .bool⟩, .bool true]
  relation := some .eq

theorem boundOne_by_statements :
    (run {} ⟨boundOne.domains, [{ statesConstant with strength := .bounds }, bindsBound,
        { bindsBound with priority := some .speed }]⟩ = run {} boundOne) ∧
      (run { maxSolutions := 0 }
          { boundOne with postings := boundOne.postings ++ [statesBound] }).1.solutions =
        [⟨[.int 0, .bool true]⟩, ⟨[.int 1, .bool true]⟩] := by
  constructor
  · refine (run_by_statements {} boundOne).1 _ rfl fun posting => ?_
    simp [Posting.plain, boundOne, bindsBound, statesConstant, or_comm]
  · have filtered := (run_by_statements { maxSolutions := 0 } boundOne).2 [statesBound]
      (by decide) rfl rfl (by decide)
    exact filtered.trans (by decide)

end Search

end ConstraintCompiler
