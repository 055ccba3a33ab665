import ConstraintCompiler.Proofs.Bounds
import ConstraintCompiler.Proofs.Enumeration

/-!
Contract: how many values a domain has, and in which order search lists them.

Owns:
- `Domain.count`, the number of values of a domain, and `Search.Enumerates.length_eq_count`, that it
  is one;
- `Domain.HasAt`, which value of a domain has which position in its list;
- `Search.ListsInOrder`, that a list has each value at its position, and none after the last;
- `Search.candidateLists_exact`: every list that is made enumerates its domain in this order.

Does not own: which domains are too large to be listed.
-/

namespace ConstraintCompiler

namespace Domain

def count : Domain → Nat
  | .bool => 2
  | .int least greatest => (greatest + 1 - least).toNat
  | .set required possible =>
      if required.isSubset possible then 2 ^ (possible.difference required).size else 0

/-- The value belongs at the position in the list of the domain. False comes before true, and
integers ascend. Sets count in binary: the set at a position consists of the required elements and
of the free ones whose digit in the position is one, where the smallest free element has the lowest
digit. -/
def HasAt : Domain → Nat → Value → Prop
  | .bool, position, .bool truth => truth = (position == 1)
  | .int least _, position, .int number => number = least + position
  | .set required possible, position, .set members =>
      ∀ element, element ∈ members ↔ element ∈ required ∨
        ∃ digit, (possible.difference required).elements[digit]? = some element ∧
          position.testBit digit = true
  | _, _, _ => False

end Domain

namespace Search

structure ListsInOrder (domain : Domain) (values : List Value) : Prop where
  length_eq : values.length = domain.count
  value_at : ∀ position value, values[position]? = some value → domain.HasAt position value

/-! ### Sets by position -/

theorem mem_pick {elements : List Int} {mask : Nat} {element : Int} :
    element ∈ pick elements mask ↔
      ∃ digit, elements[digit]? = some element ∧ mask.testBit digit = true := by
  induction elements generalizing mask with
  | nil => simp [pick]
  | cons head rest inductionHypothesis =>
      rw [← Nat.or_exists_add_one, pick]
      simp only [List.getElem?_cons_zero, List.getElem?_cons_succ, Option.some.injEq,
        Nat.testBit_zero, Nat.testBit_succ, decide_eq_true_eq, ← inductionHypothesis]
      split
      · simp [*]
      · have odd : mask % 2 = 1 := by omega
        simp [odd, eq_comm]

theorem getElem?_choices {elements chosen : List Int} {position : Nat} :
    (choices elements)[position]? = some chosen ↔
      position < 2 ^ elements.length ∧ pick elements position = chosen := by
  simp [choices_eq_map_pick, List.getElem?_eq_some_iff]

/-! ### Candidates by position -/

private theorem listsInOrder_int (least greatest : Int) :
    ListsInOrder (.int least greatest) ((IntSet.interval least greatest).elements.map .int) where
  length_eq := by
    rw [List.length_map]
    exact IntSet.size_interval least greatest
  value_at position value found := by
    obtain ⟨_, rfl⟩ := List.getElem?_eq_some_iff.mp found
    simp [IntSet.interval, Domain.HasAt]

private theorem listsInOrder_set {required possible : IntSet}
    (subset : required.isSubset possible = true) :
    ListsInOrder (.set required possible)
      ((choices (possible.difference required).elements).map fun chosen =>
        .set (required.union (.ofList chosen))) where
  length_eq := by
    rw [List.length_map, length_choices, Domain.count, if_pos subset]
    rfl
  value_at position value found := by
    rw [List.getElem?_map, Option.map_eq_some_iff] at found
    obtain ⟨chosen, found, rfl⟩ := found
    obtain ⟨_, rfl⟩ := getElem?_choices.mp found
    intro element
    rw [IntSet.mem_union, IntSet.mem_ofList, mem_pick]

theorem listing_ordered (domain : Domain) : ListsInOrder domain (listing domain) := by
  cases domain with
  | bool =>
      refine ⟨rfl, fun position value found => ?_⟩
      match position, found with
      | 0, rfl => rfl
      | 1, rfl => rfl
  | int least greatest => exact listsInOrder_int least greatest
  | set required possible =>
      rw [listing]
      split
      · rename_i subset
        exact listsInOrder_set subset
      · rename_i escapes
        refine ⟨?_, fun position value found => by simp at found⟩
        rw [Domain.count, if_neg escapes, List.length_nil]

theorem Enumerates.eq_nil_iff {domain : Domain} {values : List Value}
    (enumerates : Enumerates domain values) : values = [] ↔ domain.isEmpty = true := by
  rw [Domain.isEmpty_iff, List.eq_nil_iff_forall_not_mem]
  simp only [enumerates.mem_iff]

/-- The count is the length of every list of all values without repetition. -/
theorem Enumerates.length_eq_count {domain : Domain} {values : List Value}
    (enumerates : Enumerates domain values) : values.length = domain.count := by
  have listed := enumerates_listing domain
  have same : values.Perm (listing domain) := by
    rw [List.perm_ext_iff_of_nodup enumerates.nodup listed.nodup]
    exact fun value => (enumerates.mem_iff value).trans (listed.mem_iff value).symm
  rw [same.length_eq, (listing_ordered domain).length_eq]

/-- Whenever all domains are listed, each list has exactly the values of its domain, each once and
at the position where it belongs, and is empty exactly when the domain is. -/
theorem candidateLists_exact {maxSize : Nat} {domains : List Domain} {lists : List (List Value)}
    (listed : candidateLists maxSize domains = .ok lists) :
    List.Forall₂ (fun domain values => Enumerates domain values ∧ ListsInOrder domain values ∧
      (values = [] ↔ domain.isEmpty = true)) domains lists := by
  refine forall₂_of_candidateLists (fun domain => ?_) listed
  have enumerates := enumerates_listing domain
  exact ⟨enumerates, listing_ordered domain, enumerates.eq_nil_iff⟩

def mixedDomains : List Domain :=
  [.bool, .int 3 2, .int (-1) 1, .set (.ofList [5]) (.ofList [9, 5, 1]),
    .set (.ofList [4]) (.ofList [5])]

/-- The free elements of the fourth domain are one, with the lowest digit, and nine. -/
def mixedLists : List (List Value) :=
  [[.bool false, .bool true], [], [.int (-1), .int 0, .int 1],
    [.set (.ofList [5]), .set (.ofList [1, 5]), .set (.ofList [5, 9]), .set (.ofList [1, 5, 9])],
    []]

theorem mixedDomains_listed :
    candidateLists 4 mixedDomains = .ok mixedLists ∧
      List.Forall₂ ListsInOrder mixedDomains mixedLists ∧
      ∀ values ∈ mixedLists, values.Nodup := by
  have listed : candidateLists 4 mixedDomains = .ok mixedLists := by decide
  have each := candidateLists_exact listed
  refine ⟨listed, each.imp fun _ _ spec => spec.2.1, fun values member => ?_⟩
  obtain ⟨domain, _, enumerates, _⟩ := exists_of_mem_forall₂ each.flip member
  exact enumerates.nodup

end Search

end ConstraintCompiler
