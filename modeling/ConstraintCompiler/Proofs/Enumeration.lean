import ConstraintCompiler.Search.Candidates
import ConstraintCompiler.Proofs.Reading
import Mathlib.Data.List.Nodup

/-!
Contract: the candidate lists that search tries.

Owns:
- `Search.Enumerates`, that a list has the values of a domain and each of them once;
- `Search.listing`, the list of a domain when nothing limits it, which does so;
- `Search.eq_map_listing` and `Search.candidateLists_spec`, that every list that is made is one.

Does not own: which domains are too large to be listed.
-/

namespace ConstraintCompiler.Search

/-! ### Choices -/

/-- The choices among listed elements are the sublists. -/
theorem mem_choices {elements chosen : List Int} :
    chosen ∈ choices elements ↔ chosen.Sublist elements := by
  induction elements generalizing chosen with
  | nil => simp [choices]
  | cons element rest inductionHypothesis =>
      simp only [choices, List.mem_flatMap, List.mem_cons, List.not_mem_nil, or_false,
        List.sublist_cons_iff, inductionHypothesis]
      constructor
      · rintro ⟨other, sublist, rfl | rfl⟩
        · exact .inl sublist
        · exact .inr ⟨other, rfl, sublist⟩
      · rintro (sublist | ⟨other, rfl, sublist⟩)
        · exact ⟨chosen, sublist, .inl rfl⟩
        · exact ⟨other, sublist, .inr rfl⟩

theorem nodup_choices {elements : List Int} (nodup : elements.Nodup) :
    (choices elements).Nodup := by
  induction elements with
  | nil => exact List.nodup_singleton []
  | cons element rest inductionHypothesis =>
      obtain ⟨notMember, restNodup⟩ := List.nodup_cons.mp nodup
      have free : ∀ chosen ∈ choices rest, ∀ other, chosen ≠ element :: other := by
        rintro chosen member other rfl
        exact notMember ((mem_choices.mp member).subset (List.mem_cons_self ..))
      refine List.nodup_flatMap.mpr ⟨fun chosen _ => by simp, ?_⟩
      refine (inductionHypothesis restNodup).imp_of_mem fun {chosen other} member otherMember
        different => ?_
      intro choice first second
      rcases List.mem_pair.mp first with rfl | rfl
      · rcases List.mem_pair.mp second with same | same
        · exact different same
        · exact free _ member _ same
      · rcases List.mem_pair.mp second with same | same
        · exact free _ otherMember _ same.symm
        · exact different (List.cons.inj same).2

/-! ### Candidates -/

structure Enumerates (domain : Domain) (values : List Value) : Prop where
  mem_iff : ∀ value, value ∈ values ↔ domain.Contains value
  nodup : values.Nodup

private theorem enumerates_int (least greatest : Int) :
    Enumerates (.int least greatest) ((IntSet.interval least greatest).elements.map .int) where
  mem_iff value := by
    cases value with
    | int number => simp [Domain.Contains, IntSet.mem_elements]
    | _ => simp [Domain.Contains]
  nodup := by
    refine List.Nodup.map (fun _ _ same => Value.int.inj same) ?_
    exact (IntSet.interval least greatest).ascending.imp fun less => Int.ne_of_lt less

private theorem enumerates_set {required possible : IntSet}
    (subset : required.isSubset possible = true) :
    Enumerates (.set required possible)
      ((choices (possible.difference required).elements).map fun chosen =>
        .set (required.union (.ofList chosen))) where
  mem_iff value := by
    have within := (IntSet.isSubset_iff required possible).mp subset
    cases value with
    | set members =>
        simp only [List.mem_map, mem_choices, Value.set.injEq, Domain.Contains]
        constructor
        · rintro ⟨chosen, sublist, rfl⟩
          refine ⟨fun element known => (IntSet.mem_union ..).mpr (.inl known), ?_⟩
          intro element member
          rcases (IntSet.mem_union ..).mp member with known | taken
          · exact within element known
          · have free := sublist.subset ((IntSet.mem_ofList ..).mp taken)
            exact ((IntSet.mem_difference ..).mp free).1
        · rintro ⟨lower, upper⟩
          refine ⟨_, List.filter_sublist (p := fun element => decide (element ∈ members)), ?_⟩
          apply IntSet.ext_of_mem
          intro element
          have free := IntSet.mem_difference possible required element
          rw [← IntSet.mem_elements] at free
          simp only [IntSet.mem_union, IntSet.mem_ofList, List.mem_filter, free, decide_eq_true_eq]
          grind
    | _ => simp [Domain.Contains]
  nodup := by
    have ascending := (possible.difference required).ascending
    refine List.Nodup.map_on ?_ (nodup_choices (ascending.imp fun less => Int.ne_of_lt less))
    intro first firstMember second secondMember same
    have firstSublist := mem_choices.mp firstMember
    have secondSublist := mem_choices.mp secondMember
    have members : ∀ chosen other : List Int,
        chosen.Sublist (possible.difference required).elements →
          required.union (.ofList chosen) = required.union (.ofList other) →
            ∀ element ∈ chosen, element ∈ other := by
      intro chosen other sublist union element member
      have free := (IntSet.mem_difference ..).mp (IntSet.mem_elements.mp (sublist.subset member))
      have inUnion : element ∈ required.union (.ofList chosen) :=
        (IntSet.mem_union ..).mpr (.inr ((IntSet.mem_ofList ..).mpr member))
      rw [union] at inUnion
      rcases (IntSet.mem_union ..).mp inUnion with known | taken
      · exact absurd known free.2
      · exact (IntSet.mem_ofList ..).mp taken
    have sets : IntSet.mk first (ascending.sublist firstSublist) =
        IntSet.mk second (ascending.sublist secondSublist) :=
      IntSet.ext_of_mem fun element =>
        ⟨members first second firstSublist (Value.set.inj same) element,
          members second first secondSublist (Value.set.inj same).symm element⟩
    exact congrArg IntSet.elements sets

/-- The values of a domain in the order in which they are tried, however many there are. -/
def listing : Domain → List Value
  | .bool => [.bool false, .bool true]
  | .int least greatest => (IntSet.interval least greatest).elements.map .int
  | .set required possible =>
      if required.isSubset possible then
        (choices (possible.difference required).elements).map fun chosen =>
          .set (required.union (.ofList chosen))
      else []

theorem enumerates_listing (domain : Domain) : Enumerates domain (listing domain) := by
  cases domain with
  | bool =>
      refine ⟨fun value => ?_, by decide⟩
      cases value with
      | bool truth => cases truth <;> simp [listing, Domain.Contains]
      | _ => simp [listing, Domain.Contains]
  | int least greatest => exact enumerates_int least greatest
  | set required possible =>
      rw [listing]
      split
      · rename_i subset
        exact enumerates_set subset
      · rename_i escapes
        have empty := (Domain.isEmpty_iff (.set required possible)).mp
          (by simp [Domain.isEmpty, escapes])
        exact ⟨fun value => by simpa using empty value, .nil⟩

theorem eq_listing_of_candidates {maxSize id : Nat} {domain : Domain} {values : List Value}
    (listed : candidates maxSize id domain = .ok values) : values = listing domain := by
  cases domain with
  | bool =>
      cases listed
      rfl
  | int least greatest =>
      rw [candidates] at listed
      split at listed <;> cases listed
      rfl
  | set required possible =>
      rw [candidates] at listed
      split at listed
      · rename_i subset
        dsimp only at listed
        split at listed <;> cases listed
        rw [listing, if_pos subset]
      · rename_i escapes
        cases listed
        rw [listing, if_neg escapes]

theorem eq_map_listing {maxSize : Nat} {domains : List Domain} {lists : List (List Value)}
    (listed : candidateLists maxSize domains = .ok lists) : lists = domains.map listing := by
  have byEntry : lists = domains.zipIdx.map (listing ∘ Prod.fst) :=
    eq_map_of_mapM_eq_ok eq_listing_of_candidates listed
  rw [byEntry, ← List.map_map, List.zipIdx_map_fst]

theorem forall₂_of_candidateLists {related : Domain → List Value → Prop}
    (each : ∀ domain, related domain (listing domain)) {maxSize : Nat}
    {domains : List Domain} {lists : List (List Value)}
    (listed : candidateLists maxSize domains = .ok lists) : List.Forall₂ related domains lists := by
  rw [eq_map_listing listed, List.forall₂_map_right_iff]
  exact List.forall₂_same.mpr fun domain _ => each domain

theorem candidateLists_spec {maxSize : Nat} {domains : List Domain} {lists : List (List Value)}
    (listed : candidateLists maxSize domains = .ok lists) :
    List.Forall₂ Enumerates domains lists :=
  forall₂_of_candidateLists enumerates_listing listed

end ConstraintCompiler.Search
