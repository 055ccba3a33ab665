import ConstraintCompiler.Proofs.Limits
import ConstraintCompiler.Proofs.Listing

/-!
Contract: which domains are too large to be searched.

Owns:
- `Domain.IsVast`, that a set has too many free elements for its values to be counted out;
- `Search.candidateLists_error_iff`, that candidate lists are refused where a domain has more values
  than allowed or is vast, and nowhere else;
- `Search.run_modelInvalid_iff`: a valid search is refused for these reasons only, and one that is
  not refused tries no more candidates of a variable than allowed.

Truth values are listed under every limit. Results that compare their number with a limit are about
limits that allow two values.
-/

namespace ConstraintCompiler

/-- A set domain that has values, but so many free elements that they are never counted out. -/
def Domain.IsVast : Domain → Prop
  | .bool => False
  | .int _ _ => False
  | .set required possible =>
      required.isSubset possible = true ∧
        Search.freeElementLimit ≤ (possible.difference required).size

namespace Search

/-! ### One domain -/

/-- A domain other than the truth values is refused exactly when it has more values than allowed or
is vast. -/
theorem candidates_error_iff {maxSize id : Nat} {domain : Domain} (counted : domain ≠ .bool) :
    (∃ oversize, candidates maxSize id domain = .error oversize) ↔
      maxSize < domain.count ∨ domain.IsVast := by
  cases domain with
  | bool => exact absurd rfl counted
  | int least greatest =>
      rw [candidates, Domain.count, Domain.IsVast, or_false]
      by_cases large : maxSize < (greatest + 1 - least).toNat <;> simp [large]
  | set required possible =>
      rw [candidates, Domain.count, Domain.IsVast]
      by_cases subset : required.isSubset possible = true
      · simp only [subset, if_true, true_and, IntSet.size]
        by_cases large : maxSize < 2 ^ (possible.difference required).elements.length <;>
          by_cases vast : freeElementLimit ≤ (possible.difference required).elements.length <;>
            simp [large, vast]
      · simp [subset]

theorem candidates_error_iff_of_truths {maxSize id : Nat} {domain : Domain}
    (truths : domain = .bool → 2 ≤ maxSize) :
    (∃ oversize, candidates maxSize id domain = .error oversize) ↔
      maxSize < domain.count ∨ domain.IsVast := by
  by_cases isBool : domain = .bool
  · have allowed : ¬maxSize < 2 := Nat.not_lt.mpr (truths isBool)
    subst isBool
    constructor
    · rintro ⟨_, refused⟩
      cases refused
    · rintro (large | vast)
      · exact absurd large allowed
      · exact vast.elim
  · exact candidates_error_iff isBool

/-! ### All domains -/

theorem candidateLists_error_iff {maxSize : Nat} {domains : List Domain}
    (truths : .bool ∈ domains → 2 ≤ maxSize) :
    (∃ oversize, candidateLists maxSize domains = .error oversize) ↔
      ∃ domain ∈ domains, maxSize < domain.count ∨ domain.IsVast := by
  rw [candidateLists, exists_mapM_eq_error_iff]
  constructor
  · rintro ⟨⟨domain, id⟩, member, refused⟩
    have known : domain ∈ domains := List.fst_mem_of_mem_zipIdx member
    refine ⟨domain, known, (candidates_error_iff_of_truths ?_).mp refused⟩
    rintro rfl
    exact truths known
  · rintro ⟨domain, known, large⟩
    obtain ⟨id, found⟩ := List.getElem?_of_mem known
    refine ⟨(domain, id), List.mk_mem_zipIdx_iff_getElem?.mpr found, ?_⟩
    refine (candidates_error_iff_of_truths ?_).mpr large
    rintro rfl
    exact truths known

theorem length_le_of_candidateLists {maxSize : Nat} {domains : List Domain}
    (truths : .bool ∈ domains → 2 ≤ maxSize) {lists : List (List Value)}
    (listed : candidateLists maxSize domains = .ok lists) :
    ∀ values ∈ lists, values.length ≤ maxSize := by
  intro values member
  rw [eq_map_listing listed] at member
  obtain ⟨domain, known, rfl⟩ := List.mem_map.mp member
  rw [(enumerates_listing domain).length_eq_count]
  refine Nat.le_of_not_lt fun large => ?_
  obtain ⟨oversize, refused⟩ := (candidateLists_error_iff truths).mpr ⟨domain, known, .inl large⟩
  cases listed.symm.trans refused

/-! ### Searches -/

theorem status_runOn_ne (settings : Settings) (lists : List (List Value))
    (postings : List Posting) :
    (runOn settings lists postings).1.status ≠ .modelInvalid := by
  have reported : ∀ progress : Progress, progress.status ≠ .modelInvalid := by
    intro progress
    rw [Progress.status]
    split <;> decide
  rw [runOn]
  split
  · exact reported _
  · decide

/-- A valid search is refused exactly when some domain cannot be listed. -/
theorem status_run_eq_modelInvalid_iff {settings : Settings} {problem : Problem}
    (valid : settings.fault? = none) :
    (run settings problem).1.status = .modelInvalid ↔
      ∃ oversize, candidateLists settings.maxDomainSize problem.domains = .error oversize := by
  cases listed : candidateLists settings.maxDomainSize problem.domains with
  | error oversize => simp [run, valid, listed]
  | ok lists =>
      have searched := status_runOn_ne settings lists problem.postings
      rw [run_of_listed valid listed]
      split <;> simpa [Outcome.sorted] using searched

/-- Let settings be valid and allow two values wherever there is a truth value. A search under them
is refused exactly when some domain has more values than allowed or is vast. One that is not
refused is a search of lists of candidates, none of them longer than allowed. -/
theorem run_modelInvalid_iff (settings : Settings) (problem : Problem)
    (valid : settings.fault? = none)
    (truths : .bool ∈ problem.domains → 2 ≤ settings.maxDomainSize) :
    ((run settings problem).1.status = .modelInvalid ↔
        ∃ domain ∈ problem.domains, settings.maxDomainSize < domain.count ∨ domain.IsVast) ∧
      ((run settings problem).1.status ≠ .modelInvalid →
        ∃ lists, candidateLists settings.maxDomainSize problem.domains = .ok lists ∧
          (∀ values ∈ lists, values.length ≤ settings.maxDomainSize) ∧
          (run settings problem).1 =
            if settings.seed.isSome then (runOn settings lists problem.postings).1.sorted
            else (runOn settings lists problem.postings).1) := by
  have refused : (run settings problem).1.status = .modelInvalid ↔ _ :=
    status_run_eq_modelInvalid_iff valid
  refine ⟨refused.trans (candidateLists_error_iff truths), fun accepted => ?_⟩
  cases listed : candidateLists settings.maxDomainSize problem.domains with
  | error oversize => exact absurd (refused.mpr ⟨oversize, listed⟩) accepted
  | ok lists =>
      exact ⟨lists, rfl, length_le_of_candidateLists truths listed, run_of_listed valid listed⟩

/-- A range of three integers is refused under a limit of two, and searched under one of three. -/
theorem boundOne_limited :
    (run { maxDomainSize := 2 } boundOne).1.status = .modelInvalid ∧
      ∃ lists, candidateLists 3 boundOne.domains = .ok lists ∧
        (∀ values ∈ lists, values.length ≤ 3) ∧
        (run { maxDomainSize := 3 } boundOne).1 =
          (runOn { maxDomainSize := 3 } lists boundOne.postings).1 := by
  obtain ⟨tight, -⟩ := run_modelInvalid_iff { maxDomainSize := 2 } boundOne rfl
    (fun _ => by decide)
  obtain ⟨loose, searched⟩ := run_modelInvalid_iff { maxDomainSize := 3 } boundOne rfl
    (fun _ => by decide)
  have fits : ¬∃ domain ∈ boundOne.domains, 3 < domain.count ∨ domain.IsVast := by
    simp [boundOne, Domain.count, Domain.IsVast]
  exact ⟨tight.mpr ⟨.int 0 2, by simp [boundOne], .inl (by decide)⟩,
    searched fun refused => fits (loose.mp refused)⟩

/-- A set of any of 63 elements has as many values as this limit allows. -/
def anyOf63 : Problem := ⟨[.set ∅ (.interval 0 62)], []⟩

theorem anyOf63_refused :
    let settings : Settings := { maxDomainSize := 2 ^ 63 }
    settings.fault? = none ∧
      ¬((run settings anyOf63).1.status = .modelInvalid ↔
        ∃ domain ∈ anyOf63.domains, settings.maxDomainSize < domain.count) := by
  intro settings
  have refused : (run settings anyOf63).1.status = .modelInvalid := by decide
  have fits : ¬∃ domain ∈ anyOf63.domains, settings.maxDomainSize < domain.count := by decide
  exact ⟨by decide, fun same => fits (same.mp refused)⟩

end Search

end ConstraintCompiler
