import ConstraintCompiler.Problem

/-!
Contract: problems that are put together by allocating and posting.

Owns `Problem.Reachable`, and that such a problem still accepts whatever it has recorded.
-/

namespace ConstraintCompiler.Problem

/-- The problem comes from the empty one by allocations and accepted postings. -/
inductive Reachable : Problem → Prop where
  | empty : Reachable {}
  | allocate {problem : Problem} (reachable : Reachable problem) (domain : Domain) :
      Reachable (problem.allocate domain)
  | post {problem next : Problem} {posting : Posting} (reachable : Reachable problem)
      (accepted : problem.post posting = .ok next) : Reachable next

theorem objection?_allocate {problem : Problem} {posting : Posting}
    (accepted : problem.objection? posting = none) (domain : Domain) :
    (problem.allocate domain).objection? posting = none := by
  rw [objection?_eq_none_iff] at accepted ⊢
  refine ⟨fun v mentioned => ?_, accepted.2⟩
  obtain ⟨known, found, kind⟩ := variableObjection?_eq_none_iff.mp (accepted.1 v mentioned)
  exact variableObjection?_eq_none_iff.mpr ⟨known, domain?_allocate_of_some found domain, kind⟩

theorem post_eq_ok {problem next : Problem} {posting : Posting} :
    problem.post posting = .ok next ↔
      problem.objection? posting = none ∧
        next = { problem with postings := problem.postings ++ [posting] } := by
  unfold post
  cases problem.objection? posting <;> simp [eq_comm]

theorem Reachable.accepted {problem : Problem} (reachable : problem.Reachable) :
    ∀ posting ∈ problem.postings, problem.objection? posting = none := by
  induction reachable with
  | empty => exact fun _ member => absurd member List.not_mem_nil
  | allocate _ domain inductionHypothesis =>
      exact fun posting member => objection?_allocate (inductionHypothesis posting member) domain
  | post _ accepted inductionHypothesis =>
      obtain ⟨noObjection, rfl⟩ := post_eq_ok.mp accepted
      intro posting member
      rcases List.mem_append.mp member with earlier | last
      · exact inductionHypothesis posting earlier
      · rw [List.mem_singleton.mp last]
        exact noObjection

theorem Reachable.mentions_lt {problem : Problem} (reachable : problem.Reachable)
    {posting : Posting} (member : posting ∈ problem.postings) :
    ∀ v ∈ posting.mentions, v.id < problem.size := by
  intro v mentioned
  have accepted := objection?_eq_none_iff.mp (reachable.accepted posting member)
  obtain ⟨domain, found, _⟩ := variableObjection?_eq_none_iff.mp (accepted.1 v mentioned)
  exact (List.getElem?_eq_some_iff.mp found).1

end ConstraintCompiler.Problem
