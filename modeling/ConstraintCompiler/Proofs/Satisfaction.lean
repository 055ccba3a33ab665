import ConstraintCompiler.Proofs.Runs

/-!
Contract: what the postings of a compiled session say together.

Owns `Session.Compiled.satisfies_iff`: an assignment of all variables makes every stated posting
true exactly when the variables of composites have the composites' values and the accepted
declarations are true.
-/

namespace ConstraintCompiler.Session.Compiled

variable {session : Session} {assignment : Assignment} (compiled : session.Compiled)
  (assigned : session.model.problem.IsAssigned assignment)

include compiled assigned

/-- The posting that defines a composite says that the composite's variable has its value, once the
variables of everything in its operands are faithful. -/
theorem verdict_definition {label : Label} {v : Variable} {connective : Connective}
    {operands : List Expression} {kind : Kind} {arguments : List Argument}
    (introduces : session.Introduces label v connective operands kind arguments)
    (faithful : ∀ operand ∈ operands, ∀ part : Expression, part.Within operand →
      session.IsFaithfulTo assignment part) :
    ∃ value, assignment v.id = some value ∧
      (connective.posting arguments (.var v)).verdict assignment =
        some (decide ((Expression.composite label connective operands kind).value? assignment =
          some value)) := by
  obtain ⟨value, found, valueKind⟩ := assigned v.id _ introduces.domain
  rw [Model.Settings.kind_auxiliaryDomain] at valueKind
  have compares : (connective.posting arguments (.var v)).Compares connective arguments (.var v) :=
    ⟨rfl, rfl, rfl⟩
  have condition := compares.condition? compiled.wellBuilt assigned introduces.built faithful
    introduces.represents found valueKind
  refine ⟨value, found, ?_⟩
  rw [Posting.verdict_of_plain condition rfl]
  exact congrArg some (Bool.xor_false _)

/-- Every stated posting is true exactly when the variables of composites have the composites'
values and every accepted declaration is true. -/
theorem satisfies_iff :
    (∀ posting ∈ session.model.stated, posting.verdict assignment = some true) ↔
      session.IsFaithful assignment ∧
        ∀ declaration ∈ session.declared, declaration.isTrue assignment = true := by
  have declaredAtHand : ∀ declaration ∈ session.declared,
      ∀ expression ∈ declaration.expressions, session.AtHand expression :=
    fun declaration declared expression member =>
      compiled.atHand expression (mem_subjects_of_declared declared member)
  constructor
  · intro satisfied
    -- Operands come first, because the posting of a composite reads the variables in its operands.
    have faithfulTo : ∀ expression : Expression, session.AtHand expression →
        session.IsFaithfulTo assignment expression := by
      intro expression
      induction expression using Expression.partInduction with
      | step whole inductionHypothesis =>
          intro atHand label v labelled defined
          obtain ⟨connective, operands, kind, arguments, introduces, stated⟩ :=
            compiled.defines label v defined
          cases whole with
          | composite own _ _ _ =>
              cases labelled
              cases atHand.symm.trans introduces.built
              obtain ⟨value, found, verdict⟩ := compiled.verdict_definition assigned introduces
                fun operand member part within => inductionHypothesis operand member part within
                  (Session.AtHand.within compiled.wellBuilt (.operand member within) atHand)
              rw [satisfied _ stated, Option.some.injEq, eq_comm, decide_eq_true_eq] at verdict
              exact ⟨value, verdict, found⟩
          | _ => cases labelled
    have faithful : session.IsFaithful assignment := by
      intro label v defined
      obtain ⟨connective, operands, kind, arguments, introduces, _⟩ :=
        compiled.defines label v defined
      obtain ⟨value, found, variableFound⟩ :=
        faithfulTo (.composite label connective operands kind) introduces.built label v rfl defined
      exact ⟨_, value, introduces.built, found, variableFound⟩
    refine ⟨faithful, fun declaration declared => ?_⟩
    obtain ⟨plan, posting, planned, finishes, stated⟩ := compiled.ends declaration declared
    have verdict := finishes.verdict compiled.wellBuilt assigned (Declaration.plan_eq_ok planned)
      (declaredAtHand declaration declared) faithful
    rw [satisfied posting stated] at verdict
    exact (Option.some.inj verdict).symm
  · rintro ⟨faithful, true⟩ posting stated
    cases compiled.accounts posting stated with
    | @definition label v connective operands kind arguments defined introduces =>
        have atHand : session.AtHand (.composite label connective operands kind) := introduces.built
        obtain ⟨value, found, verdict⟩ := compiled.verdict_definition assigned introduces
          fun operand member part within => faithful.to
            (atHand.within compiled.wellBuilt (.operand member within))
        obtain ⟨own, ownFound, variableFound⟩ := faithful.to atHand label v rfl defined
        rw [verdict, ownFound, ← variableFound, found]
        simp
    | @declaration declaration plan _ declared planned finishes =>
        rw [finishes.verdict compiled.wellBuilt assigned (Declaration.plan_eq_ok planned)
          (declaredAtHand declaration declared) faithful, true declaration declared]

theorem isSatisfied_iff (recorded : session.model.stated = session.model.problem.postings) :
    session.model.problem.IsSatisfied assignment ↔
      session.IsFaithful assignment ∧
        ∀ declaration ∈ session.declared, declaration.isTrue assignment = true := by
  rw [← compiled.satisfies_iff assigned, recorded]
  rfl

end ConstraintCompiler.Session.Compiled
