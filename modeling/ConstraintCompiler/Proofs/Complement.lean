import ConstraintCompiler.Proofs.Continuation
import ConstraintCompiler.Proofs.Reification

/-!
Contract: the denial of a relation against the assertion of its complement.

Owns:
- `Relation.complement?`, the relation that holds where another does not;
- `Declaration.Complements`, a denial and the assertion of the complement, of one subject;
- `Session.denial_complements`: from the same state both have the same solutions over every
  assignment of the user's variables, as far as the subject has a value. Where it has none, only a
  denied equality that is fused has solutions;
- `Session.denied_element_remains`, an assignment that shows the difference.
-/

namespace ConstraintCompiler

namespace Relation

/-- The relation that holds of two values of one kind exactly when the given one does not. The
relations of sets alone have none. -/
def complement? : Relation → Option Relation
  | .eq => some .ne
  | .ne => some .eq
  | .lt => some .ge
  | .ge => some .lt
  | .le => some .gt
  | .gt => some .le
  | .subset | .superset | .disjoint => none

variable {relation complement : Relation} (found : relation.complement? = some complement)

include found

theorem fits_complement (kind : Kind) : complement.fits kind = relation.fits kind := by
  cases relation <;> cases found <;> cases kind <;> rfl

theorem between?_complement (left right : Value) :
    complement.between? left right = (relation.between? left right).map not := by
  have arithmetic : relation.isArithmetic = true ∧ complement.isArithmetic = true := by
    cases relation <;> cases found <;> exact ⟨rfl, rfl⟩
  have ordered : ∀ first second : Int,
      complement.compare first second = !relation.compare first second := by
    intro first second
    rw [Bool.eq_iff_iff]
    cases relation <;> cases found <;> simp [compare]
  cases left with
  | int first =>
      cases right with
      | int second => simp [between?, arithmetic, ordered]
      | _ => rfl
  | bool first => cases relation <;> cases found <;> cases right <;> simp [between?, bne]
  | set first =>
      cases relation <;> cases found <;> cases right <;>
        simp [between?, comparesSets, compareSets, bne]

end Relation

/-- The first declaration denies something of the subject, and the second one asserts the opposite:
the complement of a relation to a variable or a constant, or the other truth value. The relation is
the one that is denied. -/
inductive Declaration.Complements (subject : Expression) :
    Relation → Declaration → Declaration → Prop where
  | relate {kind : Kind} {relation complement : Relation} {other : Expression}
      (shape : subject.shape = .scalar kind) (fits : relation.fits kind = true)
      (otherShape : other.shape = .scalar kind) (simple : other.label? = none)
      (complementary : relation.complement? = some complement) :
      Complements subject relation
        { statement := .relate subject relation other, negated := true }
        { statement := .relate subject complement other }
  | truth {expected : Bool} (shape : subject.shape = .scalar .bool) :
      Complements subject .eq
        { statement := .truth subject expected, negated := true }
        { statement := .truth subject !expected }

def Expression.LacksVariable (expression : Expression) (model : Model) : Prop :=
  ∃ label, expression.label? = some label ∧ model.definition? label = none

/-! ### What is resolved -/

/-- An equality with a variable or a constant is fused exactly when its left side is a composite
without a variable. -/
theorem fusion?_of_simple (model : Model) (left : Expression) {right : Expression}
    (simple : right.label? = none) :
    (left.LacksVariable model ∧
        ∃ composite, left = composite.expression ∧
          fusion? model left right = some (composite, right)) ∨
      ¬left.LacksVariable model ∧ fusion? model left right = none := by
  have nothing : right.composite? = none := by
    cases right with
    | composite => cases simple
    | _ => rfl
  cases left with
  | composite label connective operands kind =>
      cases found : model.definition? label with
      | none =>
          refine .inl ⟨⟨label, rfl, found⟩, ⟨label, connective, operands, kind⟩, rfl, ?_⟩
          rw [fusion?, nothing]
          simp [Expression.composite?, Composite.isUndefined, found]
      | some v =>
          refine .inr ⟨?_, ?_⟩
          · rintro ⟨own, same, missing⟩
            cases same
            cases found.symm.trans missing
          · rw [fusion?, nothing]
            simp [Expression.composite?, Composite.isUndefined, found]
  | _ =>
      refine .inr ⟨?_, ?_⟩
      · rintro ⟨own, same, _⟩
        cases same
      · rw [fusion?, nothing]
        rfl

/-- The declaration is planned as a comparison of two sides without a target, the right one a
variable or a constant. -/
structure Declaration.Compares (declaration : Declaration) (left : Expression)
    (relation : Relation) (right : Expression) : Prop where
  planned : declaration.plan =
    .ok (declaration.annotated .relation [left, right] [] (some relation))
  target : declaration.options.target = none
  simple : right.label? = none

namespace Declaration.Compares

variable {declaration : Declaration} {left right : Expression} {relation : Relation}
  (compares : declaration.Compares left relation right)

include compares

theorem expressions_eq :
    (declaration.annotated .relation [left, right] [] (some relation)).expressions =
      [left, right] := by
  rw [Plan.expressions, annotated, compares.target]
  rfl

/-- The right side and the operands of a composite are resolved for an equality that is fused, and
both sides otherwise. -/
theorem resolved_cases (model : Model) :
    let resolved :=
      (declaration.annotated .relation [left, right] [] (some relation)).resolved model
    (relation = .eq ∧ left.LacksVariable model) ∧ resolved = right :: left.operands ∨
      ¬(relation = .eq ∧ left.LacksVariable model) ∧ resolved = [left, right] := by
  intro resolved
  by_cases equal : relation = .eq
  · subst equal
    have equality : (declaration.annotated .relation [left, right] [] (some .eq)).equality? =
        some (left, right) := by
      simp [Plan.equality?, annotated, compares.target]
    rcases fusion?_of_simple model left compares.simple with
      ⟨lacks, composite, rfl, fusion⟩ | ⟨has, fusion⟩
    · exact .inl ⟨⟨rfl, lacks⟩, Plan.resolved_of_fusion equality fusion⟩
    · refine .inr ⟨fun both => has both.2, ?_⟩
      rw [← compares.expressions_eq]
      apply Plan.resolved_of_no_fusion
      intro first second found
      cases equality.symm.trans found
      exact fusion
  · refine .inr ⟨fun both => equal both.1, ?_⟩
    rw [← compares.expressions_eq]
    apply Plan.resolved_of_no_fusion
    intro first second found
    obtain ⟨_, same, _⟩ := Plan.equality?_eq_some found
    exact absurd (Option.some.inj same) equal

theorem within_of_resolved (model : Model) {part : Expression} (labelled : part.label? ≠ none)
    (occurs : Expression.OccursIn
      ((declaration.annotated .relation [left, right] [] (some relation)).resolved model) part) :
    part.Within left := by
  obtain ⟨expression, member, inner⟩ := occurs
  obtain ⟨side, sideMember, outer⟩ := Plan.resolved_occurs _ model expression member
  have within := inner.trans outer
  rw [compares.expressions_eq] at sideMember
  rcases List.mem_pair.mp sideMember with rfl | rfl
  · exact within
  · cases within with
    | self => exact absurd compares.simple labelled
    | operand => cases compares.simple

section Definedness

variable {session : Session} {assignment : Assignment} (wellBuilt : session.IsWellBuilt)
  (assigned : session.model.problem.IsAssigned assignment)
  (atHand : ∀ expression ∈ declaration.expressions, session.AtHand expression)

include assigned atHand

theorem isDefined_right : right.IsDefined assignment := by
  have planAtHand := (Declaration.plan_eq_ok compares.planned).atHand atHand
  rw [compares.expressions_eq] at planAtHand
  exact (Expression.hasValue_of_assigned assigned (planAtHand right (by simp))
    compares.simple).isDefined

/-- What is resolved is defined exactly when the left side is, or, where an equality is fused, when
the operands are. -/
theorem resolved_defined_iff (model : Model) :
    (∀ expression ∈
        (declaration.annotated .relation [left, right] [] (some relation)).resolved model,
        expression.IsDefined assignment) ↔
      (relation = .eq ∧ left.LacksVariable model) ∧
          (∀ operand ∈ left.operands, operand.IsDefined assignment) ∨
        ¬(relation = .eq ∧ left.LacksVariable model) ∧ left.IsDefined assignment := by
  have rightDefined := compares.isDefined_right assigned atHand
  rcases compares.resolved_cases model with ⟨fused, resolved⟩ | ⟨separate, resolved⟩
  · rw [resolved, List.forall_mem_cons]
    simp [fused, rightDefined]
  · rw [resolved, List.forall_mem_cons, List.forall_mem_singleton]
    simp [separate, rightDefined]

include wellBuilt

theorem resolved_defined_of_left (model : Model) (leftAtHand : session.AtHand left)
    (defined : left.IsDefined assignment) :
    ∀ expression ∈
      (declaration.annotated .relation [left, right] [] (some relation)).resolved model,
      expression.IsDefined assignment := by
  rw [compares.resolved_defined_iff assigned atHand]
  by_cases fused : relation = .eq ∧ left.LacksVariable model
  · refine .inl ⟨fused, fun operand member => ?_⟩
    have within : operand.Within left := by
      cases left with
      | composite => exact .operand member (.self operand)
      | _ => cases member
    exact defined.within wellBuilt within leftAtHand
  · exact .inr ⟨fused, defined⟩

end Definedness

end Declaration.Compares

/-! ### Truth -/

namespace Declaration.Complements

variable {subject : Expression} {relation : Relation} {denial assertion : Declaration}
  (complements : Declaration.Complements subject relation denial assertion)

include complements

/-- Both declarations compare the subject with a variable or a constant, the denial by the relation
that it denies. -/
theorem compares :
    (∃ right, denial.Compares subject relation right) ∧
      ∃ complement right, assertion.Compares subject complement right := by
  have unbound : ∀ target ∈ ({} : Options).target, target.IsTarget := by
    intro target found
    cases found
  cases complements with
  | @relate kind _ complement other shape fits otherShape simple complementary =>
      have fitsComplement := (Relation.fits_complement complementary kind).trans fits
      constructor
      · refine ⟨other, ?_, rfl, simple⟩
        exact plan_relate rfl unbound rfl shape fits otherShape
      · refine ⟨complement, other, ?_, rfl, simple⟩
        exact plan_relate rfl unbound rfl shape fitsComplement otherShape
  | @truth expected shape =>
      constructor
      · exact ⟨.constant (.bool expected), plan_truth rfl unbound rfl shape, rfl, rfl⟩
      · exact ⟨.eq, .constant (.bool !expected), plan_truth rfl unbound rfl shape, rfl, rfl⟩

theorem expressions_eq : assertion.expressions = denial.expressions := by
  cases complements <;> rfl

theorem mem_expressions : subject ∈ denial.expressions := by
  cases complements <;> exact List.mem_cons_self ..

theorem isDefined_iff (assignment : Assignment) :
    subject.IsDefined assignment ↔ ∃ value, subject.value? assignment = some value := by
  cases complements with
  | relate shape | truth shape =>
      unfold Expression.IsDefined
      rw [shape]

/-- Of a subject that is not defined the denial is true, and the assertion is not. -/
theorem isTrue_of_undefined {assignment : Assignment} (undefined : ¬subject.IsDefined assignment) :
    denial.isTrue assignment = true ∧ assertion.isTrue assignment = false := by
  rw [complements.isDefined_iff, not_exists] at undefined
  have missing : subject.value? assignment = none := Option.eq_none_iff_forall_ne_some.mpr undefined
  cases complements <;> simp [isTrue, Declaration.assertion, Statement.holds?, missing]

theorem eq_or_simple : ∀ expression ∈ denial.expressions,
    expression = subject ∨ expression.label? = none := by
  intro expression member
  cases complements with
  | relate _ _ _ simple =>
      rcases List.mem_pair.mp member with rfl | rfl
      · exact .inl rfl
      · exact .inr simple
  | truth => exact .inl (List.mem_singleton.mp member)

theorem isTrue_of_hasValue {assignment : Assignment}
    (haveValues : ∀ expression ∈ denial.expressions, expression.HasValue assignment) :
    denial.isTrue assignment = assertion.isTrue assignment := by
  cases complements with
  | @relate kind _ complement other shape fits otherShape _ complementary =>
      obtain ⟨left, leftFound, leftKind⟩ :=
        (haveValues subject (List.mem_cons_self ..)).scalar shape
      obtain ⟨right, rightFound, rightKind⟩ :=
        (haveValues other (List.mem_cons_of_mem _ (List.mem_cons_self ..))).scalar otherShape
      obtain ⟨truth, decided⟩ : ∃ truth, relation.between? left right = some truth :=
        Relation.exists_between? (leftKind.trans rightKind.symm) (leftKind ▸ fits)
      have opposite : complement.between? left right = some !truth := by
        rw [Relation.between?_complement complementary, decided]
        rfl
      simp [isTrue, Declaration.assertion, Statement.holds?, leftFound, rightFound, decided,
        opposite]
  | @truth expected shape =>
      obtain ⟨truth, found⟩ := (haveValues subject (List.mem_cons_self ..)).truth shape
      cases expected <;> cases truth <;>
        simp [isTrue, Declaration.assertion, Statement.holds?, found, Value.asBool?]

/-! ### Which assignments are left -/

section Solutions

variable {session : Session} {assignment : Assignment} (wellBuilt : session.IsWellBuilt)
  (assigned : session.model.problem.IsAssigned assignment)
  (atHand : ∀ expression ∈ denial.expressions, session.AtHand expression) (model : Model)

include wellBuilt assigned atHand

theorem isTrue_of_defined (defined : subject.IsDefined assignment) :
    denial.isTrue assignment = assertion.isTrue assignment := by
  apply complements.isTrue_of_hasValue
  intro expression member
  rcases complements.eq_or_simple expression member with rfl | simple
  · exact defined.hasValue assigned.respects wellBuilt (atHand expression member)
  · exact Expression.hasValue_of_assigned assigned (atHand expression member) simple

/-- The assertion is only true of a defined subject, and then everything that it resolves is
defined. -/
theorem assertion_iff {complement : Relation} {other : Expression}
    (asserts : assertion.Compares subject complement other) :
    (assertion.isTrue assignment = true ∧ ∀ expression ∈
        (assertion.annotated .relation [subject, other] [] (some complement)).resolved model,
        expression.IsDefined assignment) ↔
      assertion.isTrue assignment = true ∧ subject.IsDefined assignment := by
  refine and_congr_right fun holds => ⟨fun _ => ?_, fun defined => ?_⟩
  · by_contra undefined
    rw [(complements.isTrue_of_undefined undefined).2] at holds
    contradiction
  · rw [← complements.expressions_eq] at atHand
    exact asserts.resolved_defined_of_left wellBuilt assigned atHand model
      (atHand subject (complements.expressions_eq ▸ complements.mem_expressions)) defined

variable {right : Expression} (denies : denial.Compares subject relation right)

include denies

/-- Where the subject is defined, the denial leaves what the assertion does. -/
theorem denial_iff_of_defined :
    (denial.isTrue assignment = true ∧ (∀ expression ∈
        (denial.annotated .relation [subject, right] [] (some relation)).resolved model,
        expression.IsDefined assignment) ∧ subject.IsDefined assignment) ↔
      assertion.isTrue assignment = true ∧ subject.IsDefined assignment := by
  constructor
  · rintro ⟨holds, _, defined⟩
    rw [complements.isTrue_of_defined wellBuilt assigned atHand defined] at holds
    exact ⟨holds, defined⟩
  · rintro ⟨holds, defined⟩
    rw [← complements.isTrue_of_defined wellBuilt assigned atHand defined] at holds
    exact ⟨holds, denies.resolved_defined_of_left wellBuilt assigned atHand model
      (atHand subject complements.mem_expressions) defined, defined⟩

omit wellBuilt in
/-- Where the subject is not defined, the denial is true, and it leaves what defines the operands if
it is fused. -/
theorem denial_iff_of_undefined :
    (denial.isTrue assignment = true ∧ (∀ expression ∈
        (denial.annotated .relation [subject, right] [] (some relation)).resolved model,
        expression.IsDefined assignment) ∧ ¬subject.IsDefined assignment) ↔
      (relation = .eq ∧ subject.LacksVariable model) ∧ ¬subject.IsDefined assignment ∧
        ∀ operand ∈ subject.operands, operand.IsDefined assignment := by
  rw [denies.resolved_defined_iff assigned atHand]
  constructor
  · rintro ⟨_, ⟨fused, operands⟩ | ⟨_, defined⟩, undefined⟩
    · exact ⟨fused, undefined, operands⟩
    · exact absurd defined undefined
  · rintro ⟨fused, undefined, operands⟩
    exact ⟨(complements.isTrue_of_undefined undefined).1, .inl ⟨fused, operands⟩, undefined⟩

end Solutions

end Declaration.Complements

namespace Session

/-- After any admitted run, a denial and the assertion of the complement have the same solutions
over every assignment of the user's variables, where the subject has a value, and the assertion has
no others. The denial has others only if it denies an equality of a composite without a variable:
then it also leaves the solutions under which all operands of the subject are defined, but the
subject is not. Here the domains of added variables contain every value that the composites in the
subject take. -/
theorem denial_complements (settings : Model.Settings) (actions : List Action)
    (subject : Expression) (relation : Relation) (denial assertion : Declaration)
    (complements : Declaration.Complements subject relation denial assertion)
    (admits : (start settings).Admits (actions ++ [.declare denial]))
    (fits : ∀ assignment, (flushedRun settings actions).model.problem.IsContained assignment →
      ∀ part : Expression, part.Within subject → part.label? ≠ none →
        ∀ value, part.value? assignment = some value →
          (settings.auxiliaryDomain value.kind).Contains value) :
    let before := flushedRun settings actions
    let denied := flushedRun settings (actions ++ [.declare denial])
    let asserted := flushedRun settings (actions ++ [.declare assertion])
    denied.declared = before.declared ++ [denial] ∧
      asserted.declared = before.declared ++ [assertion] ∧
      ∀ users : Assignment,
        ((∃ solution, asserted.Realizes users solution) ↔
            ∃ solution, denied.Realizes users solution ∧ subject.IsDefined solution) ∧
          ((∃ solution, denied.Realizes users solution ∧ ¬subject.IsDefined solution) ↔
            (relation = .eq ∧ subject.LacksVariable before.model) ∧
              ∃ solution, before.Realizes users solution ∧ ¬subject.IsDefined solution ∧
                ∀ operand ∈ subject.operands, operand.IsDefined solution) := by
  intro before denied asserted
  obtain ⟨⟨right, denies⟩, complement, other, asserts⟩ := complements.compares
  obtain ⟨admitsActions, permits, _⟩ := admits_append.mp admits
  have permitsAssertion : ((start settings).run actions).Permits (.declare assertion) := by
    intro expression member
    change expression ∈ assertion.expressions at member
    rw [complements.expressions_eq] at member
    exact permits expression member
  have denialContinues : before.Continues denied denial _ :=
    flushedRun_continues denies.planned admits
  have assertionContinues : before.Continues asserted assertion _ :=
    flushedRun_continues asserts.planned
      (admits_append.mpr ⟨admitsActions, permitsAssertion, trivial⟩)
  have wellBuilt := denialContinues.compiled.wellBuilt
  have atHand := denialContinues.atHand
  have subjectAtHand := atHand subject complements.mem_expressions
  have sameSettings : before.model.settings = settings := flushedRun_settings admitsActions
  have inDomains : ∀ assignment, before.model.problem.IsContained assignment →
      ∀ part : Expression, part.Within subject → part.label? ≠ none →
        ∀ value, part.value? assignment = some value →
          (before.model.settings.auxiliaryDomain value.kind).Contains value := by
    rw [sameSettings]
    exact fits
  have reads : ∀ first second : Assignment,
      (∀ id < before.model.problem.size, first id = second id) →
        (subject.IsDefined first ↔ subject.IsDefined second) := fun first second same =>
    (subjectAtHand.readsSame wellBuilt same).isDefined_iff
  have denialFits := fun assignment contained part occurs labelled =>
    inDomains assignment contained part (denies.within_of_resolved before.model labelled occurs)
      labelled
  have assertionFits := fun assignment contained part occurs labelled =>
    inDomains assignment contained part (asserts.within_of_resolved before.model labelled occurs)
      labelled
  refine ⟨denialContinues.declared, assertionContinues.declared, fun users => ⟨?_, ?_⟩⟩
  · rw [denialContinues.exists_realizes_iff (fun first second same => (reads first second same).mp)
      denialFits]
    have unrestricted : (∃ solution, asserted.Realizes users solution ∧ True) ↔ _ :=
      assertionContinues.exists_realizes_iff (fun _ _ _ => id) assertionFits
    simp only [and_true] at unrestricted
    rw [unrestricted]
    refine exists_congr fun solution => and_congr_right fun realizes => ?_
    have assigned := realizes.solves.contained.isAssigned
    rw [complements.assertion_iff wellBuilt assigned atHand before.model asserts,
      complements.denial_iff_of_defined wellBuilt assigned atHand before.model denies]
  · rw [denialContinues.exists_realizes_iff
      (fun first second same => mt (reads first second same).mpr) denialFits, ← exists_and_left]
    refine exists_congr fun solution => ?_
    refine Iff.trans (and_congr_right fun realizes => ?_) and_left_comm
    exact complements.denial_iff_of_undefined realizes.solves.contained.isAssigned atHand
      before.model denies

def buildsItem : List Action :=
  [ .allocate (.int 0 9),
    .build (.element (.constant (.ints [5, 7])) (.variable ⟨0, .int⟩)) ]

def deniesSeven : Declaration where
  statement := .relate itemOfTwo .eq (.constant (.int 7))
  negated := true

def assertsOther : Declaration where
  statement := .relate itemOfTwo .ne (.constant (.int 7))

theorem deniesSeven_complements :
    Declaration.Complements itemOfTwo .eq deniesSeven assertsOther :=
  .relate rfl rfl rfl rfl rfl

theorem admits_buildsItem {declaration : Declaration}
    (same : declaration.expressions = deniesSeven.expressions) :
    (start {}).Admits (buildsItem ++ [.declare declaration]) := by
  refine ⟨nofun, ?_, ?_, trivial⟩
  · intro expression member
    rcases List.mem_pair.mp member with rfl | rfl <;> trivial
  · intro expression member
    change expression ∈ declaration.expressions at member
    rw [same] at member
    rcases List.mem_pair.mp member with rfl | rfl <;> trivial

/-- A position beyond the end of the array, which leaves the item without a value. -/
theorem realizes_buildsItem :
    (flushedRun {} buildsItem).Realizes (Search.assigning [.int 5])
      (Search.assigning [.int 5]) := by
  refine ⟨⟨?_, fun _ member => absurd member List.not_mem_nil⟩, fun _ _ _ => rfl⟩
  intro id domain found
  rcases id with _ | id
  · cases found
    exact ⟨.int 5, rfl, by decide, by decide⟩
  · cases found

theorem not_isDefined_itemOfTwo {assignment : Assignment}
    (beyond : assignment 0 = some (.int 5)) : ¬itemOfTwo.IsDefined assignment := by
  rintro ⟨value, found⟩
  simp [itemOfTwo, Expression.value?, beyond, Value.asInt?, Expression.array?, itemAt?] at found

theorem deniesSeven_remains :
    (start {}).Admits (buildsItem ++ [.declare deniesSeven]) ∧
      Declaration.Complements itemOfTwo .eq deniesSeven assertsOther ∧
      ∃ solution, (flushedRun {} (buildsItem ++ [.declare deniesSeven])).Realizes
          (Search.assigning [.int 5]) solution ∧
        ¬itemOfTwo.IsDefined solution := by
  refine ⟨admits_buildsItem rfl, deniesSeven_complements, ?_⟩
  obtain ⟨_, _, solutions⟩ := denial_complements {} buildsItem itemOfTwo .eq deniesSeven
    assertsOther deniesSeven_complements (admits_buildsItem rfl)
    fun assignment _ part within labelled => itemOfTwo_fits assignment within labelled
  refine (solutions (Search.assigning [.int 5])).2.mpr ⟨⟨rfl, 0, rfl, rfl⟩, _, realizes_buildsItem,
    not_isDefined_itemOfTwo rfl, ?_⟩
  intro operand member
  rcases List.mem_pair.mp member with rfl | rfl
  · exact ⟨_, rfl⟩
  · exact ⟨.int 5, rfl⟩

/-- Where the position is beyond the end of the array, the denial that the item is seven has a
solution, but the assertion that it differs from seven has none, although every value that the item
can take lies in the domain of its variable. -/
theorem denied_element_remains :
    (start {}).Admits (buildsItem ++ [.declare deniesSeven]) ∧
      (start {}).Admits (buildsItem ++ [.declare assertsOther]) ∧
      Declaration.Complements itemOfTwo .eq deniesSeven assertsOther ∧
      (∀ assignment value, itemOfTwo.value? assignment = some value →
        (({} : Model.Settings).auxiliaryDomain value.kind).Contains value) ∧
      (∃ solution, (flushedRun {} (buildsItem ++ [.declare deniesSeven])).Realizes
        (Search.assigning [.int 5]) solution) ∧
      ¬∃ solution, (flushedRun {} (buildsItem ++ [.declare assertsOther])).Realizes
        (Search.assigning [.int 5]) solution := by
  refine ⟨admits_buildsItem rfl, admits_buildsItem rfl, deniesSeven_complements,
    fun assignment value found => itemOfTwo_fits assignment (.self _) nofun value found, ?_, ?_⟩
  · refine ⟨Search.assigning [.int 5], ⟨realizes_buildsItem.solves.contained, ?_⟩, fun _ _ _ => rfl⟩
    unfold Problem.IsSatisfied
    decide
  · rintro ⟨solution, realizes⟩
    have beyond : solution 0 = some (.int 5) := by
      refine realizes.agrees 0 (by decide) ?_
      rintro ⟨label, v, defined, position⟩
      have member := Model.mem_definitions_of_definition? defined
      have only : (flushedRun {} (buildsItem ++ [.declare assertsOther])).model.definitions =
          [(0, ⟨1, .int⟩)] := rfl
      rw [only, List.mem_singleton, Prod.mk.injEq] at member
      rw [member.2] at position
      contradiction
    have continues : (flushedRun {} buildsItem).Continues
        (flushedRun {} (buildsItem ++ [.declare assertsOther])) assertsOther _ :=
      flushedRun_continues rfl (admits_buildsItem rfl)
    have holds := (continues.restricts realizes.solves).2.1
    rw [(deniesSeven_complements.isTrue_of_undefined (not_isDefined_itemOfTwo beyond)).2] at holds
    contradiction

end Session

end ConstraintCompiler
