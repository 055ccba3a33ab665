import ConstraintCompiler.Proofs.Comparison
import ConstraintCompiler.Proofs.Growth
import ConstraintCompiler.Proofs.Recording

/-!
Contract: compiled postings are accepted, and decided under every full assignment.

Owns:
- `Posting.IsMeaningful`, that a posting's relation fits the values that it compares, which no
  problem checks;
- `Posting.exists_verdict`, that a meaningful posting without an objection is decided once every
  variable has a value of its kind;
- `Session.queued_postings_decided`: after an admitted run, whatever was queued on the way is
  accepted, decided, and recorded by the next flush.
-/

namespace ConstraintCompiler

theorem Relation.fits_eq (kind : Kind) : eq.fits kind = true := by
  cases kind <;> rfl

namespace Posting
/-- A relation that is needed fits the kind that it compares, and no set is looked up in a table. -/
structure IsMeaningful (posting : Posting) : Prop where
  fits : posting.primitive.needsRelation = true → ∃ relation kind,
    posting.relation = some relation ∧ posting.comparedKind? = some kind ∧
      relation.fits kind = true
  coded : posting.primitive = .table →
    ∀ argument ∈ posting.arguments, ∀ v ∈ argument.mentions, v.kind ≠ .set

theorem IsMeaningful.exists_relation {posting : Posting} (meaningful : posting.IsMeaningful)
    (kind : Kind) (needed : posting.primitive.needsRelation = true)
    (compared : posting.comparedKind? = some kind) :
    ∃ relation, posting.relation = some relation ∧ relation.fits kind = true := by
  obtain ⟨relation, other, given, found, fits⟩ := meaningful.fits needed
  cases compared.symm.trans found
  exact ⟨relation, given, fits⟩

end Posting

namespace Posting

/-- A relation that fits the values of both sides decides their comparison. -/
theorem exists_compareSides? {posting : Posting} {relation : Relation} {kind : Kind}
    (given : posting.relation = some relation) (fits : relation.fits kind = true)
    {left : Option Value} (leftKind : ∀ value ∈ left, value.kind = kind) {right : Value}
    (rightKind : right.kind = kind) :
    ∃ truth, posting.compareSides? left (some right) = some truth := by
  cases left with
  | none => exact ⟨false, rfl⟩
  | some value =>
      have valueKind := leftKind value rfl
      obtain ⟨truth, decided⟩ := Relation.exists_between? (valueKind.trans rightKind.symm)
        (valueKind.symm ▸ fits)
      exact ⟨truth, by simp [compareSides?, given, decided]⟩

section Decision

variable {problem : Problem} {assignment : Assignment} (assigned : problem.IsAssigned assignment)
  {posting : Posting} (knows : ∀ v ∈ posting.mentions, problem.Knows v)

include assigned knows
private theorem exists_logicCondition? {operator : LogicOperator}
    (shaped : fitsConnective (.logic operator) posting.arguments = true) :
    ∃ truth, logicCondition? operator posting assignment = some truth := by
  simp only [fitsConnective, Bool.and_eq_true, List.all_eq_true] at shaped
  obtain ⟨scalars, arity⟩ := shaped
  obtain ⟨operands, result, sides, operandsMember, resultMember, length⟩ :
      ∃ operands result, logicSides operator posting.arguments = (operands, some result) ∧
        (∀ operand ∈ operands, operand ∈ posting.arguments) ∧ result ∈ posting.arguments ∧
        (operator.flattens = false → operands.length = 2) := by
    cases flattens : operator.flattens with
    | true =>
        have filled : posting.arguments ≠ [] := by simpa [flattens] using arity
        refine ⟨posting.arguments.dropLast, posting.arguments.getLast filled, ?_,
          fun _ member => List.dropLast_subset _ member, List.getLast_mem filled,
          fun plain => Bool.noConfusion plain⟩
        rw [logicSides, if_pos flattens, List.getLast?_eq_some_getLast filled]
    | false =>
        have three : posting.arguments.length = 3 := by simpa [flattens] using arity
        obtain ⟨left, right, result, given⟩ := List.length_eq_three.mp three
        exact ⟨[left, right], result, by simp [logicSides, flattens, given], by simp [given],
          by simp [given], fun _ => rfl⟩
  have known : ∀ argument ∈ posting.arguments, ∀ v ∈ argument.mentions, problem.Knows v :=
    fun argument member v mentioned => knows v (mem_mentions_of_argument member mentioned)
  obtain ⟨value, read, kind⟩ := Argument.exists_scalar? assigned (known result resultMember)
    (eq_of_beq (scalars result resultMember))
  obtain ⟨bound, rfl⟩ := Value.exists_bool kind
  obtain ⟨truths, found, same⟩ := Argument.exists_truths assigned
    (fun operand member => known operand (operandsMember operand member))
    (fun operand member => scalars operand (operandsMember operand member))
  obtain ⟨joined, joins⟩ : ∃ joined, operator.eval? truths = some joined :=
    LogicOperator.exists_eval? fun plain => same.trans (length plain)
  have readOperands : (operands.mapM fun operand => do
      (← operand.scalar? assignment).asBool?) = some truths := found
  have readResult : (Value.bool bound).asBool? = some bound := rfl
  refine ⟨joined == bound, ?_⟩
  rw [logicCondition?, sides]
  simp only [Option.bind_eq_bind] at readOperands
  simp only [Option.bind_eq_bind, Option.bind_some, read, readResult, readOperands, joins,
    Option.pure_def]

private theorem exists_channelCondition? {form : ChannelForm}
    (shaped : fitsChannel form posting.arguments = true) :
    ∃ truth, posting.channelCondition? assignment form = some truth := by
  unfold fitsChannel at shaped
  split at shaped
  case h_1 flags number offset given =>
    obtain ⟨flagsArray, numberScalar⟩ := Bool.and_eq_true_iff.mp shaped
    obtain ⟨truths, readFlags⟩ :=
      exists_boolsAt? assigned knows 0 (by rw [given]; rfl) flagsArray
    obtain ⟨position, readNumber⟩ :=
      exists_intAt? assigned knows 1 (by rw [given]; rfl) numberScalar
    exact ⟨Channel.boolInt truths position offset, by
      simp [channelCondition?, readFlags, readNumber, given, Argument.constant?]⟩
  case h_2 flags members given =>
    obtain ⟨flagsArray, membersScalar⟩ := Bool.and_eq_true_iff.mp shaped
    obtain ⟨truths, readFlags⟩ :=
      exists_boolsAt? assigned knows 0 (by rw [given]; rfl) flagsArray
    obtain ⟨held, readMembers⟩ :=
      exists_setAt? assigned knows 1 (by rw [given]; rfl) membersScalar
    exact ⟨Channel.boolSet truths held, by simp [channelCondition?, readFlags, readMembers]⟩
  case h_3 left right given =>
    obtain ⟨leftArray, rightArray⟩ := Bool.and_eq_true_iff.mp shaped
    obtain ⟨numbers, readLeft⟩ :=
      exists_intsAt? assigned knows 0 (by rw [given]; rfl) leftArray
    obtain ⟨others, readRight⟩ :=
      exists_intsAt? assigned knows 1 (by rw [given]; rfl) rightArray
    exact ⟨Channel.intInt numbers others, by simp [channelCondition?, readLeft, readRight]⟩
  case h_4 items sets given =>
    obtain ⟨itemsArray, setsArray⟩ := Bool.and_eq_true_iff.mp shaped
    obtain ⟨numbers, readItems⟩ :=
      exists_intsAt? assigned knows 0 (by rw [given]; rfl) itemsArray
    obtain ⟨held, readSets⟩ :=
      exists_setsAt? assigned knows 1 (by rw [given]; rfl) setsArray
    exact ⟨Channel.intSet numbers held, by simp [channelCondition?, readItems, readSets]⟩
  case h_5 => cases shaped

private theorem exists_plainItems {vs : List Variable} {rest : List Argument}
    (given : posting.arguments = .vars vs :: rest)
    (plain : ∀ argument ∈ posting.arguments, ∀ v ∈ argument.mentions, v.kind ≠ .set) :
    ∃ values, posting.arrayAt? assignment 0 = some values ∧
      ∀ value ∈ values, value.kind ≠ .set := by
  have isArgument : Argument.vars vs ∈ posting.arguments := by
    rw [given]
    exact List.mem_cons_self ..
  have known : ∀ v ∈ vs, problem.Knows v :=
    fun v member => knows v (mem_mentions_of_argument isArgument member)
  obtain ⟨values, found⟩ : ∃ values, vs.mapM (fun v => assignment v.id) = some values := by
    apply exists_mapM_eq_some
    intro v member
    obtain ⟨value, valueFound, _⟩ := assigned.value (known v member)
    exact ⟨value, valueFound⟩
  refine ⟨values, by rw [arrayAt?, given]; exact found, fun value member => ?_⟩
  obtain ⟨v, vMember, valueFound⟩ := exists_of_mem_mapM found member
  rw [assigned.respects.kind (known v vMember) valueFound]
  exact plain _ isArgument v vMember

/-- A meaningful posting that compares something decides the comparison. -/
private theorem exists_condition?_of_comparison (shaped : posting.isWellShaped = true)
    (meaningful : posting.IsMeaningful) (needed : posting.primitive.needsRelation = true)
    (whole : posting.primitive ≠ .setElements) :
    ∃ truth, posting.condition? assignment = some truth := by
  obtain ⟨relation, kind, related, compared, fits⟩ := meaningful.fits needed
  obtain ⟨right, rightKind, leftKind, condition⟩ :=
    exists_comparison assigned knows shaped compared whole
  rw [condition]
  exact exists_compareSides? related fits leftKind rightKind

/-- The condition of a meaningful posting whose arguments fit its primitive is decided. -/
theorem exists_condition? (shaped : posting.isWellShaped = true)
    (meaningful : posting.IsMeaningful) :
    ∃ truth, posting.condition? assignment = some truth := by
  have comparison := exists_condition?_of_comparison assigned knows shaped meaningful
  unfold isWellShaped at shaped
  split at shaped
  case h_1 connective primitive =>
    cases connective with
    | logic operator =>
        rw [condition?, primitive]
        exact exists_logicCondition? assigned knows shaped
    | _ => exact comparison (by rw [primitive]; rfl) (by simp [primitive])
  case h_2 primitive _ => exact comparison (by rw [primitive]; rfl) (by simp [primitive])
  case h_3 items primitive given =>
    obtain ⟨numbers, readItems⟩ := exists_intsAt? assigned knows 0 (by rw [given]; rfl) shaped
    exact ⟨allDistinct numbers, by simp [condition?, primitive, readItems]⟩
  case h_4 items primitive given =>
    obtain ⟨numbers, readItems⟩ := exists_intsAt? assigned knows 0 (by rw [given]; rfl) shaped
    exact ⟨isSorted numbers, by simp [condition?, primitive, readItems]⟩
  case h_5 vs rows primitive given =>
    obtain ⟨values, readItems, plain⟩ := exists_plainItems assigned knows given
      (meaningful.coded primitive)
    obtain ⟨codes, coded⟩ : ∃ codes, values.mapM Value.code? = some codes := by
      apply exists_mapM_eq_some
      intro value member
      cases value with
      | set members => exact absurd rfl (plain _ member)
      | _ => exact ⟨_, rfl⟩
    exact ⟨rows.contains codes, by
      simp [condition?, primitive, readItems, coded, given, Argument.rows?]⟩
  case h_6 form primitive =>
    rw [condition?, primitive]
    exact exists_channelCondition? assigned knows shaped
  case h_7 primitive _ => exact comparison (by rw [primitive]; rfl) (by simp [primitive])
  case h_8 members bound primitive given =>
    obtain ⟨membersScalar, boundScalar⟩ := Bool.and_eq_true_iff.mp shaped
    obtain ⟨relation, related, fits⟩ := meaningful.exists_relation .int (by rw [primitive]; rfl)
      (by simp [comparedKind?, primitive])
    obtain ⟨held, readMembers⟩ :=
      exists_setAt? assigned knows 0 (by rw [given]; rfl) membersScalar
    obtain ⟨number, readBound⟩ :=
      exists_intAt? assigned knows 1 (by rw [given]; rfl) boundScalar
    have arithmetic : relation.isArithmetic = true := fits
    exact ⟨held.elements.all fun element => relation.compare element number, by
      simp [condition?, primitive, related, arithmetic, readMembers, readBound]⟩
  case h_9 => cases shaped

end Decision

/-- A posting without an objection is decided once its condition is and every variable has a value
of its kind. -/
theorem exists_verdict_of_condition {problem : Problem} {assignment : Assignment}
    (assigned : problem.IsAssigned assignment) {posting : Posting}
    (accepted : problem.objection? posting = none) {truth : Bool}
    (condition : posting.condition? assignment = some truth) :
    ∃ truth, posting.verdict assignment = some truth := by
  obtain ⟨knows, form⟩ := Problem.objection?_eq_none_iff.mp accepted
  obtain ⟨_, _, _, reification⟩ := Problem.formObjection?_eq_none_iff.mp form
  cases found : posting.target with
  | none => exact ⟨_, verdict_of_plain condition found⟩
  | some target =>
      have known := knows target (List.mem_append_right _ (by simp [found]))
      obtain ⟨value, read, kind⟩ := assigned.value known
      obtain ⟨bound, rfl⟩ := Value.exists_bool (kind.trans (reification target found).2)
      exact ⟨_, verdict_of_target condition found read⟩

theorem exists_verdict {problem : Problem} {assignment : Assignment}
    (assigned : problem.IsAssigned assignment) {posting : Posting}
    (accepted : problem.objection? posting = none) (meaningful : posting.IsMeaningful) :
    ∃ truth, posting.verdict assignment = some truth := by
  obtain ⟨knows, form⟩ := Problem.objection?_eq_none_iff.mp accepted
  obtain ⟨shaped, _⟩ := Problem.formObjection?_eq_none_iff.mp form
  obtain ⟨truth, condition⟩ := exists_condition? assigned knows shaped meaningful
  exact exists_verdict_of_condition assigned accepted condition

end Posting

/-! ### What a session states is meaningful -/

theorem Posting.Compares.isMeaningful {model : Model} {posting : Posting}
    {connective : Connective} {operands : List Expression} {kind : Kind}
    {arguments : List Argument} {result : Argument}
    (compares : posting.Compares connective arguments result)
    (joins : connective.Joins operands kind)
    (represents : model.RepresentsOperands connective operands arguments)
    (resultKind : result.scalarKind? = some kind) : posting.IsMeaningful := by
  obtain ⟨primitive, given, relation⟩ := compares
  constructor
  · intro needed
    rw [primitive] at needed
    refine ⟨.eq, kind, ?_, ?_, Relation.fits_eq kind⟩
    · rw [relation, Connective.posting, if_pos needed]
    · cases joins with
      | logic => cases needed
      | element =>
          obtain _ | ⟨_, _ | ⟨_, _ | _⟩⟩ := represents
          simp [comparedKind?, primitive, given, resultKind]
      | _ => simp [comparedKind?, primitive]
  · rw [primitive]
    intro impossible
    cases impossible

namespace Session.Compiled

variable {session : Session} (compiled : session.Compiled)

include compiled

private theorem isMeaningful_statement {offset : Int} {statement : Statement}
    {primitive : Primitive} {subjects : List Expression} {swapped : Bool}
    {constants : List Argument} {relation : Option Relation}
    (becomes : statement.Becomes offset primitive subjects swapped constants relation)
    {posting : Posting} {arguments : List Argument} (primitive_eq : posting.primitive = primitive)
    (arguments_eq : posting.arguments =
      (if swapped then arguments.reverse else arguments) ++ constants)
    (relation_eq : posting.relation = relation)
    (represents : List.Forall₂ session.model.Represents subjects arguments)
    (atHand : ∀ subject ∈ subjects, session.AtHand subject) : posting.IsMeaningful := by
  have fits := compiled.fits_each represents atHand
  constructor
  · rw [primitive_eq, relation_eq]
    unfold Posting.comparedKind?
    rw [primitive_eq, arguments_eq]
    intro needed
    cases becomes with
    | @relate left right relation kind leftShape relationFits rightShape =>
        obtain _ | ⟨leftFits, _⟩ := fits
        rw [leftShape] at leftFits
        exact ⟨relation, kind, rfl, leftFits.scalarKind?, relationFits⟩
    | truth shape =>
        obtain _ | ⟨subjectFits, _⟩ := fits
        rw [shape] at subjectFits
        exact ⟨.eq, .bool, rfl, subjectFits.scalarKind?, rfl⟩
    | @setOperation _ comparison =>
        exact ⟨comparison.relation, .set, rfl, rfl, by cases comparison <;> rfl⟩
    | @setElements _ relation _ arithmetic => exact ⟨relation, .int, rfl, rfl, arithmetic⟩
    | distinct | sorted | table | channel => cases needed
  · rw [primitive_eq, arguments_eq]
    rintro rfl argument member v mentioned
    cases becomes with
    | @table items rows kind lengths =>
        obtain _ | ⟨head, _ | _⟩ := represents
        cases head
        rcases List.mem_pair.mp member with rfl | rfl
        · rw [items.uniform v mentioned]
          exact kind
        · cases mentioned

/-- Whatever a compiled session states is meaningful. -/
theorem isMeaningful : ∀ posting ∈ session.model.stated, posting.IsMeaningful := by
  intro posting member
  cases compiled.accounts posting member with
  | @definition label v connective operands kind arguments defined introduces =>
      have atHand : session.AtHand (.composite label connective operands kind) := introduces.built
      have compares : (connective.posting arguments (.var v)).Compares connective arguments
          (.var v) := ⟨rfl, rfl, rfl⟩
      exact compares.isMeaningful (atHand.joins compiled.wellBuilt).1 introduces.represents
        (congrArg some introduces.kind_eq)
  | @declaration declaration plan _ declared planned finishes =>
      have checked := Declaration.plan_eq_ok planned
      have subjectsAtHand : ∀ subject ∈ plan.subjects, session.AtHand subject :=
        fun subject inSubjects => checked.atHand
          (fun expression inDeclaration =>
            compiled.atHand expression (mem_subjects_of_declared declared inDeclaration))
          subject (List.mem_append_left _ inSubjects)
      cases finishes with
      | plain subjects _ =>
          exact compiled.isMeaningful_statement checked.becomes rfl rfl rfl subjects subjectsAtHand
      | @fused composite left right other arguments result equality faces represents operands =>
          obtain ⟨compositeMember, otherMember, otherShape, _⟩ := checked.fusion equality faces
          have atHand := subjectsAtHand composite.expression compositeMember
          have resultFits :=
            compiled.fits_of_represents represents (subjectsAtHand other otherMember)
          rw [otherShape] at resultFits
          have compares : (plan.fusedPosting composite.connective arguments result).Compares
              composite.connective arguments result := ⟨rfl, rfl, rfl⟩
          exact compares.isMeaningful (Session.AtHand.joins compiled.wellBuilt atHand).1 operands
            resultFits.scalarKind?

end Session.Compiled

namespace Session

/-- Whatever is stated at some moment of an admitted run is stated from then on. The problem accepts
it at every later moment and decides it under every assignment of all variables, and every later
flush succeeds and records all that waits. -/
theorem queued_postings_decided (settings : Model.Settings) (actions more : List Action)
    (admits : (start settings).Admits (actions ++ more)) :
    let earlier := (start settings).run actions
    let later := (start settings).run (actions ++ more)
    (∀ posting ∈ earlier.model.stated,
        posting ∈ later.model.stated ∧
          (∃ next, later.model.problem.post posting = .ok next) ∧
          ∀ assignment, later.model.problem.IsAssigned assignment →
            ∃ truth, posting.verdict assignment = some truth) ∧
      ∃ after, Model.flush later.model = (.ok later.model.queue.length, after) ∧
        after.queue = [] ∧ after.problem.domains = later.model.problem.domains ∧
        after.problem.postings = later.model.stated := by
  obtain ⟨admitsActions, admitsMore⟩ := admits_append.mp admits
  have earlierCompiled := (compiled_start settings).run admitsActions
  have laterCompiled := (compiled_start settings).run admits
  have grows := earlierCompiled.run_grows admitsMore
  rw [← run_append] at grows
  intro earlier later
  constructor
  · intro posting stated
    have laterStated : posting ∈ later.model.stated := grows.stated posting stated
    have accepted := laterCompiled.accepts posting laterStated
    refine ⟨laterStated, ⟨_, Problem.post_eq_ok.mpr ⟨accepted, rfl⟩⟩, fun assignment assigned => ?_⟩
    exact Posting.exists_verdict assigned accepted (laterCompiled.isMeaningful posting laterStated)
  · obtain ⟨executed, journal, flushed⟩ := laterCompiled.flush
    exact ⟨_, flushed, rfl, rfl, rfl⟩

/-- The largest of no integers is denied to be a variable, so that the posting compares a composite
without a value. -/
def deniesMaximum : List Action :=
  [ .allocate (.int 0 9),
    .build (.aggregate .max ⟨.int, [], nofun⟩),
    .declare
      { statement := .relate (.composite 0 (.aggregate .max) [.array ⟨.int, [], nofun⟩] .int) .eq
          (.variable ⟨0, .int⟩)
        negated := true } ]

theorem deniesMaximum_decided :
    (start {}).Admits (deniesMaximum ++ [.allocate .bool]) ∧
      (∃ posting ∈ ((start {}).run deniesMaximum).model.stated,
        ∃ truth, posting.verdict (Search.assigning [.int 3, .bool true]) = some truth) ∧
      ∃ after, Model.flush ((start {}).run (deniesMaximum ++ [.allocate .bool])).model =
        (.ok 1, after) ∧ after.queue = [] := by
  have admits : (start {}).Admits (deniesMaximum ++ [.allocate .bool]) := by
    refine ⟨nofun, ?_, ?_, nofun, trivial⟩
    · intro expression member
      rw [List.mem_singleton.mp member]
      exact nofun
    · intro expression member
      rcases List.mem_pair.mp member with rfl | rfl <;> rfl
  obtain ⟨decided, after, flushed, emptied, _⟩ :=
    queued_postings_decided {} deniesMaximum [.allocate .bool] admits
  refine ⟨admits, ?_, after, flushed, emptied⟩
  obtain ⟨_, _, truth⟩ := decided _ (List.mem_singleton_self _)
  exact ⟨_, List.mem_singleton_self _, truth _ (Problem.isAssigned_assigning rfl)⟩

end Session

end ConstraintCompiler
