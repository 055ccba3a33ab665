import ConstraintCompiler.Proofs.Completion
import Mathlib.Logic.ExistsUnique

/-!
Contract: compiled problems have the solutions that their models have, each once.

Owns:
- `Session.IsDefinedOn`, that an assignment of the user's variables defines every part of every
  subject, with values in the domains of added variables;
- `Session.IsLogical`, that only truth values are joined, which makes everything defined;
- `Session.flushedRun_complete`: in both cases an assignment that makes the accepted declarations
  true extends to exactly one solution of the recorded postings, and any other to none.
-/

namespace ConstraintCompiler

namespace Session

/-- The assignment extends to one solution if it makes the accepted declarations true, and to none
otherwise. -/
def Determines (session : Session) (assignment : Assignment) : Prop :=
  ((∀ declaration ∈ session.declared, declaration.isTrue assignment = true) →
      ∃! solution, session.Solves assignment solution) ∧
    ((∃ solution, session.Solves assignment solution) →
      ∀ declaration ∈ session.declared, declaration.isTrue assignment = true)

/-- Everything that occurs in a subject is defined, and the values of composites lie in the domains
of added variables. -/
structure IsDefinedOn (session : Session) (assignment : Assignment) : Prop where
  defined : ∀ subject ∈ session.subjects, ∀ part : Expression, part.Within subject →
    part.IsDefined assignment
  fits : ∀ subject ∈ session.subjects, ∀ part : Expression, part.Within subject →
    part.label? ≠ none → ∀ value, part.value? assignment = some value →
      (session.model.settings.auxiliaryDomain value.kind).Contains value

/-- Every composite joins truth values, and subjects mention the user's variables alone. -/
structure IsLogical (session : Session) : Prop where
  logical : ∀ expression ∈ session.built, ∃ label operator operands kind,
    expression = .composite label (.logic operator) operands kind
  mentions : ∀ subject ∈ session.subjects, ∀ v ∈ subject.mentions, ¬session.IsAdded v.id

section Determination

variable {session : Session} {assignment : Assignment} (compiled : session.Compiled)
  (recorded : session.model.stated = session.model.problem.postings)
  (users : session.IsUsers assignment)

include compiled recorded users

/-- An assignment that settles every subject, and gives every composite with a variable a value,
determines what it extends to. -/
theorem Compiled.determines (settled : session.IsSettled assignment)
    (valued : session.IsValued assignment) : session.Determines assignment := by
  have solvable := compiled.exists_solves_iff users settled recorded
  constructor
  · intro holds
    obtain ⟨solution, completes, satisfied⟩ := solvable.mpr ⟨valued, holds⟩
    refine ⟨solution, ⟨completes, satisfied⟩, ?_⟩
    rintro other ⟨otherCompletes, otherSatisfied⟩
    exact compiled.completion_unique settled otherCompletes
      ((compiled.isSatisfied_iff otherCompletes.assigned recorded).mp otherSatisfied).1 completes
      ((compiled.isSatisfied_iff completes.assigned recorded).mp satisfied).1
  · intro solved
    exact (solvable.mp solved).2

end Determination

/-- Where only truth values are joined, everything at hand that mentions no variable of a composite
has a value. -/
theorem IsLogical.hasValue {session : Session} {assignment : Assignment}
    (logical : session.IsLogical) (wellBuilt : session.IsWellBuilt)
    (users : session.IsUsers assignment) {expression : Expression}
    (atHand : session.AtHand expression)
    (mentions : ∀ v ∈ expression.mentions, ¬session.IsAdded v.id) :
    expression.HasValue assignment := by
  induction expression using Expression.partInduction with
  | step whole inductionHypothesis =>
      by_cases simple : whole.label? = none
      · apply Expression.hasValue_of_mentions users.respects atHand simple
        intro v mentioned
        obtain ⟨domain, known, _⟩ := (atHand.knows wellBuilt v mentioned).domain
        obtain ⟨value, found, _⟩ := users.assigned v.id domain known (mentions v mentioned)
        exact ⟨value, found⟩
      · cases whole with
        | composite label connective operands kind =>
            obtain ⟨_, operator, _, _, same⟩ := logical.logical _ (List.mem_of_getElem? atHand)
            cases same
            obtain ⟨joins, operandsAtHand⟩ := atHand.joins wellBuilt
            cases joins with
            | logic truths binary =>
                obtain ⟨read, found, length⟩ := Expression.exists_bools? truths
                  fun operand member => inductionHypothesis operand member operand (.self _)
                    (operandsAtHand operand member) fun v mentioned =>
                      mentions v (Expression.mem_mentions_composite member mentioned _ _ _)
                obtain ⟨truth, joined⟩ : ∃ truth, operator.eval? read = some truth :=
                  LogicOperator.exists_eval? fun plain => length.trans (binary plain)
                exact ⟨.bool truth, by simp [Expression.value?, found, joined], rfl⟩
        | _ => exact absurd rfl simple

/-- After every admitted run and a last flush, an assignment of the user's variables that defines
everything that was declared or resolved, within the domains of added variables, and makes the
accepted declarations true, extends to exactly one solution of the recorded postings, which lies
within these domains; one that makes a declaration false extends to none. Where only truth values
are joined, so does every assignment of the user's variables. -/
theorem flushedRun_complete (settings : Model.Settings) (actions : List Action)
    (admits : (start settings).Admits actions) :
    (∀ assignment, (flushedRun settings actions).IsUsers assignment →
        (flushedRun settings actions).IsDefinedOn assignment →
        (flushedRun settings actions).Determines assignment ∧
          ∀ solution, (flushedRun settings actions).Solves assignment solution →
            ∀ label v, (flushedRun settings actions).model.definition? label = some v →
              ∃ value, solution v.id = some value ∧
                (settings.auxiliaryDomain v.kind).Contains value) ∧
      ((flushedRun settings actions).IsLogical →
        ∀ assignment, (flushedRun settings actions).IsUsers assignment →
          (flushedRun settings actions).Determines assignment) := by
  obtain ⟨compiled, _, recorded⟩ := flushedRun_spec admits
  have sameSettings := flushedRun_settings admits
  generalize flushedRun settings actions = session at compiled recorded sameSettings ⊢
  constructor
  · intro assignment users definedOn
    have settled : session.IsSettled assignment := by
      intro subject member part within
      exact .of_isDefined users (definedOn.defined subject member part within)
    constructor
    · apply compiled.determines recorded users settled
      apply compiled.isValued_of_subjects
      intro subject member part within labelled
      have partDefined := definedOn.defined subject member part within
      cases part with
      | composite => exact partDefined
      | _ => exact absurd rfl labelled
    · rintro solution ⟨completes, satisfied⟩ label v found
      have faithful := ((compiled.isSatisfied_iff completes.assigned recorded).mp satisfied).1
      obtain ⟨expression, value, built, labelled, valueFound, variableFound, kind⟩ :=
        compiled.value_of_added settled completes faithful (compiled.definition?_iff.mp found)
      have fits := compiled.forall_added definedOn.fits label v (compiled.definition?_iff.mp found)
        expression built labelled value valueFound
      rw [kind, sameSettings] at fits
      exact ⟨value, variableFound, fits⟩
  · intro logical assignment users
    apply compiled.determines recorded users (.of_mentions logical.mentions assignment)
    apply compiled.isValued_of_subjects
    intro subject member part within labelled
    have atHand := (compiled.atHand subject member).within compiled.wellBuilt within
    have hasValue := logical.hasValue compiled.wellBuilt users atHand fun v mentioned =>
      logical.mentions subject member v (Expression.mentions_subset_of_within within v mentioned)
    cases part with
    | composite =>
        obtain ⟨value, found, _⟩ := hasValue.scalar rfl
        exact ⟨value, found⟩
    | _ => exact absurd rfl labelled

def pairOfIntegers : VariableArray := ⟨.int, [⟨0, .int⟩, ⟨1, .int⟩], by decide⟩

def sumOfPair : Expression :=
  .composite 0 (.aggregate .sum) [.array pairOfIntegers] .int

def largestOfPair : Expression :=
  .composite 1 (.aggregate .max) [.array pairOfIntegers] .int

/-- The sum gets a variable from a reified comparison, and the maximum is tied to one of its own
items without one. -/
def boundedSum : List Action :=
  [ .allocateArray 2 (.int 0 9),
    .allocate .bool,
    .build (.aggregate .sum pairOfIntegers),
    .build (.aggregate .max pairOfIntegers),
    .declare
      { statement := .relate sumOfPair .lt (.constant (.int 7))
        options := { target := some (.variable ⟨2, .bool⟩) } },
    .declare { statement := .relate (.variable ⟨0, .int⟩) .eq largestOfPair } ]

private theorem within_pair {label : Label} {function : Aggregate} {part : Expression}
    (within : part.Within
      (.composite label (.aggregate function) [.array pairOfIntegers] .int)) :
    part = .composite label (.aggregate function) [.array pairOfIntegers] .int ∨
      part = .array pairOfIntegers := by
  cases within with
  | self => exact .inl rfl
  | operand member within =>
      rw [List.mem_singleton.mp member] at within
      cases within
      exact .inr rfl

theorem boundedSum_complete :
    (start {}).Admits boundedSum ∧
      (flushedRun {} boundedSum).IsUsers
        (Search.assigning [.int 3, .int 2, .bool true]) ∧
      (flushedRun {} boundedSum).IsDefinedOn
        (Search.assigning [.int 3, .int 2, .bool true]) ∧
      ∃! solution, (flushedRun {} boundedSum).Solves
        (Search.assigning [.int 3, .int 2, .bool true]) solution := by
  have admits : (start {}).Admits boundedSum := by
    refine ⟨nofun, nofun, ?_, ?_, ?_, ?_, trivial⟩
    all_goals intro expression member
    · rw [List.mem_singleton.mp member]
      intro v mentioned
      rcases List.mem_pair.mp mentioned with rfl | rfl <;> rfl
    · rw [List.mem_singleton.mp member]
      intro v mentioned
      rcases List.mem_pair.mp mentioned with rfl | rfl <;> rfl
    · rcases member with _ | ⟨_, _ | ⟨_, _ | ⟨_, _ | _⟩⟩⟩ <;> trivial
    · rcases List.mem_pair.mp member with rfl | rfl <;> rfl
  have users : (flushedRun {} boundedSum).IsUsers
      (Search.assigning [.int 3, .int 2, .bool true]) := by
    constructor
    · intro id domain found notAdded
      rcases id with _ | _ | _ | _ | id
      · cases found
        exact ⟨.int 3, rfl, rfl⟩
      · cases found
        exact ⟨.int 2, rfl, rfl⟩
      · cases found
        exact ⟨.bool true, rfl, rfl⟩
      · exact absurd ⟨0, ⟨3, .int⟩, rfl, rfl⟩ notAdded
      · cases found
    · intro id value found
      have small : id < 3 := (List.getElem?_eq_some_iff.mp found).1
      refine ⟨Nat.lt_of_lt_of_le small (by decide), ?_⟩
      rintro ⟨label, v, defined, rfl⟩
      have member := Model.mem_definitions_of_definition? defined
      have only : (flushedRun {} boundedSum).model.definitions = [(0, ⟨3, .int⟩)] := rfl
      rw [only, List.mem_singleton, Prod.mk.injEq] at member
      rw [member.2] at small
      exact absurd small (by decide)
  have definedOn : (flushedRun {} boundedSum).IsDefinedOn
      (Search.assigning [.int 3, .int 2, .bool true]) := by
    have parts : ∀ subject ∈ (flushedRun {} boundedSum).subjects, ∀ part : Expression,
        part.Within subject →
          part ∈ [.array pairOfIntegers, sumOfPair, largestOfPair, .constant (.int 7),
            .variable ⟨0, .int⟩, .variable ⟨2, .bool⟩] := by
      intro subject member part within
      have subjects : (flushedRun {} boundedSum).subjects =
        [sumOfPair, .constant (.int 7), .variable ⟨2, .bool⟩, .variable ⟨0, .int⟩,
          largestOfPair] := rfl
      rw [subjects] at member
      simp only [List.mem_cons, List.not_mem_nil, or_false] at member ⊢
      rcases member with rfl | rfl | rfl | rfl | rfl
      · exact (within_pair within).elim (fun same => .inr (.inl same)) .inl
      · cases within
        simp
      · cases within
        simp
      · cases within
        simp
      · exact (within_pair within).elim (fun same => .inr (.inr (.inl same))) .inl
    constructor
    · intro subject member part within
      have kinds := parts subject member part within
      simp only [List.mem_cons, List.not_mem_nil, or_false] at kinds
      rcases kinds with rfl | rfl | rfl | rfl | rfl | rfl <;> exact ⟨_, rfl⟩
    · intro subject member part within labelled value found
      have kinds := parts subject member part within
      simp only [List.mem_cons, List.not_mem_nil, or_false] at kinds
      rcases kinds with rfl | rfl | rfl | rfl | rfl | rfl
      all_goals try exact absurd rfl labelled
      · cases found
        exact ⟨by decide, by decide⟩
      · cases found
        exact ⟨by decide, by decide⟩
  refine ⟨admits, users, definedOn, ?_⟩
  exact (((flushedRun_complete {} boundedSum admits).1 _ users definedOn).1.1 (by decide))

end Session

end ConstraintCompiler
