import ConstraintCompiler.Proofs.Satisfaction
import Mathlib.Data.List.Nodup

/-!
Contract: assignments of the user's variables, and their extension to the variables of composites.

Owns:
- `Session.IsAdded`, the identifiers that compilation gave to composites, `Session.IsUsers`, an
  assignment of all the others, and `Session.Completes`, its extension to all;
- `Session.Settles`, that an expression has in every such extension what the user's assignment
  gives it, and `Session.IsSettled`, that everything in subjects does;
- `Session.Compiled.exists_solves_iff` and `Session.Compiled.completion_unique`, when an extension
  satisfies what is recorded, and that there is at most one.
-/

namespace ConstraintCompiler

namespace Session

def IsAdded (session : Session) (id : Nat) : Prop :=
  ∃ label v, session.model.definition? label = some v ∧ v.id = id

/-- Every variable that belongs to no composite has a value of its kind, and nothing else has
one. -/
structure IsUsers (session : Session) (assignment : Assignment) : Prop where
  assigned : ∀ (id : Nat) (domain : Domain), session.model.problem.domains[id]? = some domain →
    ¬session.IsAdded id → ∃ value, assignment id = some value ∧ value.kind = domain.kind
  only : ∀ (id : Nat) (value : Value), assignment id = some value →
    id < session.model.problem.size ∧ ¬session.IsAdded id

/-- The second assignment gives every variable a value, and differs from the first on the variables
of composites alone. -/
structure Completes (session : Session) (assignment completion : Assignment) : Prop where
  keeps : ∀ id, ¬session.IsAdded id → completion id = assignment id
  assigned : session.model.problem.IsAssigned completion

def Solves (session : Session) (assignment solution : Assignment) : Prop :=
  session.Completes assignment solution ∧ session.model.problem.IsSatisfied solution

/-- The expression has in every completion what the assignment gives it. -/
def Settles (session : Session) (assignment : Assignment) (expression : Expression) : Prop :=
  ∀ completion, session.Completes assignment completion →
    expression.ReadsSame completion assignment

def IsSettled (session : Session) (assignment : Assignment) : Prop :=
  ∀ subject ∈ session.subjects, ∀ part : Expression, part.Within subject →
    session.Settles assignment part

def IsValued (session : Session) (assignment : Assignment) : Prop :=
  ∀ label v, (label, v) ∈ session.model.definitions →
    ∀ expression, session.built[label]? = some expression →
      ∃ value, expression.value? assignment = some value

namespace Compiled

variable {session : Session} (compiled : session.Compiled)

include compiled

theorem definition?_iff {label : Label} {v : Variable} :
    session.model.definition? label = some v ↔ (label, v) ∈ session.model.definitions := by
  refine ⟨Model.mem_definitions_of_definition?, fun defined => ?_⟩
  have labelsNodup : (session.model.definitions.map Prod.fst).Nodup :=
    List.pairwise_map.mpr (compiled.separate.imp fun apart => apart.1)
  obtain ⟨other, found⟩ : ∃ other, session.model.definition? label = some other := by
    refine Option.isSome_iff_exists.mp (List.lookup_isSome_iff.mpr ⟨(label, v), defined, ?_⟩)
    exact beq_self_eq_true label
  have member := Model.mem_definitions_of_definition? found
  have same := List.inj_on_of_nodup_map labelsNodup member defined rfl
  rw [found, (Prod.mk.inj same).2]

theorem isAdded_iff {id : Nat} :
    session.IsAdded id ↔ ∃ label v, (label, v) ∈ session.model.definitions ∧ v.id = id :=
  exists_congr fun _ => exists_congr fun _ => and_congr_left fun _ => compiled.definition?_iff

theorem entry_unique {label other : Label} {v w : Variable}
    (defined : (label, v) ∈ session.model.definitions)
    (otherDefined : (other, w) ∈ session.model.definitions) (same : v.id = w.id) :
    label = other := by
  have idsNodup : (session.model.definitions.map fun entry => entry.2.id).Nodup :=
    List.pairwise_map.mpr (compiled.separate.imp fun apart => Nat.ne_of_gt apart.2)
  exact congrArg Prod.fst (List.inj_on_of_nodup_map idsNodup defined otherDefined same)

end Compiled

/-- The user's assignment, with the values of composites for their variables. -/
def completion (session : Session) (assignment : Assignment) : Assignment := fun id =>
  match session.model.definitions.find? fun entry => entry.2.id == id with
  | some (label, _) => session.built[label]?.bind fun expression => expression.value? assignment
  | none => assignment id

theorem completion_of_not_added {session : Session} (compiled : session.Compiled)
    (assignment : Assignment) {id : Nat} (users : ¬session.IsAdded id) :
    session.completion assignment id = assignment id := by
  have missing : (session.model.definitions.find? fun entry => entry.2.id == id) = none := by
    rw [List.find?_eq_none]
    rintro ⟨label, v⟩ defined same
    exact users (compiled.isAdded_iff.mpr ⟨label, v, defined, eq_of_beq same⟩)
  rw [completion, missing]

theorem completion_of_defined {session : Session} (compiled : session.Compiled)
    (assignment : Assignment) {label : Label} {v : Variable}
    (defined : (label, v) ∈ session.model.definitions) {expression : Expression}
    (built : session.built[label]? = some expression) :
    session.completion assignment v.id = expression.value? assignment := by
  have present : (session.model.definitions.find? fun entry => entry.2.id == v.id).isSome :=
    List.find?_isSome.mpr ⟨(label, v), defined, beq_self_eq_true v.id⟩
  obtain ⟨⟨other, w⟩, found⟩ := Option.isSome_iff_exists.mp present
  have same : w.id = v.id := by simpa using List.find?_some found
  have labels := compiled.entry_unique (List.mem_of_find?_eq_some found) defined same
  rw [completion, found]
  dsimp only
  rw [labels, built]
  rfl

/-- Every expression that has a value under the user's assignment keeps it in a completion. -/
theorem Completes.extends {session : Session} {assignment completion : Assignment}
    (users : session.IsUsers assignment) (completes : session.Completes assignment completion)
    (vs : List Variable) : assignment.ExtendsOn completion vs := by
  intro v _ value found
  rw [completes.keeps v.id (users.only v.id value found).2]
  exact found

theorem IsUsers.respects {session : Session} {assignment : Assignment}
    (users : session.IsUsers assignment) : session.model.problem.Respects assignment := by
  intro id domain value known found
  obtain ⟨other, otherFound, kind⟩ := users.assigned id domain known (users.only id value found).2
  cases found.symm.trans otherFound
  exact kind

namespace Compiled

variable {session : Session} {assignment : Assignment} (compiled : session.Compiled)
  (users : session.IsUsers assignment)

include compiled users

omit users in
theorem isValued_of_subjects
    (valued : ∀ subject ∈ session.subjects, ∀ part : Expression, part.Within subject →
      part.label? ≠ none → ∃ value, part.value? assignment = some value) :
    session.IsValued assignment := by
  intro label v defined expression built
  obtain ⟨_, _, _, rfl, _⟩ := compiled.wellBuilt label expression built
  exact compiled.forall_added valued label v defined _ built nofun

/-- If every composite that has a variable has a value, giving it to the variable completes the
assignment. -/
theorem completes_completion (valued : session.IsValued assignment) :
    session.Completes assignment (session.completion assignment) where
  keeps := fun _ notAdded => completion_of_not_added compiled assignment notAdded
  assigned := by
    intro id domain known
    by_cases added : session.IsAdded id
    · obtain ⟨label, v, member, rfl⟩ := compiled.isAdded_iff.mp added
      obtain ⟨connective, operands, kind, arguments, introduces, _⟩ :=
        compiled.defines label v member
      have atHand : session.AtHand (.composite label connective operands kind) := introduces.built
      obtain ⟨value, found⟩ := valued label v member _ introduces.built
      have valueKind := Expression.kind_of_value? users.respects compiled.wellBuilt atHand rfl found
      have completed := completion_of_defined compiled assignment member introduces.built
      refine ⟨value, completed.trans found, ?_⟩
      cases known.symm.trans introduces.domain
      rw [valueKind, Model.Settings.kind_auxiliaryDomain]
    · rw [completion_of_not_added compiled assignment added]
      exact users.assigned id domain known added

end Compiled

theorem Settles.of_isDefined {session : Session} {assignment : Assignment}
    (users : session.IsUsers assignment) {expression : Expression}
    (defined : expression.IsDefined assignment) : session.Settles assignment expression := by
  intro completion completes
  refine .of_extends (completes.extends users _) ?_
  unfold Expression.IsDefined at defined
  split at defined
  · exact .inl defined
  · exact .inr defined

theorem IsSettled.of_mentions {session : Session}
    (users : ∀ subject ∈ session.subjects, ∀ v ∈ subject.mentions, ¬session.IsAdded v.id)
    (assignment : Assignment) : session.IsSettled assignment := by
  intro subject member part within completion completes
  refine .of_agree fun v mentioned => completes.keeps v.id (users subject member v ?_)
  exact Expression.mentions_subset_of_within within v mentioned

section Extension

variable {session : Session} {assignment : Assignment} (compiled : session.Compiled)
  (users : session.IsUsers assignment) (settled : session.IsSettled assignment)

include compiled settled

/-- Two completions under which the variables of composites are faithful are one. -/
theorem Compiled.completion_unique {first second : Assignment}
    (firstCompletes : session.Completes assignment first)
    (firstFaithful : session.IsFaithful first)
    (secondCompletes : session.Completes assignment second)
    (secondFaithful : session.IsFaithful second) : first = second := by
  have settledAdded := compiled.forall_added settled
  funext id
  by_cases added : session.IsAdded id
  · obtain ⟨label, v, defined, rfl⟩ := compiled.isAdded_iff.mp added
    obtain ⟨expression, value, built, found, firstValue⟩ := firstFaithful label v defined
    obtain ⟨other, otherValue, otherBuilt, otherFound, secondValue⟩ :=
      secondFaithful label v defined
    cases built.symm.trans otherBuilt
    rw [(settledAdded label v defined expression built first firstCompletes).1] at found
    rw [(settledAdded label v defined expression built second secondCompletes).1, found]
      at otherFound
    rw [firstValue, secondValue, otherFound]
  · rw [firstCompletes.keeps id added, secondCompletes.keeps id added]

/-- In a completion under which the variables of composites are faithful, they have the values that
the assignment gives to the composites. -/
theorem Compiled.value_of_added {completion : Assignment}
    (completes : session.Completes assignment completion)
    (faithful : session.IsFaithful completion) {label : Label} {v : Variable}
    (defined : (label, v) ∈ session.model.definitions) :
    ∃ expression value, session.built[label]? = some expression ∧ expression.label? ≠ none ∧
      expression.value? assignment = some value ∧ completion v.id = some value ∧
      value.kind = v.kind := by
  obtain ⟨expression, value, built, found, variableFound⟩ := faithful label v defined
  have same := compiled.forall_added settled label v defined expression built completion completes
  rw [same.1] at found
  obtain ⟨connective, operands, kind, arguments, introduces, _⟩ := compiled.defines label v defined
  cases built.symm.trans introduces.built
  refine ⟨_, value, built, nofun, found, variableFound, ?_⟩
  have domainKind := completes.assigned.respects v.id _ value introduces.domain variableFound
  rw [domainKind, Model.Settings.kind_auxiliaryDomain, introduces.kind_eq]

include users

/-- Where nothing waits, the assignment extends to a solution exactly when every composite with a
variable has a value under it, and it makes the accepted declarations true. -/
theorem Compiled.exists_solves_iff
    (recorded : session.model.stated = session.model.problem.postings) :
    (∃ solution, session.Solves assignment solution) ↔
      session.IsValued assignment ∧
        ∀ declaration ∈ session.declared, declaration.isTrue assignment = true := by
  have settledAdded := compiled.forall_added settled
  have sameTruth : ∀ completion, session.Completes assignment completion →
      ∀ declaration ∈ session.declared,
        declaration.isTrue completion = declaration.isTrue assignment := by
    intro completion completes declaration declared
    apply Declaration.isTrue_congr
    intro expression member
    exact settled expression (mem_subjects_of_declared declared member) expression (.self _)
      completion completes
  constructor
  · rintro ⟨solution, completes, satisfied⟩
    obtain ⟨faithful, holds⟩ := (compiled.isSatisfied_iff completes.assigned recorded).mp satisfied
    refine ⟨fun label v defined expression built => ?_, fun declaration declared => ?_⟩
    · obtain ⟨other, value, otherBuilt, found, _⟩ := faithful label v defined
      cases built.symm.trans otherBuilt
      rw [(settledAdded label v defined expression built solution completes).1] at found
      exact ⟨value, found⟩
    · rw [← sameTruth solution completes declaration declared]
      exact holds declaration declared
  · rintro ⟨valued, holds⟩
    have completes := compiled.completes_completion users valued
    refine ⟨_, completes, (compiled.isSatisfied_iff completes.assigned recorded).mpr ⟨?_, ?_⟩⟩
    · intro label v member
      obtain ⟨_, _, _, _, introduces, _⟩ := compiled.defines label v member
      obtain ⟨value, found⟩ := valued label v member _ introduces.built
      refine ⟨_, value, introduces.built, ?_, ?_⟩
      · rw [(settledAdded label v member _ introduces.built _ completes).1, found]
      · rw [completion_of_defined compiled assignment member introduces.built, found]
    · intro declaration declared
      rw [sameTruth _ completes declaration declared]
      exact holds declaration declared

end Extension

end Session

end ConstraintCompiler
