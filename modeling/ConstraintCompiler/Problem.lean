import ConstraintCompiler.Posting.Shape

/-!
Contract: a constraint problem as it is recorded, variable by variable and posting by posting.

Owns:
- `Problem`, the domains of the allocated variables and the accepted postings, in order;
- `Problem.refusal?`, the first reason for which a posting is not accepted;
- `Problem.post`, which records exactly the postings that nothing speaks against.

Does not own: the meaning of a posting, or search.
-/

namespace ConstraintCompiler

inductive Objection where
  | unknownVariable (v : Variable)
  | kindDiffers (v : Variable)
  | shape
  | missingRelation
  | negation
  | reification
  | targetNotBoolean
  | stated (reason : String)
deriving DecidableEq

namespace Objection

def text : Objection → String
  | .unknownVariable v => s!"unknown variable {v.text}"
  | .kindDiffers v => s!"variable {v.text} has a different kind in this backend"
  | .shape => "argument shape does not match the primitive"
  | .missingRelation => "missing relation code"
  | .negation => "negation not available"
  | .reification => "reification not available"
  | .targetNotBoolean => "reification target must be boolean"
  | .stated reason => reason

end Objection

structure Rejection where
  primitive : Primitive
  objection : Objection
deriving DecidableEq

namespace Rejection

def message (rejection : Rejection) : String :=
  s!"{rejection.primitive.tag} rejected: {rejection.objection.text}"

end Rejection

/-- Allocated variables, by the domain at each identifier, and accepted postings, oldest first. -/
structure Problem where
  domains : List Domain := []
  postings : List Posting := []
deriving DecidableEq

namespace Problem

def size (problem : Problem) : Nat := problem.domains.length

/-- Domain at the identifier of a variable, whatever kind the handle claims. -/
def domain? (problem : Problem) (v : Variable) : Option Domain := problem.domains[v.id]?

def count (problem : Problem) (primitive : Primitive) : Nat :=
  problem.postings.countP fun posting => posting.primitive == primitive

def nextVariable (problem : Problem) (kind : Kind) : Variable := ⟨problem.size, kind⟩

def allocate (problem : Problem) (domain : Domain) : Problem :=
  { problem with domains := problem.domains ++ [domain] }

def variableObjection? (problem : Problem) (v : Variable) : Option Objection :=
  match problem.domain? v with
  | none => some (.unknownVariable v)
  | some domain => if domain.kind = v.kind then none else some (.kindDiffers v)

/-- The objection to a posting's arguments and annotations, leaving aside which variables are
known: shape comes first, then the relation, negation and reification. -/
def formObjection? (posting : Posting) : Option Objection :=
  if !posting.isWellShaped then some .shape
  else if posting.primitive.needsRelation && posting.relation.isNone then some .missingRelation
  else if posting.negated && !posting.primitive.supportsNegation then some .negation
  else match posting.target with
    | none => none
    | some target =>
        if !posting.primitive.supportsReification then some .reification
        else if target.kind = .bool then none
        else some .targetNotBoolean

/-- The first objection to a posting: its variables in order, then its form. -/
def objection? (problem : Problem) (posting : Posting) : Option Objection :=
  (posting.mentions.findSome? problem.variableObjection?).or (formObjection? posting)

def post (problem : Problem) (posting : Posting) : Except Rejection Problem :=
  match problem.objection? posting with
  | some objection => .error ⟨posting.primitive, objection⟩
  | none => .ok { problem with postings := problem.postings ++ [posting] }

@[simp] theorem size_allocate (problem : Problem) (domain : Domain) :
    (problem.allocate domain).size = problem.size + 1 := by
  simp [size, allocate]

/-- The variable announced for an allocation is the one whose domain was appended. -/
theorem domain?_allocate_nextVariable (problem : Problem) (domain : Domain) (kind : Kind) :
    (problem.allocate domain).domain? (problem.nextVariable kind) = some domain := by
  simp [domain?, allocate, nextVariable, size]

theorem domain?_allocate_of_some {problem : Problem} {v : Variable} {known : Domain}
    (found : problem.domain? v = some known) (domain : Domain) :
    (problem.allocate domain).domain? v = some known := by
  simp only [domain?, allocate] at found ⊢
  exact List.getElem?_append_left (List.getElem?_eq_some_iff.mp found).1 |>.trans found

theorem variableObjection?_eq_none_iff {problem : Problem} {v : Variable} :
    problem.variableObjection? v = none ↔
      ∃ domain, problem.domain? v = some domain ∧ domain.kind = v.kind := by
  unfold variableObjection?
  cases found : problem.domain? v <;> simp

/-- A posting is accepted exactly when every variable it mentions is known by its kind and its
form is in order. -/
theorem objection?_eq_none_iff {problem : Problem} {posting : Posting} :
    problem.objection? posting = none ↔
      (∀ v ∈ posting.mentions, problem.variableObjection? v = none) ∧
        formObjection? posting = none := by
  simp [objection?, Option.or_eq_none_iff, List.findSome?_eq_none_iff]

end Problem

end ConstraintCompiler
