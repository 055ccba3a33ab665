/-!
Contract: handles of decision variables.

Owns:
- the three kinds of value a variable can range over, with their names;
- `Variable`, an identifier together with its kind, its two texts and its order.

Does not own: domains. A handle may name a variable that no problem knows.
-/

namespace ConstraintCompiler

/-- What a variable ranges over: truth values, integers, or finite sets of integers. -/
inductive Kind where
  | bool
  | int
  | set
deriving DecidableEq

namespace Kind

def name : Kind → String
  | .bool => "bool"
  | .int => "int"
  | .set => "set"

def title : Kind → String
  | .bool => "Bool"
  | .int => "Int"
  | .set => "Set"

def letter : Kind → String
  | .bool => "b"
  | .int => "i"
  | .set => "s"

def rank : Kind → Nat
  | .bool => 0
  | .int => 1
  | .set => 2

theorem rank_injective {first second : Kind} (same : first.rank = second.rank) :
    first = second := by
  cases first <;> cases second <;> simp_all [rank]

end Kind

/-- A decision variable: the position of its domain in a problem, and its kind. Identifiers are not
bounded, which assumes that a problem has fewer than 2^32 variables; from there on, identifiers of
32 bits would repeat. -/
structure Variable where
  id : Nat
  kind : Kind
deriving DecidableEq

namespace Variable

/-- Short text: the letter of the kind, then the identifier, as in `i12`. -/
def text (v : Variable) : String := v.kind.letter ++ toString v.id

def record (v : Variable) : String :=
  s!"Var \x7b id: {v.id}, kind: {v.kind.title} \x7d"

/-- Variables are ordered by identifier, then by kind. -/
def precedes (first second : Variable) : Bool :=
  first.id < second.id || (first.id == second.id && first.kind.rank ≤ second.kind.rank)

/-- Two variables that precede each other are one. -/
theorem precedes_antisymm {first second : Variable}
    (forward : first.precedes second = true) (backward : second.precedes first = true) :
    first = second := by
  obtain ⟨firstId, firstKind⟩ := first
  obtain ⟨secondId, secondKind⟩ := second
  simp only [precedes, Bool.or_eq_true, Bool.and_eq_true, decide_eq_true_eq, beq_iff_eq]
    at forward backward
  have ids : firstId = secondId := by omega
  have kinds : firstKind = secondKind := Kind.rank_injective (by omega)
  rw [ids, kinds]

end Variable

end ConstraintCompiler
