import ConstraintCompiler.Value

/-!
Contract: solutions and the results of a search.

Owns:
- `Solution`, one value per variable, with look-up by variable and an order;
- `Status` and `Outcome`, what a search reports.
-/

namespace ConstraintCompiler

/-- One value per variable, by identifier. -/
structure Solution where
  values : List Value
deriving DecidableEq

namespace Solution

/-- Value at the identifier of a variable, whatever kind the handle claims. -/
def value? (solution : Solution) (v : Variable) : Option Value := solution.values[v.id]?

def bool? (solution : Solution) (v : Variable) : Option Bool := solution.value? v >>= Value.asBool?

def int? (solution : Solution) (v : Variable) : Option Int := solution.value? v >>= Value.asInt?

def set? (solution : Solution) (v : Variable) : Option IntSet := solution.value? v >>= Value.asSet?

/-- Solutions are ordered by their values, the first variable first. -/
def precedes (first second : Solution) : Bool :=
  (List.compareLex Value.order first.values second.values).isLE

end Solution

namespace Search

inductive Status where
  /-- Every solution was found. -/
  | complete
  /-- Some solution was found, and the search stopped early. -/
  | feasible
  /-- There is no solution. -/
  | infeasible
  /-- The settings or a domain did not admit a search. -/
  | modelInvalid
  /-- The node limit was reached before a solution. -/
  | timeout
deriving DecidableEq

namespace Status

def title : Status → String
  | .complete => "Complete"
  | .feasible => "Feasible"
  | .infeasible => "Infeasible"
  | .modelInvalid => "ModelInvalid"
  | .timeout => "Timeout"

end Status

/-- Result of a search: how it ended, the solutions in the order found, and the nodes visited. -/
structure Outcome where
  status : Status
  solutions : List Solution := []
  nodes : Nat := 0
deriving DecidableEq

namespace Outcome

def found (outcome : Outcome) : Bool := !outcome.solutions.isEmpty

end Outcome

end Search

end ConstraintCompiler
