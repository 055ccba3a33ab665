import ConstraintCompiler.Value

/-!
Contract: the explicit list of values of a domain.

Owns:
- the order in which the values of each kind of domain are listed;
- the limit above which a domain is not listed at all.

The sets between two bounds are listed like binary numbers: the smallest element that may be left
out is the lowest digit, and one that is present counts as a one.
-/

namespace ConstraintCompiler.Search

inductive Oversize where
  | integers (id size : Nat)
  | sets (id free : Nat)
deriving DecidableEq

namespace Oversize

def text : Oversize → String
  | .integers id size => s!"variable {id} has {size} values"
  | .sets id free => s!"set variable {id} has 2^{free} candidate values"

end Oversize

/-- Every choice among the listed elements, counting up in binary with the first element as the
lowest digit. -/
def choices : List Int → List (List Int)
  | [] => [[]]
  | element :: rest => (choices rest).flatMap fun chosen => [chosen, element :: chosen]

theorem length_choices (elements : List Int) :
    (choices elements).length = Nat.pow 2 elements.length := by
  induction elements with
  | nil => rfl
  | cons element rest inductionHypothesis =>
      simp [choices, List.length_flatMap, List.map_const', inductionHypothesis, Nat.pow_succ]

/-- Number of free elements from which on the sets of a domain are never counted out: their number
would not fit in a signed 64-bit integer. -/
def freeElementLimit : Nat := 63

/-- Values of the domain of a variable, unless there are more than allowed. Truth values are always
listed. -/
def candidates (maxSize id : Nat) : Domain → Except Oversize (List Value)
  | .bool => .ok [.bool false, .bool true]
  | .int least greatest =>
      let size := (greatest + 1 - least).toNat
      if maxSize < size then .error (.integers id size)
      else .ok ((IntSet.interval least greatest).elements.map .int)
  | .set required possible =>
      if required.isSubset possible then
        let free := (possible.difference required).elements
        if freeElementLimit ≤ free.length || decide (maxSize < Nat.pow 2 free.length) then
          .error (.sets id free.length)
        else .ok ((choices free).map fun chosen => .set (required.union (.ofList chosen)))
      else .ok []

/-- Values of every domain, by identifier. The first oversized domain stops the listing. -/
def candidateLists (maxSize : Nat) (domains : List Domain) : Except Oversize (List (List Value)) :=
  domains.zipIdx.mapM fun (domain, id) => candidates maxSize id domain

end ConstraintCompiler.Search
