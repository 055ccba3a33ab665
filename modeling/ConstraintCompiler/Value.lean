import ConstraintCompiler.IntSet
import ConstraintCompiler.Variable

/-!
Contract: values of decision variables and the domains they are drawn from.

Owns:
- `Value`, with its kind, its views, its text and its order;
- `Domain`, what a variable may take, with membership, emptiness and size.

Does not own: the enumeration of a domain, which belongs to search.
-/

namespace ConstraintCompiler

inductive Value where
  | bool (truth : Bool)
  | int (number : Int)
  | set (members : IntSet)
deriving DecidableEq

namespace Value

def kind : Value → Kind
  | .bool _ => .bool
  | .int _ => .int
  | .set _ => .set

def asBool? : Value → Option Bool
  | .bool truth => some truth
  | _ => none

def asInt? : Value → Option Int
  | .int number => some number
  | _ => none

def asSet? : Value → Option IntSet
  | .set members => some members
  | _ => none

/-- Integer standing for the value in a table of tuples: false and true are 0 and 1. -/
def code? : Value → Option Int
  | .bool truth => some (if truth then 1 else 0)
  | .int number => some number
  | .set _ => none

theorem asBool?_eq_some {value : Value} {truth : Bool} :
    value.asBool? = some truth ↔ value = .bool truth := by
  cases value <;> simp [asBool?]

theorem asInt?_eq_some {value : Value} {number : Int} :
    value.asInt? = some number ↔ value = .int number := by
  cases value <;> simp [asInt?]

theorem asSet?_eq_some {value : Value} {members : IntSet} :
    value.asSet? = some members ↔ value = .set members := by
  cases value <;> simp [asSet?]

/-- Text of a value; a set lists its elements in ascending order between braces. -/
def text : Value → String
  | .bool truth => if truth then "true" else "false"
  | .int number => toString number
  | .set members => "\x7b" ++ String.intercalate ", " (members.elements.map toString) ++ "\x7d"

/-- Order of values: false before true, integers ascending, sets by their ascending lists.
Values of different kinds follow the order of the kinds. -/
def order : Value → Value → Ordering
  | .bool first, .bool second => compare first second
  | .int first, .int second => compare first second
  | .set first, .set second => List.compareLex compare first.elements second.elements
  | first, second => compare first.kind.rank second.kind.rank

end Value

/-- What a variable may take: any truth value, an integer range, or every set between two bounds. -/
inductive Domain where
  | bool
  | int (least greatest : Int)
  | set (required possible : IntSet)
deriving DecidableEq

namespace Domain

def kind : Domain → Kind
  | .bool => .bool
  | .int _ _ => .int
  | .set _ _ => .set

/-- The value lies in the domain. A set lies between the bounds when it has every required
element and no element that is not possible. -/
def Contains : Domain → Value → Prop
  | .bool, .bool _ => True
  | .int least greatest, .int number => least ≤ number ∧ number ≤ greatest
  | .set required possible, .set members =>
      (∀ element, element ∈ required → element ∈ members) ∧
        ∀ element, element ∈ members → element ∈ possible
  | _, _ => False

def isEmpty : Domain → Bool
  | .bool => false
  | .int least greatest => decide (greatest < least)
  | .set required possible => !required.isSubset possible

/-- Number of values of an integer range; the other kinds of domain report none. -/
def size? : Domain → Option Nat
  | .int least greatest => some (greatest + 1 - least).toNat
  | _ => none

theorem kind_eq_of_contains {domain : Domain} {value : Value} (member : domain.Contains value) :
    value.kind = domain.kind := by
  cases domain <;> cases value <;> simp_all [Contains, Value.kind, kind]

/-- A domain is empty exactly when it contains nothing. -/
theorem isEmpty_iff (domain : Domain) :
    domain.isEmpty = true ↔ ∀ value, ¬domain.Contains value := by
  cases domain with
  | bool => simpa [isEmpty] using ⟨.bool true, trivial⟩
  | int least greatest =>
      simp only [isEmpty, decide_eq_true_eq]
      constructor
      · intro crossed value member
        cases value <;> simp only [Contains] at member
        omega
      · intro none
        have := none (.int least)
        simp only [Contains] at this
        omega
  | set required possible =>
      rw [isEmpty, Bool.not_eq_true', Bool.eq_false_iff, ne_eq, IntSet.isSubset_iff]
      constructor
      · intro escapes value member
        cases value <;> simp only [Contains] at member
        exact escapes fun element known => member.2 element (member.1 element known)
      · intro none subset
        exact none (.set required) ⟨fun _ known => known, subset⟩

end Domain

end ConstraintCompiler
