import ConstraintCompiler.Search
import Mathlib.Algebra.Group.Int.Defs

/-!
Contract: the search as a machine with words of 64 bits carries it out.

Owns:
- numbers that must fit the width of their type, and lists that are written only at positions they
  have;
- `Machine.run?`, the search made of these operations, with a clock and with a seed that rearranges
  candidates. It has a result only if every operation on its way is within bounds.

Does not own: that it has a result, or which result this is.
-/

namespace ConstraintCompiler.Search.Machine

/-! ### Words and positions -/

def wordBits : Nat := 64

def unsigned? (bits : Nat) (number : Int) : Option Nat :=
  if 0 ≤ number ∧ number < 2 ^ bits then some number.toNat else none

def signed? (bits : Nat) (number : Int) : Option Int :=
  if -2 ^ (bits - 1) ≤ number ∧ number < 2 ^ (bits - 1) then some number else none

/-- One shifted to the left in a word, if the shift is by less than the width. -/
def shiftOne? (amount : Nat) : Option Nat :=
  if amount < wordBits then some (1 <<< amount) else none

def set? {α : Type} (entries : List α) (position : Nat) (entry : α) : Option (List α) :=
  if position < entries.length then some (entries.set position entry) else none

/-! ### Candidates -/

/-- Number of integers in a range, formed with twice the width of a word. -/
def rangeSize? (least greatest : Int) : Option Nat :=
  if least ≤ greatest then do
    let span ← signed? (2 * wordBits) (greatest - least)
    let count ← signed? (2 * wordBits) (span + 1)
    unsigned? (2 * wordBits) count
  else some 0

/-- The listed elements whose bits are set in the mask. The first of them has the given bit. -/
def picked? (mask : Nat) : Nat → List Int → Option (List Int)
  | _, [] => some []
  | bit, element :: rest => do
      let place ← shiftOne? bit
      let picked ← picked? mask (bit + 1) rest
      if mask &&& place = 0 then some picked else some (element :: picked)

def choices? (count : Nat) (elements : List Int) : Option (List (List Int)) :=
  (List.range count).mapM fun mask => picked? mask 0 elements

def candidates? (maxSize id : Nat) : Domain → ExceptT Oversize Option (List Value)
  | .bool => pure [.bool false, .bool true]
  | .int least greatest => do
      let size ← rangeSize? least greatest
      if maxSize < size then throw (.integers id size)
      else pure ((IntSet.interval least greatest).elements.map .int)
  | .set required possible =>
      if required.isSubset possible then do
        let free := (possible.difference required).elements
        -- The number of choices is formed only where the shift is known to be short enough.
        if wordBits - 1 ≤ free.length then throw (.sets id free.length)
        else do
          let count ← shiftOne? free.length
          if maxSize < count then throw (.sets id free.length)
          else do
            let chosen ← choices? count free
            pure (chosen.map fun picked => .set (required.union (.ofList picked)))
      else pure []

def candidateLists? (maxSize : Nat) (domains : List Domain) :
    ExceptT Oversize Option (List (List Value)) :=
  domains.zipIdx.mapM fun (domain, id) => candidates? maxSize id domain

/-! ### Watch lists -/

def watch? (watched : List (List Posting)) (posting : Posting) : Option (List (List Posting)) :=
  match posting.lastMention? with
  | none => some watched
  | some last => do
      let earlier ← watched[last]?
      set? watched last (earlier ++ [posting])

/-- The postings that each of so many variables completes. -/
def watchLists? (count : Nat) (postings : List Posting) : Option (List (List Posting)) :=
  postings.foldlM watch? (List.replicate count [])

/-! ### Exploration -/

/-- What a search changes on its way: an entry for every variable, the count of nodes, the solutions
in the order found, and whether it ran out of budget. -/
structure State where
  assignment : List (Option Value)
  nodes : Nat := 0
  solutions : List Solution := []
  limitHit : Bool := false

namespace State

def assign? (state : State) (depth : Nat) (entry : Option Value) : Option State := do
  let assignment ← set? state.assignment depth entry
  some { state with assignment }

def visit? (state : State) : Option State := do
  let nodes ← unsigned? wordBits (state.nodes + 1)
  some { state with nodes }

def reads (state : State) : Assignment := fun id => (state.assignment[id]?).join

/-- Add the values of all entries as a solution, and tell whether more solutions are wanted. -/
def record (state : State) (settings : Settings) : Bool × State :=
  let solutions := state.solutions ++ [⟨state.assignment.filterMap id⟩]
  (settings.maxSolutions == 0 || decide (solutions.length < settings.maxSolutions),
    { state with solutions })

def status (state : State) (exhausted : Bool) : Status :=
  match state.solutions.isEmpty, state.limitHit, exhausted with
  | true, true, _ => .timeout
  | true, false, _ => .infeasible
  | false, false, true => .complete
  | false, _, _ => .feasible

end State

section Exploration

variable (settings : Settings) (elapsed : Nat → Int) (candidates : List (List Value))
  (watched : List (List Posting))

/-- No further node may be visited. The clock is read at every 1024th node, and shows the given time
there. -/
def outOfBudget (nodes : Nat) : Bool :=
  decide (settings.nodeLimit ≤ nodes) ||
    (nodes % 1024 == 0 && decide (settings.timeLimit ≤ elapsed nodes))

/-- Try values for the variable at a depth one after the other, each with the search below it, and
tell whether search goes on. -/
def tryValues? (below : State → Option (Bool × State)) (depth : Nat) :
    List Value → State → Option (Bool × State)
  | [], state => do
      let state ← state.assign? depth none
      some (true, state)
  | value :: rest, state =>
      if outOfBudget settings elapsed state.nodes then do
        let state ← { state with limitHit := true }.assign? depth none
        some (false, state)
      else do
        let state ← state.visit?
        let state ← state.assign? depth (some value)
        let postings ← watched[depth]?
        if postings.all fun posting => posting.verdict state.reads == some true then do
          let (goesOn, state) ← below state
          if goesOn then tryValues? below depth rest state
          else do
            let state ← state.assign? depth none
            some (false, state)
        else tryValues? below depth rest state

/-- Search from a depth on, with as many nested calls as allowed. -/
def explore? : Nat → Nat → State → Option (Bool × State)
  | 0, depth, state =>
      if depth = state.assignment.length then some (state.record settings) else none
  | nesting + 1, depth, state =>
      if depth = state.assignment.length then some (state.record settings)
      else do
        let values ← candidates[depth]?
        tryValues? settings elapsed watched (explore? nesting (depth + 1)) depth values state

end Exploration

/-! ### Runs -/

/-- The lists in the order in which they are tried: a seed rearranges them. -/
def ordered (settings : Settings) (shuffle : Nat → List (List Value) → List (List Value))
    (lists : List (List Value)) : List (List Value) :=
  match settings.seed with
  | none => lists
  | some seed => shuffle seed lists

/-- Search a problem under a clock, with the rearrangement that belongs to each seed. -/
def run? (settings : Settings) (elapsed : Nat → Int)
    (shuffle : Nat → List (List Value) → List (List Value)) (problem : Problem) :
    Option Outcome :=
  if settings.fault?.isSome then some { status := .modelInvalid }
  else do
    match ← (candidateLists? settings.maxDomainSize problem.domains).run with
    | .error _ => some { status := .modelInvalid }
    | .ok lists =>
        let candidates := ordered settings shuffle lists
        let watched ← watchLists? candidates.length problem.postings
        if constantsHold problem.postings then do
          let start : State := { assignment := List.replicate candidates.length none }
          let (exhausted, state) ←
            explore? settings elapsed candidates watched candidates.length 0 start
          some ⟨state.status exhausted, state.solutions, state.nodes⟩
        else some { status := .infeasible }

end ConstraintCompiler.Search.Machine
