import ConstraintCompiler.Event
import ConstraintCompiler.Posting.Verdict
import ConstraintCompiler.Problem

/-!
Contract: exhaustive search of a problem.

Owns:
- the levels of the search, one per variable in order of allocation, each with the postings that
  its variable completes;
- `Search.explore`, depth-first exploration under a limit on nodes and on solutions;
- `Search.run`, which checks the settings, lists the domains, and reports an outcome.

A posting is checked once, at the level of the last variable it mentions, where a verdict other
than true cuts the branch. Postings without variables are checked before the first level.
-/

namespace ConstraintCompiler.Search

/-- Assignment of a list of values to the identifiers from zero on. -/
def assigning (values : List Value) : Assignment := fun id => values[id]?

/-- One variable of the search: its values in the order they are tried, and the postings whose
last variable it is. -/
structure Level where
  candidates : List Value
  watched : List Posting

namespace Level

def admits (level : Level) (values : List Value) : Bool :=
  level.watched.all fun posting => posting.verdict (assigning values) == some true

end Level

def levels (lists : List (List Value)) (postings : List Posting) : List Level :=
  lists.zipIdx.map fun (candidates, depth) =>
    ⟨candidates, postings.filter fun posting => posting.lastMention? == some depth⟩

def constantsHold (postings : List Posting) : Bool :=
  (postings.filter fun posting => posting.lastMention? == none).all fun posting =>
    posting.verdict (assigning []) == some true

inductive Halt where
  | nodeLimit
  | enoughSolutions
deriving DecidableEq

/-- What a search has seen so far: visited nodes, and each solution with the node count at which
it was found, in order. -/
structure Progress where
  nodes : Nat := 0
  found : Array (Nat × Solution) := #[]
  halt : Option Halt := none

namespace Progress

def visit (progress : Progress) : Progress := { progress with nodes := progress.nodes + 1 }

/-- Add a solution, and stop when it is the last one wanted. -/
def record (progress : Progress) (settings : Settings) (solution : Solution) : Progress :=
  let found := progress.found.push (progress.nodes, solution)
  let enough := settings.maxSolutions != 0 && settings.maxSolutions ≤ found.size
  { progress with found, halt := if enough then some .enoughSolutions else progress.halt }

def solutions (progress : Progress) : List Solution := progress.found.toList.map Prod.snd

def status (progress : Progress) : Status :=
  match progress.solutions, progress.halt with
  | [], some .nodeLimit => .timeout
  | [], _ => .infeasible
  | _, none => .complete
  | _, some _ => .feasible

def outcome (progress : Progress) : Outcome :=
  ⟨progress.status, progress.solutions, progress.nodes⟩

/-- One event per solution and one for the end. -/
def events (progress : Progress) : List Event :=
  (progress.found.toList.zipIdx.map fun ((nodes, _), position) => .solution (position + 1) nodes) ++
    [.finished progress.status progress.solutions.length progress.nodes]

end Progress

/-- Depth-first exploration of the levels that remain, below the values chosen so far. Nothing
more is visited once the search has halted. -/
def explore (settings : Settings) : List Level → List Value → Progress → Progress
  | [], values, progress => progress.record settings ⟨values⟩
  | level :: deeper, values, progress =>
      level.candidates.foldl (fun progress value =>
        if progress.halt.isSome then progress
        else if settings.nodeLimit ≤ progress.nodes then
          { progress with halt := some .nodeLimit }
        else if level.admits (values ++ [value]) then
          explore settings deeper (values ++ [value]) progress.visit
        else progress.visit) progress

/-- Search given candidate lists for the assignments under which every posting is true. -/
def runOn (settings : Settings) (lists : List (List Value)) (postings : List Posting) :
    Outcome × List Event :=
  if constantsHold postings then
    let progress := explore settings (levels lists postings) [] {}
    (progress.outcome, progress.events)
  else (⟨.infeasible, [], 0⟩, [.constantViolation])

def Outcome.sorted (outcome : Outcome) : Outcome :=
  { outcome with solutions := outcome.solutions.mergeSort Solution.precedes }

/-- Search a problem. A seed asks for no particular order of discovery, and its outcome lists the
solutions in ascending order. -/
def run (settings : Settings) (problem : Problem) : Outcome × List Event :=
  match settings.fault? with
  | some fault => (⟨.modelInvalid, [], 0⟩, [.unusableSettings fault])
  | none =>
      match candidateLists settings.maxDomainSize problem.domains with
      | .error oversize => (⟨.modelInvalid, [], 0⟩, [.oversizedDomain oversize])
      | .ok lists =>
          let (outcome, events) := runOn settings lists problem.postings
          (if settings.seed.isSome then outcome.sorted else outcome, events)

end ConstraintCompiler.Search
