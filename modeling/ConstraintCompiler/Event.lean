import ConstraintCompiler.Primitive
import ConstraintCompiler.Search.Candidates
import ConstraintCompiler.Search.Outcome
import ConstraintCompiler.Search.Settings

/-!
Contract: what compiling and searching report while they run.

Owns the events, their severity and their wording. No result depends on an event.
-/

namespace ConstraintCompiler

inductive Severity where
  | warn
  | debug
  | trace
deriving DecidableEq

namespace Severity

def title : Severity → String
  | .warn => "WARN"
  | .debug => "DEBUG"
  | .trace => "TRACE"

end Severity

inductive Event where
  /-- A composite received a variable of its own. -/
  | materialized (connective : Connective) (v : Variable)
  /-- A composite and its result became one posting. -/
  | fused (connective : Connective) (negated : Bool)
  /-- A posting of the named model was queued. -/
  | queued (model : String) (primitive : Primitive) (negated : Bool) (target : Option Variable)
  /-- A posting was recorded at a position of the problem. -/
  | recorded (primitive : Primitive) (position : Nat)
  | flushed (model : String) (count : Nat)
  | unusableSettings (fault : Search.SettingsFault)
  | oversizedDomain (oversize : Search.Oversize)
  /-- A posting without variables is not true. -/
  | constantViolation
  /-- A solution, counted from one, was found after a number of nodes. -/
  | solution (position nodes : Nat)
  | finished (status : Search.Status) (solutions nodes : Nat)
deriving DecidableEq

namespace Event

def severity : Event → Severity
  | .unusableSettings _ | .oversizedDomain _ => .warn
  | .recorded _ _ | .solution _ _ => .trace
  | _ => .debug

def targetText : Option Variable → String
  | none => "None"
  | some v => s!"Some({v.record})"

def truthText (truth : Bool) : String := (Value.bool truth).text

def text : Event → String
  | .materialized connective v => s!"materialize {connective.name} stub into {v.text}"
  | .fused connective negated =>
      s!"fuse {connective.name} stub (negate={truthText negated}) into one posting"
  | .queued model primitive negated target =>
      s!"[{model}] queue {primitive.name} (negate={truthText negated}, reify={targetText target})"
  | .recorded primitive position => s!"recording {primitive.name} posting #{position}"
  | .flushed model count => s!"[{model}] flushed {count} interactions"
  | .unusableSettings fault => s!"invalid solver configuration: {fault.text}"
  | .oversizedDomain oversize => s!"model rejected by search: {oversize.text}"
  | .constantViolation => "a posting without variables is violated"
  | .solution position nodes => s!"solution #{position} at node {nodes}"
  | .finished status solutions nodes =>
      s!"search finished: {status.title}, {solutions} solutions, {nodes} nodes"

def line (event : Event) : String := event.severity.title ++ " " ++ event.text

end Event

end ConstraintCompiler
