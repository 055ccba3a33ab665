/-!
Contract: the limits of a search.

Owns the limits, their defaults, and what makes a combination of them unusable. The search counts
nodes and never reads a clock: the time limit is part of the settings only to be checked.
-/

namespace ConstraintCompiler.Search

/-- Limits of a search. No limit on solutions is written as zero. -/
structure Settings where
  timeLimit : Int := 60000
  maxSolutions : Nat := 1
  nodeLimit : Nat := 10000000
  maxDomainSize : Nat := 65536
  seed : Option Nat := none
deriving DecidableEq

inductive SettingsFault where
  | timeLimit
  | nodeLimit
  | maxDomainSize
deriving DecidableEq

namespace SettingsFault

def text : SettingsFault → String
  | .timeLimit => "time_limit_ms must be positive"
  | .nodeLimit => "node_limit must be at least 1"
  | .maxDomainSize => "max_domain_size must be at least 1"

end SettingsFault

namespace Settings

/-- The first fault of the settings: time, then nodes, then domain size. -/
def fault? (settings : Settings) : Option SettingsFault :=
  if settings.timeLimit ≤ 0 then some .timeLimit
  else if settings.nodeLimit = 0 then some .nodeLimit
  else if settings.maxDomainSize = 0 then some .maxDomainSize
  else none

end Settings

end ConstraintCompiler.Search
