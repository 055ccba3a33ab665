/-!
Contract: the range of 64-bit signed integers, in which sums are formed.

Owns the range and addition that fails outside it. Integers themselves are unbounded here, so a
failed addition is visible as `none` and never as a wrapped number.
-/

namespace ConstraintCompiler

/-- The integer fits in 64 bits with a sign. -/
def Representable (number : Int) : Prop :=
  -9223372036854775808 ≤ number ∧ number ≤ 9223372036854775807

instance (number : Int) : Decidable (Representable number) :=
  inferInstanceAs (Decidable (_ ∧ _))

def add? (left right : Int) : Option Int :=
  if Representable (left + right) then some (left + right) else none

theorem add?_eq_some_iff {left right total : Int} :
    add? left right = some total ↔ Representable total ∧ left + right = total := by
  unfold add?
  split
  · simp only [Option.some.injEq]
    constructor
    · rintro rfl
      exact ⟨‹_›, rfl⟩
    · exact fun sum => sum.2
  · simp only [reduceCtorEq, false_iff]
    rintro ⟨fits, rfl⟩
    contradiction

end ConstraintCompiler
