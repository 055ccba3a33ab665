import ConstraintCompiler.Value

/-!
Contract: the settings of a model.

Owns the model's name, the domains of the variables that compilation adds, and what makes such
domains unusable.
-/

namespace ConstraintCompiler.Model

/-- Name of a model, and the domains its added integer and set variables are drawn from: a range of
integers, and the sets of integers of a range. -/
structure Settings where
  name : String := "model"
  leastInteger : Int := -1000000
  greatestInteger : Int := 1000000
  leastElement : Int := 0
  greatestElement : Int := 31
deriving DecidableEq

inductive SettingsFault where
  | integers (least greatest : Int)
  | elements (least greatest : Int)
deriving DecidableEq

namespace SettingsFault

def text : SettingsFault → String
  | .integers least greatest =>
      s!"aux_int_min ({least}) must not exceed aux_int_max ({greatest})"
  | .elements least greatest =>
      s!"aux_set_lub_min ({least}) must not exceed aux_set_lub_max ({greatest})"

end SettingsFault

namespace Settings

/-- The first fault of the settings: integers, then set elements. -/
def fault? (settings : Settings) : Option SettingsFault :=
  if settings.greatestInteger < settings.leastInteger then
    some (.integers settings.leastInteger settings.greatestInteger)
  else if settings.greatestElement < settings.leastElement then
    some (.elements settings.leastElement settings.greatestElement)
  else none

def auxiliaryDomain (settings : Settings) : Kind → Domain
  | .bool => .bool
  | .int => .int settings.leastInteger settings.greatestInteger
  | .set => .set ∅ (.interval settings.leastElement settings.greatestElement)

theorem kind_auxiliaryDomain (settings : Settings) (kind : Kind) :
    (settings.auxiliaryDomain kind).kind = kind := by
  cases kind <;> rfl

end Settings

end ConstraintCompiler.Model
