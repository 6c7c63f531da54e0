import Cosimulation.Fault

/-!
# Settings of a mapping
-/

namespace Cosimulation.Mapping

/-- The settings of a mapping. -/
structure Config where
  method : Method := .nearestProjection
  constraint : Constraint := .consistent
  dimensions : Nat := 3
  deriving Repr, DecidableEq

/-- Space has two or three dimensions. -/
def isDimension (d : Nat) : Bool := d == 2 || d == 3

/-- Checks the settings of a mapping. -/
def Config.validate {α : Type} (c : Config) : Except (ConfigurationFault α) Unit :=
  if isDimension c.dimensions then .ok () else .error (.mappingDimensions c.dimensions)

end Cosimulation.Mapping
