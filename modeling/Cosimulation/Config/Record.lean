import Cosimulation.Acceleration.Config
import Cosimulation.Config.Value
import Cosimulation.Geometry.Box
import Cosimulation.Mapping.Config

/-!
# Configuration records

The written form of the settings, one reader and one writer for each kind. A writer gives every
field, in the order of the field names.
-/

namespace Cosimulation

open Value

/-! ## Acceleration -/

namespace Acceleration

/-- Reads the settings of a preconditioner. -/
def PreconditionerConfig.ofValue? (v : Value) : Option (PreconditionerConfig Double) := do
  let fields ← v.fields?
  let kind ← fieldOr fields "kind" .constant choice?
  let factors ← fieldOr fields "factors" [] (list? scalar?)
  let maxNonConstWindows ←
    fieldOr fields "max_non_const_windows" none (optional? (nat? max64))
  return { kind, factors, maxNonConstWindows }

/-- Writes the settings of a preconditioner. -/
def PreconditionerConfig.toValue (c : PreconditionerConfig Double) : Value :=
  record [
    ("factors", ofList ofScalar c.factors),
    ("kind", ofChoice c.kind),
    ("max_non_const_windows", ofOption ofNat c.maxNonConstWindows)]

/-- Reads the settings of an acceleration. -/
def Config.ofValue? (v : Value) : Option (Config Double) := do
  let fields ← v.fields?
  let base : Config Double := Config.default
  let kind ← fieldOr fields "kind" base.kind choice?
  let initialRelaxation ← fieldOr fields "initial_relaxation" base.initialRelaxation scalar?
  let forceInitialRelaxation ←
    fieldOr fields "force_initial_relaxation" base.forceInitialRelaxation bool?
  let maxIterationsUsed ←
    fieldOr fields "max_iterations_used" base.maxIterationsUsed (nat? max64)
  let timestepsReused ← fieldOr fields "timesteps_reused" base.timestepsReused (nat? max64)
  let filter ← fieldOr fields "filter" base.filter choice?
  let singularityLimit ← fieldOr fields "singularity_limit" base.singularityLimit scalar?
  let dataIds ← fieldOr fields "data_ids" base.dataIds (list? (nat? max32))
  let preconditioner ←
    fieldOr fields "preconditioner" base.preconditioner PreconditionerConfig.ofValue?
  return { kind, initialRelaxation, forceInitialRelaxation, maxIterationsUsed, timestepsReused,
           filter, singularityLimit, dataIds, preconditioner }

/-- Writes the settings of an acceleration. -/
def Config.toValue (c : Config Double) : Value :=
  record [
    ("data_ids", ofList ofNat c.dataIds),
    ("filter", ofChoice c.filter),
    ("force_initial_relaxation", bool c.forceInitialRelaxation),
    ("initial_relaxation", ofScalar c.initialRelaxation),
    ("kind", ofChoice c.kind),
    ("max_iterations_used", ofNat c.maxIterationsUsed),
    ("preconditioner", c.preconditioner.toValue),
    ("singularity_limit", ofScalar c.singularityLimit),
    ("timesteps_reused", ofNat c.timestepsReused)]

end Acceleration

/-! ## Mapping -/

/-- Reads the settings of a mapping. -/
def Mapping.Config.ofValue? (v : Value) : Option Mapping.Config := do
  let fields ← v.fields?
  let method ← fieldOr fields "method" .nearestProjection choice?
  let constraint ← fieldOr fields "constraint" .consistent choice?
  let dimensions ← fieldOr fields "dimensions" 3 (nat? max64)
  return { method, constraint, dimensions }

/-- Writes the settings of a mapping. -/
def Mapping.Config.toValue (c : Mapping.Config) : Value :=
  record [
    ("constraint", ofChoice c.constraint),
    ("dimensions", ofNat c.dimensions),
    ("method", ofChoice c.method)]

/-! ## Boxes -/

/-- Reads a point from a list of three coordinates. -/
def Point.ofValue? (v : Value) : Option (Point Double) := do
  match ← list? scalar? v with
  | [x, y, z] => some ⟨x, y, z⟩
  | _ => none

/-- Writes a point as the list of its coordinates. -/
def Point.toValue (p : Point Double) : Value := ofList ofScalar p.toList

/-- Reads a box from its two corners, both of which are required. -/
def Box.ofValue? (v : Value) : Option (Box Double) := do
  let fields ← v.fields?
  let lower ← field? fields "min" Point.ofValue?
  let upper ← field? fields "max" Point.ofValue?
  return ⟨lower, upper⟩

/-- Writes a box by its two corners. -/
def Box.toValue (b : Box Double) : Value :=
  record [("max", b.upper.toValue), ("min", b.lower.toValue)]

end Cosimulation
