/-!
# Named choices

The closed sets a configuration chooses from. Each choice has one written name; `Choice.ofName?`
finds it again and distinguishes case.
-/

namespace Cosimulation

/-- A closed set of options with a name for each. -/
class Choice (κ : Type) where
  /-- Every option, once. -/
  options : List κ
  /-- How the option is written. -/
  name : κ → String

/-- The option of a given name. -/
def Choice.ofName? {κ : Type} [Choice κ] (s : String) : Option κ :=
  (options : List κ).find? fun k => name k == s

/-- The acceleration schemes. -/
inductive SchemeKind where
  | constant
  | aitken
  | iqnIls
  deriving Repr, DecidableEq

instance : Choice SchemeKind where
  options := [.constant, .aitken, .iqnIls]
  name
    | .constant => "constant"
    | .aitken => "aitken"
    | .iqnIls => "iqn-ils"

/-- The title of a scheme, as messages give it. -/
def SchemeKind.title : SchemeKind → String
  | .constant => "Constant"
  | .aitken => "Aitken"
  | .iqnIls => "IqnIls"

/-- What a column filter measures a column against. -/
inductive FilterKind where
  /-- Every column is kept. -/
  | none
  /-- Against the norm of the whole triangular factor. -/
  | qr1
  /-- Against the norm the column came in with. -/
  | qr2
  deriving Repr, DecidableEq

instance : Choice FilterKind where
  options := [.none, .qr1, .qr2]
  name
    | .none => "none"
    | .qr1 => "qr1"
    | .qr2 => "qr2"

/-- What the weight of a block is derived from. -/
inductive PreconditionerKind where
  /-- Fixed factors. -/
  | constant
  /-- The range of the values. -/
  | value
  /-- The norm of the residual. -/
  | residual
  /-- The share of the block in the residuals of a whole window. -/
  | residualSum
  deriving Repr, DecidableEq

instance : Choice PreconditionerKind where
  options := [.constant, .value, .residual, .residualSum]
  name
    | .constant => "constant"
    | .value => "value"
    | .residual => "residual"
    | .residualSum => "residual-sum"

/-- What a mapping preserves. -/
inductive Constraint where
  /-- Point values: each output vertex gathers from the input mesh. -/
  | consistent
  /-- Totals: each input vertex scatters onto the output mesh. -/
  | conservative
  deriving Repr, DecidableEq

instance : Choice Constraint where
  options := [.consistent, .conservative]
  name
    | .consistent => "consistent"
    | .conservative => "conservative"

/-- The title of a constraint, as reports give it. -/
def Constraint.title : Constraint → String
  | .consistent => "Consistent"
  | .conservative => "Conservative"

/-- How a point of one mesh is located on the other. -/
inductive Method where
  | nearestProjection
  | nearestNeighbor
  deriving Repr, DecidableEq

instance : Choice Method where
  options := [.nearestProjection, .nearestNeighbor]
  name
    | .nearestProjection => "nearest-projection"
    | .nearestNeighbor => "nearest-neighbor"

/-- How much of a mesh a mapping needs. -/
inductive Requirement where
  /-- Vertex positions only. -/
  | vertex
  /-- Vertices, edges and triangles. -/
  | full
  deriving Repr, DecidableEq

instance : Choice Requirement where
  options := [.vertex, .full]
  name
    | .vertex => "vertex"
    | .full => "full"

/-- The title of a requirement, as reports give it. -/
def Requirement.title : Requirement → String
  | .vertex => "Vertex"
  | .full => "Full"

end Cosimulation
