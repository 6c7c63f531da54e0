import Cosimulation.Mapping.Locate

/-!
# Mappings

A mapping carries a field from an input mesh to an output mesh by a table with one row for every
vertex of the mesh it starts from. A consistent mapping starts from the output mesh: each output
vertex gathers the values of the input vertices in its row. A conservative mapping starts from the
input mesh: each input vertex scatters its value over the output vertices in its row, so that totals
are kept.

The meshes belong to a `Participant` and are named by their place there, because several mappings
share them, and with them the cache of search trees. The table is computed once and kept; it does
not notice when a mesh changes. A transfer compares lengths (`plan`) before it writes anything, and
a row that refers to a vertex that is no longer there is a violation.
-/

namespace Cosimulation

/-- The place of a mesh among those of a participant. -/
abbrev MeshRef := Nat

/-- The meshes of one participant of a coupled run, and the search trees for them. -/
structure Participant (α : Type) where
  meshes : List (Mesh α) := []
  cache : Search.Cache α := {}

namespace Participant

variable {α : Type}

/-- The mesh at a place. -/
def mesh (p : Participant α) (ref : MeshRef) : Except (Violation α) (Mesh α) :=
  match p.meshes[ref]? with
  | some m => .ok m
  | none => .error .bounds

/-- Replaces the mesh at a place. -/
def setMesh (p : Participant α) (ref : MeshRef) (m : Mesh α) : Participant α :=
  { p with meshes := p.meshes.set ref m }

end Participant

/-- One row for each vertex of the mesh a mapping starts from. -/
abbrev Mapping.Table (α : Type) := List (Mapping.Row α)

/-- A mapping between two meshes of a participant. -/
structure Mapping (α : Type) where
  config : Mapping.Config
  input : Option MeshRef := none
  output : Option MeshRef := none
  table : Option (Mapping.Table α) := none

namespace Mapping

variable {α : Type}

/-- A mapping without meshes, in two or three dimensions. -/
def new (config : Config) : Except (Violation α) (Mapping α) :=
  if isDimension config.dimensions then .ok { config }
  else .error (.mappingDimensions config.dimensions)

/-- The mapping that valid settings describe. -/
def build (config : Config) : Except (Failure α) (Mapping α) :=
  match config.validate with
  | .error fault => .error (.fault (.invalidConfiguration fault))
  | .ok () => (new config).mapError .violation

/-- The input and output mesh. -/
def ends (m : Mapping α) : Except (Fault α) (MeshRef × MeshRef) :=
  match m.input, m.output with
  | some input, some output => .ok (input, output)
  | none, _ => .error (.missingMesh .input)
  | _, none => .error (.missingMesh .output)

/-- The mesh the mapping starts from and the mesh its rows refer to. -/
def direction (m : Mapping α) : Except (Fault α) (MeshRef × MeshRef) := do
  let (input, output) ← m.ends
  match m.config.constraint with
  | .consistent => return (output, input)
  | .conservative => return (input, output)

/-- How much a mapping needs of the mesh its rows refer to. -/
def Config.requirement (c : Config) : Requirement :=
  match c.method with
  | .nearestNeighbor => .vertex
  | .nearestProjection => .full

/-- How much a mapping needs of its input mesh. -/
def inputRequirement (m : Mapping α) : Requirement :=
  match m.config.constraint with
  | .consistent => m.config.requirement
  | .conservative => .vertex

/-- How much a mapping needs of its output mesh. -/
def outputRequirement (m : Mapping α) : Requirement :=
  match m.config.constraint with
  | .consistent => .vertex
  | .conservative => m.config.requirement

/-! ## The table -/

/-- Drops the table, and the search trees of the mesh its rows refer to. -/
def clear (m : Mapping α) (p : Participant α) : Mapping α × Participant α :=
  let m' := { m with table := none }
  match m.direction with
  | .ok (_, target) =>
    match p.mesh target with
    | .ok mesh => (m', { p with cache := p.cache.clear mesh.id })
    | .error _ => (m', p)
  | .error _ => (m', p)

/-- Attaches the meshes; what was known about earlier ones is dropped. -/
def setMeshes (m : Mapping α) (p : Participant α) (input output : MeshRef) :
    Mapping α × Participant α :=
  let (m', p') := m.clear p
  ({ m' with input := some input, output := some output }, p')

variable [Scalar α] [Search.SearchOrder α]

/-- Computes the table from the meshes as they are. -/
def compute (m : Mapping α) (p : Participant α) :
    Except (Failure α) (Mapping α × Participant α) := do
  let (source, target) ← m.direction.mapError .fault
  let source ← (p.mesh source).mapError .violation
  let target ← (p.mesh target).mapError .violation
  if target.vertices.isEmpty && !source.vertices.isEmpty then
    .error (.fault (.emptyMesh target.name))
  else
    let (handle, cache) := p.cache.handle target.id
    let points := source.vertices.map Vertex.position
    let (table, index) ←
      (locateAll m.config.method m.config.dimensions target (cache.index handle) points).mapError
        .violation
    return ({ m with table := some table }, { p with cache := cache.update handle index })

/-! ## Tagging -/

/-- A weight of no more than this magnitude does not count. -/
def negligible : α := 1e-14

/-- Marks the vertices that a table refers to with a weight that counts. -/
def tagReferred (mesh : Mesh α) (table : Table α) : Except (Violation α) (Mesh α) :=
  table.flatten.foldlM (fun mesh e =>
    if negligible < Scalar.abs e.weight then mesh.tag e.vertex else .ok mesh) mesh

/-- Marks the vertices that the mapping needs, by a table that is computed for it and dropped. -/
def tagFirstRound (m : Mapping α) (p : Participant α) :
    Except (Failure α) (Mapping α × Participant α) := do
  let (m, p) ← m.compute p
  let (_, target) ← m.direction.mapError .fault
  let mesh ← (p.mesh target).mapError .violation
  let tagged ← (tagReferred mesh (m.table.getD [])).mapError .violation
  return m.clear (p.setMesh target tagged)

/-! ## Transfer -/

/-- Whether every row refers to the first `count` vertices only. -/
def Table.refersBelow (table : Table α) (count : Nat) : Bool :=
  table.all fun row => row.all fun e => e.vertex < count

/-- Component `c` at vertex `v` of values with `dimension` components. -/
def component (values : Vec α) (dimension v c : Nat) : α := values.getD (v * dimension + c) 0

/-- A component of the point that a row expresses. -/
def gathered (row : Row α) (values : Vec α) (dimension c : Nat) : α :=
  row.foldl (fun sum e => sum + e.weight * component values dimension e.vertex c) 0

/-- A component of what all rows bring to a vertex. -/
def scattered (table : Table α) (values : Vec α) (dimension v c : Nat) : α :=
  table.zipIdx.foldl
    (fun sum (row, i) =>
      row.foldl
        (fun sum e =>
          if e.vertex = v then sum + e.weight * component values dimension i c else sum)
        sum)
    0

/-- The values on the output mesh. -/
def outputValues (constraint : Constraint) (table : Table α) (values : Vec α)
    (dimension outputVertices : Nat) : Vec α :=
  match constraint with
  | .consistent =>
    table.flatMap fun row => (List.range dimension).map (gathered row values dimension)
  | .conservative =>
    (List.range outputVertices).flatMap fun v =>
      (List.range dimension).map (scattered table values dimension v)

/-- Insists on a number of entries. -/
def expectEntries (id : DataId) (expected found : Nat) : Except (Failure α) Unit :=
  if expected = found then .ok () else .error (.fault (.dataSizeMismatch id expected found))

/-- What a transfer reads, once it is known to fit, and where it writes. -/
structure Plan (α : Type) where
  table : Table α
  source : Field α
  outputRef : MeshRef
  output : Mesh α
  /-- How many vertices there are that a row can refer to. -/
  referred : Nat

/-- Checks that two fields belong together and that the table fits their meshes. -/
def plan (m : Mapping α) (p : Participant α) (inputId outputId : DataId) :
    Except (Failure α) (Plan α) := do
  let (inputRef, outputRef) ← m.ends.mapError .fault
  let input ← (p.mesh inputRef).mapError .violation
  let output ← (p.mesh outputRef).mapError .violation
  match m.table with
  | none => .error (.fault (.mappingNotComputed input.name output.name))
  | some table =>
    let source ← (input.field inputId).mapError .fault
    let target ← (output.field outputId).mapError .fault
    let dimension := source.dimension
    if target.dimension ≠ dimension then
      .error (.fault (.dataDimensionMismatch dimension target.dimension))
    else
      let inputVertices := input.vertices.length
      let outputVertices := output.vertices.length
      expectEntries inputId (← (scalarCount inputVertices dimension).mapError .violation)
        source.values.length
      expectEntries outputId (← (scalarCount outputVertices dimension).mapError .violation)
        target.values.length
      let (rows, rowsId, referred) := match m.config.constraint with
        | .consistent => (outputVertices, outputId, inputVertices)
        | .conservative => (inputVertices, inputId, outputVertices)
      expectEntries rowsId rows table.length
      return { table, source, outputRef, output, referred }

/-- Overwrites a field of the output mesh with the mapped field of the input mesh. -/
def transfer (m : Mapping α) (p : Participant α) (inputId outputId : DataId) :
    Except (Failure α) (Participant α) := do
  let plan ← m.plan p inputId outputId
  if plan.table.refersBelow plan.referred then
    let values := outputValues m.config.constraint plan.table plan.source.values
      plan.source.dimension plan.output.vertices.length
    return p.setMesh plan.outputRef (plan.output.withValues outputId values)
  else .error (.violation .bounds)

end Mapping

end Cosimulation
