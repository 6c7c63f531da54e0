import Cosimulation.Config.Choice
import Cosimulation.Decimal.Text

/-!
# Faults and violations

An operation can fail in two ways, and the library keeps them apart.

* A `Fault` is an answer: something outside the library is missing, has the wrong size or does not
  follow a format, and the caller is told which.
* A `Violation` is a broken contract of the library itself, such as a vector of the wrong length
  handed to a factorization. No result follows it.

`Fault.message` and `Violation.message` are the only places that hold their wording. Both types
carry the causes as data, so that statements about when a failure arises need no text.
-/

namespace Cosimulation

/-- The number of an exchanged quantity. -/
abbrev DataId := Nat

/-- The number of a mesh, unique in a coupled run. -/
abbrev MeshId := Nat

/-- The number of a process in a group. -/
abbrev Rank := Nat

/-- What is wrong with a setting, or with a scheme's own bookkeeping. -/
inductive ConfigurationFault (α : Type) where
  | relaxationOutOfRange (found : α)
  | limitNotPositive (found : α)
  | noDataIds (scheme : SchemeKind)
  | repeatedDataIds (ids : List DataId)
  | unusedFactors
  | factorCount (expected found : Nat)
  | factorNotPositive (found : α)
  | mappingDimensions (found : Nat)
  | notInitialized
  | factorizationShape (vectors : Nat) (coefficients : Nat × Nat) (norms : Nat)
  | notTriangular (i j : Nat)
  | notOrthonormal (i j : Nat) (product : α)
  | misplacedVertex (position found : Nat)
  | historyOutOfStep (residuals iterates factorized windows : Nat)

/-- How received bytes depart from their format. -/
inductive FormatFault where
  | length (expected found : Nat)
  | partialRecord (bytes size : Nat)
  | version (found : Nat)
  | kind (expected found : Nat)
  | shortMeshHeader (bytes : Nat)
  | meshDimensions (found : Nat)
  | boxCount (found : Nat)
  deriving Repr, DecidableEq

/-- Why a receive did not yield values. -/
inductive TransferFault where
  | noMessage
  | length (expected found : Nat)
  | format (cause : FormatFault)
  deriving Repr, DecidableEq

/-- The two sides of a mapping. -/
inductive Side where
  | input
  | output
  deriving Repr, DecidableEq

/-- An answer in place of a result: what stood in the way. -/
inductive Fault (α : Type) where
  | missingData (id : DataId)
  | invalidConfiguration (cause : ConfigurationFault α)
  | dataSizeMismatch (id : DataId) (expected found : Nat)
  | emptyMesh (mesh : String)
  | missingMesh (side : Side)
  | mappingNotComputed (source target : String)
  | missingMeshData (mesh : MeshId) (id : DataId)
  | dataDimensionMismatch (input output : Nat)
  | invalidEdge (mesh : String) (vertex count : Nat)
  | invalidTriangle (mesh : String) (edges : Nat × Nat × Nat)
  | coordinateDimension (mesh : String) (expected found : Nat)
  | transfer (peer : Rank) (cause : TransferFault)
  | format (cause : FormatFault)

/-- A contract of the library that its caller, or the library itself, has broken. -/
inductive Violation (α : Type) where
  | relaxationFactor (found : α)
  | initialRelaxation (found : α)
  | blockDimension
  | fieldDimension
  | meshDimensions (found : Nat)
  | mappingDimensions (found : Nat)
  | columnLength
  | columnRange (column count : Nat)
  | scaledLength
  | unscaledLength
  | rankRange (rank size : Nat)
  | exchangedLength (rank vertices dimension : Nat)
  | brokenFactorization (fault : Fault α)
  | brokenHistory (fault : Fault α)
  | brokenMesh (fault : Fault α)
  /-- An index, a length or a size is out of bounds. -/
  | bounds

/-- Either way of failing. -/
inductive Failure (α : Type) where
  | fault (fault : Fault α)
  | violation (violation : Violation α)

/-! ## Wording -/

/-- The items of a list, separated by commas, in square brackets. -/
def bracketed (items : List String) : String :=
  "[" ++ ", ".intercalate items ++ "]"

/-- The wording of a configuration fault. -/
def ConfigurationFault.message : ConfigurationFault Double → String
  | .relaxationOutOfRange x => s!"initial relaxation must lie in (0, 1], got {Decimal.exact x}"
  | .limitNotPositive x => s!"singularity limit must be positive, got {Decimal.exact x}"
  | .noDataIds scheme => s!"{scheme.title} acceleration needs at least one data ID"
  | .repeatedDataIds ids =>
    "duplicate data IDs in " ++ bracketed (ids.map fun id => s!"DataId({id})")
  | .unusedFactors => "preconditioner factors are only used by the constant preconditioner"
  | .factorCount expected found =>
    s!"constant preconditioner needs one factor per data ID ({expected}), got {found}"
  | .factorNotPositive x => s!"preconditioner factors must be positive, got {Decimal.exact x}"
  | .mappingDimensions found => s!"mapping dimensions must be 2 or 3, got {found}"
  | .notInitialized => "IQN-ILS acceleration used before initialize"
  | .factorizationShape vectors (rows, columns) norms =>
    s!"QR shape mismatch: {vectors} basis vectors, R ({rows}, {columns}), {norms} norms"
  | .notTriangular i j => s!"R is not upper triangular at ({i}, {j})"
  | .notOrthonormal i j product =>
    s!"Q is not orthonormal: q{i}.q{j} = {Decimal.exact product}"
  | .misplacedVertex position found => s!"vertex at position {position} carries id {found}"
  | .historyOutOfStep residuals iterates factorized windows =>
    s!"history out of sync: V {residuals}, W {iterates}, QR {factorized}, windows {windows}"

/-- The wording of a format fault. -/
def FormatFault.message : FormatFault → String
  | .length expected found => s!"expected {expected} bytes, got {found}"
  | .partialRecord bytes size => s!"{bytes} bytes do not hold whole records of {size} bytes"
  | .version found => s!"wire version {found} is not supported (expected 1)"
  | .kind expected found => s!"expected message kind {expected}, got {found}"
  | .shortMeshHeader bytes => s!"mesh message of {bytes} bytes is shorter than its header"
  | .meshDimensions found => s!"mesh dimension {found} is not supported"
  | .boxCount found => s!"expected one bounding box, got {found}"

/-- A format fault as it is reported on its own. -/
def FormatFault.report (fault : FormatFault) : String :=
  "malformed wire payload: " ++ fault.message

/-- The wording of a transfer fault. -/
def TransferFault.message : TransferFault → String
  | .noMessage => "no message received"
  | .length expected found => s!"expected {expected} bytes, got {found}"
  | .format cause => cause.report

/-- The name of a side. -/
def Side.name : Side → String
  | .input => "input"
  | .output => "output"

/-- The wording of a fault. -/
def Fault.message : Fault Double → String
  | .missingData id =>
    s!"coupling data with id {id} is required by the acceleration but was not provided"
  | .invalidConfiguration cause => "invalid configuration: " ++ cause.message
  | .dataSizeMismatch id expected found =>
    s!"data {id}: expected {expected} entries, found {found}"
  | .emptyMesh mesh => s!"mesh \"{mesh}\" does not contain any vertex to map onto"
  | .missingMesh side => s!"mapping has no {side.name} mesh attached"
  | .mappingNotComputed source target =>
    s!"mapping from \"{source}\" to \"{target}\" has not been computed"
  | .missingMeshData mesh id => s!"mesh MeshId({mesh}) has no data with id {id}"
  | .dataDimensionMismatch input output =>
    s!"data dimension mismatch: input {input}, output {output}"
  | .invalidEdge mesh vertex count =>
    s!"edge references vertex {vertex}, but mesh \"{mesh}\" has only {count} vertices"
  | .invalidTriangle mesh (a, b, c) =>
    s!"edges [{a}, {b}, {c}] of mesh \"{mesh}\" do not form a triangle"
  | .coordinateDimension mesh expected found =>
    s!"mesh \"{mesh}\" is {expected}-dimensional, got a {found}-dimensional vertex"
  | .transfer peer cause => s!"communication with rank {peer} failed: {cause.message}"
  | .format cause => cause.report

/-- The wording of a violation; bounds are reported without words. -/
def Violation.message : Violation Double → String
  | .relaxationFactor x => s!"relaxation factor must lie in (0, 1], got {Decimal.exact x}"
  | .initialRelaxation x => s!"initial relaxation must lie in (0, 1], got {Decimal.exact x}"
  | .blockDimension => "coupling data dimension must be positive"
  | .fieldDimension => "data dimension must be positive"
  | .meshDimensions found => s!"mesh dimensions must be 2 or 3, got {found}"
  | .mappingDimensions found => s!"mapping dimensions must be 2 or 3, got {found}"
  | .columnLength => "QR column has wrong length"
  | .columnRange column count => s!"QR column {column} out of range ({count} columns)"
  | .scaledLength => "preconditioner applied to a vector of wrong size"
  | .unscaledLength => "preconditioner reverted on a vector of wrong size"
  | .rankRange rank size => s!"rank {rank} out of range for {size} ranks"
  | .exchangedLength rank vertices dimension =>
    s!"rank {rank} holds {vertices} vertices of dimension {dimension}"
  | .brokenFactorization fault => "[invariants] QrFactorization: " ++ fault.message
  | .brokenHistory fault => "[invariants] QuasiNewton: " ++ fault.message
  | .brokenMesh fault => "[invariants] Mesh: " ++ fault.message
  | .bounds => ""

/-! ## Results -/

/-- The parts of a computation with a result have results. -/
theorem bind_ok {ε β γ : Type} {x : Except ε β} {f : β → Except ε γ} {c : γ}
    (h : x >>= f = .ok c) : ∃ b, x = .ok b ∧ f b = .ok c := by
  cases x with
  | error e => cases h
  | ok b => exact ⟨b, rfl, h⟩

/-- A result is handed on. -/
theorem ok_bind {ε β γ : Type} (b : β) (f : β → Except ε γ) : (Except.ok b >>= f) = f b := rfl

/-- A result that was changed was there before. -/
theorem map_eq_ok {ε β γ : Type} {f : β → γ} {x : Except ε β} {c : γ} :
    x.map f = .ok c ↔ ∃ b, x = .ok b ∧ f b = c := by
  cases x with
  | error e => exact ⟨nofun, nofun⟩
  | ok b => exact ⟨fun h => ⟨b, rfl, Except.ok.inj h⟩, fun ⟨_, hb, hc⟩ => by
      rw [← hc, ← Except.ok.inj hb]
      rfl⟩

theorem mapError_eq_ok {ε ε' β : Type} {f : ε → ε'} {x : Except ε β} {b : β} :
    x.mapError f = .ok b ↔ x = .ok b := by
  cases x with
  | error e => constructor <;> intro h <;> cases h
  | ok a => exact ⟨fun h => congrArg _ (Except.ok.inj h), fun h => congrArg _ (Except.ok.inj h)⟩

theorem toOption_eq_some {ε β : Type} {x : Except ε β} {b : β} :
    x.toOption = some b ↔ x = .ok b := by
  cases x with
  | error e => constructor <;> intro h <;> cases h
  | ok a => exact ⟨fun h => congrArg _ (Option.some.inj h), fun h => congrArg _ (Except.ok.inj h)⟩

theorem mapError_ok {ε ε' β : Type} (f : ε → ε') (b : β) :
    (Except.ok b : Except ε β).mapError f = .ok b := rfl

/-! ## Sizes

Sizes are counted in 64 bits and a list of scalars has to fit the memory that 63 bits address. -/

/-- The size of several pieces together. -/
def joint (sizes : List Nat) : Nat := sizes.foldr (· + ·) 0

/-- The number of scalars for `count` vertices of the given dimension. -/
def scalarCount {α : Type} (count dimension : Nat) : Except (Violation α) Nat :=
  if count * dimension < UInt64.size then .ok (count * dimension) else .error .bounds

/-- One more than the largest number of scalars that can be held. -/
def capacity : Nat := 0x1000000000000000

/-- A list of zeros, if one of that length can be held. -/
def zeros {α : Type} [Zero α] (n : Nat) : Except (Violation α) (List α) :=
  if n < capacity then .ok (List.replicate n 0) else .error .bounds

end Cosimulation
