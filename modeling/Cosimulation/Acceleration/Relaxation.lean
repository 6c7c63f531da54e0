import Cosimulation.Acceleration.Config
import Cosimulation.Data.DataMap

/-!
# Relaxation

The two schemes that move every block of a data map towards its previous iterate by one factor:
`Constant` keeps the factor, `Aitken` adapts it to how the residual of its configured blocks changed
since the last call.

A call either reports a fault and changes nothing, or relaxes all blocks and stores the result as
the previous iterate. What a call leaves behind is a `Reply`, for these schemes and all others.
-/

namespace Cosimulation.Acceleration

variable {α : Type}

/-- What a call on a scheme leaves behind: its answer, the scheme and the data. -/
structure Reply (σ α : Type) where
  answer : Except (Fault α) Unit
  scheme : σ
  data : DataMap α

/-- The same reply about another presentation of the scheme. -/
def Reply.map {σ τ : Type} (f : σ → τ) (r : Reply σ α) : Reply τ α :=
  ⟨r.answer, f r.scheme, r.data⟩

variable [Scalar α]

/-! ## Constant relaxation -/

/-- Relaxation by a fixed factor. -/
structure Constant (α : Type) where
  relaxation : α
  dataIds : List DataId

namespace Constant

/-- A scheme with a factor in `(0, 1]`. -/
def new (relaxation : α) (dataIds : List DataId) : Except (Violation α) (Constant α) :=
  if isRelaxationFactor relaxation then .ok ⟨relaxation, dataIds⟩
  else .error (.relaxationFactor relaxation)

/-- Insists that the configured blocks are there. -/
def start (s : Constant α) (data : DataMap α) : Except (Fault α) (Constant α) := do
  data.requireAll s.dataIds
  .ok s

/-- What a call asks of the data: the configured blocks, and iterates of one length in all. -/
def accept (s : Constant α) (data : DataMap α) : Except (Fault α) Unit := do
  data.requireAll s.dataIds
  data.checkSizes data.keys

/-- Relaxes all blocks by the fixed factor. -/
def perform (s : Constant α) (data : DataMap α) :
    Except (Violation α) (Reply (Constant α) α) :=
  match s.accept data with
  | .error f => .ok ⟨.error f, s, data⟩
  | .ok () => do
    let relaxed ← data.relax data.keys s.relaxation
    let stored ← relaxed.store data.keys
    .ok ⟨.ok (), s, stored⟩

end Constant

/-! ## Aitken relaxation -/

/-- Relaxation by a factor that follows the residual. -/
structure Aitken (α : Type) where
  initial : α
  dataIds : List DataId
  factor : α
  /-- How many calls the current window has seen. -/
  iteration : Nat
  /-- The residual of the last call. -/
  residual : Option (Vec α)

namespace Aitken

/-- A change of the residual shorter than this leaves the factor as it is. -/
def vanishing : α := 1e-14

/-- A scheme whose initial factor is in `(0, 1]`. -/
def new (initial : α) (dataIds : List DataId) : Except (Violation α) (Aitken α) :=
  if isRelaxationFactor initial then .ok ⟨initial, dataIds, initial, 0, none⟩
  else .error (.initialRelaxation initial)

/-- Insists that the configured blocks are there. -/
def start (s : Aitken α) (data : DataMap α) : Except (Fault α) (Aitken α) := do
  data.requireAll s.dataIds
  .ok s

/-- Forgets everything but the settings. -/
def reset (s : Aitken α) : Aitken α :=
  { s with factor := s.initial, iteration := 0, residual := none }

/-- The end of a window: the next call is the first of a new one. -/
def converged (s : Aitken α) : Aitken α := { s with iteration := 0 }

/-- A residual of another length than the last one means that the mesh changed; then the scheme
starts afresh. -/
def adapt (s : Aitken α) (residual : Vec α) : Aitken α :=
  match s.residual with
  | some last => if last.length = residual.length then s else s.reset
  | none => s

/-- The factor that would have cancelled the last residual's change, given the one before. -/
def secantFactor (factor : α) (last residual : Vec α) : Except (Violation α) α := do
  let change ← residual.minus last
  let length2 := change.dot change
  .ok (if vanishing * vanishing < length2 then -factor * last.dot change / length2 else factor)

/-- The first factor of a window: the sign of the last one, and a magnitude of at most the initial
factor. -/
def cappedFactor (initial factor : α) : α :=
  Scalar.signum factor * Scalar.smaller initial (Scalar.abs factor)

/-- The factor for a call with the given residual. -/
def nextFactor (s : Aitken α) (residual : Vec α) : Except (Violation α) α :=
  match s.residual with
  | some last =>
    if 0 < s.iteration then secantFactor s.factor last residual
    else .ok (cappedFactor s.initial s.factor)
  | none => .ok (cappedFactor s.initial s.factor)

/-- What a call asks of the data: iterates of one length in all blocks, and the configured blocks,
whose stacked iterates it returns. -/
def accept (s : Aitken α) (data : DataMap α) : Except (Fault α) (Vec α × Vec α) := do
  data.checkSizes data.keys
  data.stack s.dataIds

/-- Adapts the factor and relaxes all blocks by it. -/
def perform (s : Aitken α) (data : DataMap α) : Except (Violation α) (Reply (Aitken α) α) :=
  match s.accept data with
  | .error f => .ok ⟨.error f, s, data⟩
  | .ok (values, old) => do
    let residual ← values.minus old
    let s := s.adapt residual
    let factor ← s.nextFactor residual
    let relaxed ← data.relax data.keys factor
    let stored ← relaxed.store data.keys
    .ok ⟨.ok (), { s with factor, iteration := s.iteration + 1, residual := some residual }, stored⟩

end Aitken

end Cosimulation.Acceleration
