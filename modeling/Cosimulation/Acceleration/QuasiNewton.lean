import Cosimulation.Acceleration.Filter
import Cosimulation.Acceleration.History
import Cosimulation.Acceleration.Preconditioner
import Cosimulation.Acceleration.Relaxation

/-!
# Interface quasi-Newton

The scheme learns from its own history. Two successive calls of one window tell how far the residual
moved and how far the iterate moved. The residual moves, weighted by the preconditioner, are the
columns of a least-squares problem that the factorization solves; the iterate is then moved by the
same combination of the iterate moves. Secondary blocks, which take no part in the problem, follow
with their own moves and the same coefficients.

A call runs in this order:

1. the data are checked; if the length of a block changed, all history is dropped (`accept`);
2. on the first call of a window the weights are taken anew (`reweigh`);
3. on any other call the newest column is added and the oldest beyond the limit is dropped
   (`extend`); the secondary blocks are noted and get their part of the column (`noteSecondary`),
   and the filter is applied (`applyFilter`);
4. the coefficients are computed, and either every block moves along the columns or, if there are
   none, every block is relaxed (`respond`);
5. the result becomes the previous iterate.
-/

namespace Cosimulation.Acceleration

/-- What a call saw of the primary blocks: the residual and the stacked values. -/
structure Snapshot (α : Type) where
  residual : Vec α
  iterate : Vec α

/-- The state of an interface quasi-Newton scheme. -/
structure QuasiNewton (α : Type) where
  config : Config α
  secondaryIds : List DataId
  preconditioner : Preconditioner α
  factorization : Factorization α
  history : History α
  /-- What the last call since the history was reset saw. -/
  last : Option (Snapshot α)
  /-- The values each secondary block had in the last call since the start. -/
  lastSecondary : OrderedMap (Vec α)
  /-- The coefficients of the last call; `none` if it relaxed. -/
  coefficients : Option (List α)
  /-- The lengths of the blocks that the history belongs to. -/
  sizes : List (DataId × Nat)
  firstIteration : Bool
  firstWindow : Bool
  /-- The next column replaces the whole history. -/
  pendingClear : Bool
  started : Bool

namespace QuasiNewton

variable {α : Type}

/-- A scheme that has not been started. -/
def new (config : Config α) : QuasiNewton α :=
  { config
    secondaryIds := []
    preconditioner := .new config.preconditioner
    factorization := .empty 0
    history := .empty
    last := none
    lastSecondary := .empty
    coefficients := none
    sizes := []
    firstIteration := true
    firstWindow := true
    pendingClear := false
    started := false }

/-- The number of columns. -/
def columns (s : QuasiNewton α) : Nat := s.history.columns

/-- The columns of each window. -/
def windows (s : QuasiNewton α) : Windows := s.history.windows

/-- The blocks the scheme works on, the primary ones first. -/
def trackedIds (s : QuasiNewton α) : List DataId := s.config.dataIds ++ s.secondaryIds

/-- The filter of the settings. -/
def filter (s : QuasiNewton α) : Filter α := ⟨s.config.filter, s.config.singularityLimit⟩

/-- The recorded length of each primary block, zero for one never seen. -/
def primarySizes (s : QuasiNewton α) : List Nat :=
  s.config.dataIds.map fun id => (s.sizes.lookup id).getD 0

/-- The moves of the secondary block at a position among the secondary IDs, oldest first. -/
def secondaryMoves (s : QuasiNewton α) (position : Nat) : List (Vec α) :=
  (s.secondaryIds[position]?.map s.history.secondaryColumns).getD []

variable [Scalar α]

/-- A residual that moved less than this gives no column. -/
def vanishing : α := 1e-14

/-! ## Dropping history -/

/-- Drops all columns. -/
def clear (s : QuasiNewton α) : QuasiNewton α :=
  { s with
    history := .empty
    factorization := .empty s.factorization.rows
    coefficients := none }

/-- Forgets everything but the settings, the secondary blocks and the recorded lengths. -/
def reset (s : QuasiNewton α) : QuasiNewton α :=
  { s.clear with
    last := none
    firstIteration := true
    firstWindow := true
    pendingClear := false
    preconditioner := s.preconditioner.fit s.primarySizes }

/-- Records the block lengths of a data map and fits factorization and preconditioner to them. -/
def record (s : QuasiNewton α) (data : DataMap α) : QuasiNewton α :=
  let sizes := s.trackedIds.filterMap fun id => (data.find? id).map fun b => (id, b.size)
  let sized := { s with sizes }
  { sized with
    factorization := .empty (joint sized.primarySizes)
    preconditioner := s.preconditioner.fit sized.primarySizes }

/-- Whether a block has another length than the recorded one. -/
def isRemeshed (s : QuasiNewton α) (data : DataMap α) : Bool :=
  s.trackedIds.any fun id =>
    match data.find? id, s.sizes.lookup id with
    | some b, some n => n != b.size
    | _, _ => false

/-- Drops all history if the length of a block changed. -/
def adapt (s : QuasiNewton α) (data : DataMap α) : QuasiNewton α :=
  if s.isRemeshed data then s.reset.record data else s

/-- Drops columns from the history alone. -/
def dropAll (s : QuasiNewton α) (positions : List Nat) : Except (Violation α) (QuasiNewton α) := do
  let history ← s.history.dropAll positions
  .ok { s with history }

/-- Drops a column from the factorization and the history. -/
def drop (s : QuasiNewton α) (i : Nat) : Except (Violation α) (QuasiNewton α) := do
  let factorization ← s.factorization.delete i
  let history ← s.history.drop i
  .ok { s with factorization, history }

/-! ## Checking -/

/-- Checks that history and factorization hold the same number of columns, and the factorization
itself. -/
def validate (s : QuasiNewton α) : Except (ConfigurationFault α) Unit :=
  if s.history.iterates.length ≠ s.columns ∨ s.factorization.columns ≠ s.columns ∨
      s.windows.total ≠ s.columns then
    .error (.historyOutOfStep s.columns s.history.iterates.length s.factorization.columns
      s.windows.total)
  else s.factorization.validate

/-- A state that passes its check. -/
def checked (s : QuasiNewton α) : Except (Violation α) (QuasiNewton α) :=
  match s.validate with
  | .ok () => .ok s
  | .error fault => .error (.brokenHistory (.invalidConfiguration fault))

/-! ## Starting -/

/-- Fixes the secondary blocks, which are all that are not primary, and starts afresh. -/
def start (s : QuasiNewton α) (data : DataMap α) : Except (Fault α) (QuasiNewton α) := do
  data.requireAll s.config.dataIds
  let secondaryIds := data.keys.filter fun id => !s.config.dataIds.contains id
  .ok { ({ s with secondaryIds }.reset.record data) with lastSecondary := .empty, started := true }

/-! ## One call -/

/-- What a call asks of the data. A block of new length drops the history even if the call then
fails. Returns the stacked iterates of the primary blocks. -/
def accept (s : QuasiNewton α) (data : DataMap α) :
    Except (Fault α) (Vec α × Vec α) × QuasiNewton α :=
  if !s.started then (.error (.invalidConfiguration .notInitialized), s)
  else match data.requireAll s.trackedIds with
    | .error f => (.error f, s)
    | .ok () =>
      let s' := s.adapt data
      match data.checkSizes s'.secondaryIds with
      | .error f => (.error f, s')
      | .ok () => (data.stack s'.config.dataIds, s')

/-- On the first call of a window, takes the weights anew. The residual moves change from the old
weights to the new ones, and if any weight differs the factorization is built anew; columns that it
refuses are dropped. -/
def reweigh (s : QuasiNewton α) (iterate residual : Vec α) :
    Except (Violation α) (QuasiNewton α) :=
  if !s.firstIteration ∨ s.preconditioner.frozen then .ok s
  else do
    let unscaled ← s.history.residuals.mapM s.preconditioner.revert
    let preconditioner ← s.preconditioner.update iterate residual
    let residuals ← unscaled.mapM preconditioner.apply
    let s := { s with preconditioner, history := { s.history with residuals } }
    if preconditioner.weightsChanged then do
      let (factorization, refused) ← s.factorization.rebuild residuals
      let s ← { s with factorization }.dropAll refused.reverse
      .ok { s with preconditioner := s.preconditioner.acknowledge }
    else .ok s

/-- Drops the columns that were only kept until the next window has one of its own. -/
def discharge (s : QuasiNewton α) : QuasiNewton α :=
  if s.pendingClear then { s.clear with pendingClear := false } else s

/-- Appends a column, which the factorization has taken in, to the primary lists and drops the
oldest column beyond the limit. -/
def adopt (s : QuasiNewton α) (factorization : Factorization α) (residual iterate : Vec α) :
    Except (Violation α) (QuasiNewton α) :=
  let grown := { s with factorization, history := s.history.append residual iterate }
  if grown.config.maxIterationsUsed < grown.columns then grown.drop 0 else .ok grown

/-- Adds the column from the last call to this one to the primary lists. None is added without a
last call in the same window, if the residual hardly moved, or if the factorization refuses it.
Tells whether a column was added. -/
def extend (s : QuasiNewton α) (now : Snapshot α) :
    Except (Violation α) (QuasiNewton α × Bool) :=
  if s.firstIteration ∨ s.config.maxIterationsUsed = 0 then .ok (s, false)
  else match s.last with
    | none => .ok (s, false)
    | some last => do
      let move ← now.residual.minus last.residual
      if move.norm < vanishing then .ok (s, false)
      else do
        let iterate ← now.iterate.minus last.iterate
        let s := s.discharge
        let residual ← s.preconditioner.apply move
        match ← s.factorization.insert residual with
        | none => .ok (s, false)
        | some factorization => do
          let s ← s.adopt factorization residual iterate
          .ok (s, true)

/-- How a secondary block moved since the last call; it did not if there was none. -/
def secondaryMove (s : QuasiNewton α) (id : DataId) (values : Vec α) :
    Except (Violation α) (Vec α) :=
  match s.lastSecondary.find? id with
  | some last => values.minus last
  | none => .ok (List.replicate values.length 0)

/-- The history with the part that a secondary block has in a new column; unchanged if none was
added. -/
def appendMove (s : QuasiNewton α) (added : Bool) (id : DataId) (values : Vec α) :
    Except (Violation α) (History α) :=
  if added then do
    let move ← s.secondaryMove id values
    .ok (s.history.appendSecondary id move)
  else .ok s.history

/-- Takes note of the values of secondary blocks. If a column was added, each list gets its part. -/
def noteSecondary (data : DataMap α) (added : Bool) :
    QuasiNewton α → List DataId → Except (Violation α) (QuasiNewton α)
  | s, [] => .ok s
  | s, id :: ids => do
    let values := data.valuesOf id
    let history ← s.appendMove added id values
    noteSecondary data added
      { s with history, lastSecondary := s.lastSecondary.insert id values } ids

/-- If a column was added, drops the columns that the filter objects to. -/
def applyFilter (s : QuasiNewton α) (added : Bool) : Except (Violation α) (QuasiNewton α) :=
  if added then do
    let (factorization, removed) ← s.filter.apply s.factorization
    { s with factorization }.dropAll removed
  else .ok s

/-- Brings weights and history up to date with what a call sees. -/
def learn (s : QuasiNewton α) (data : DataMap α) (now : Snapshot α) :
    Except (Violation α) (QuasiNewton α) := do
  let preconditioner ← s.preconditioner.accumulate now.residual
  let s ← { s with preconditioner }.reweigh now.iterate now.residual
  let (s, added) ← s.extend now
  let s ← noteSecondary data added s s.secondaryIds
  s.applyFilter added

/-- Whether this call relaxes whatever the history holds. -/
def relaxesOnly (s : QuasiNewton α) : Bool :=
  s.firstIteration && (s.firstWindow || s.config.forceInitialRelaxation)

/-- The coefficients for a residual; `none` if the call relaxes, because it has to or because there
is no column to combine. -/
def solve (s : QuasiNewton α) (residual : Vec α) : Except (Violation α) (Option (List α)) :=
  if s.relaxesOnly then .ok none
  else do
    let scaled ← s.preconditioner.apply residual
    s.factorization.solve scaled

/-- Moves secondary blocks along their own moves, one block after the other. -/
def moveSecondary (s : QuasiNewton α) (coefficients : List α) :
    DataMap α → List DataId → Except (Violation α) (DataMap α)
  | data, [] => .ok data
  | data, id :: ids => do
    let data' ← data.modify id fun b => do
      let values ← b.values.plusCombination coefficients (s.history.secondaryColumns id)
      .ok { b with values }
    s.moveSecondary coefficients data' ids

/-- Moves the primary blocks along the combination of the iterate moves and the secondary blocks
along the same combination of theirs. -/
def move (s : QuasiNewton α) (data : DataMap α) (iterate : Vec α) (coefficients : List α) :
    Except (Violation α) (DataMap α) := do
  let still := List.replicate iterate.length 0
  let update ← Vec.plusCombination still coefficients s.history.iterates
  let moved ← data.unstack (iterate.add update) s.config.dataIds
  s.moveSecondary coefficients moved s.secondaryIds

/-- Moves the blocks with the coefficients, or relaxes them without any. -/
def advance (s : QuasiNewton α) (data : DataMap α) (iterate : Vec α) :
    Option (List α) → Except (Violation α) (DataMap α)
  | some coefficients => s.move data iterate coefficients
  | none => data.relax s.trackedIds s.config.initialRelaxation

/-- What a call does to the data: it moves or relaxes every block and stores the result. Returns the
coefficients as well. -/
def respond (s : QuasiNewton α) (data : DataMap α) (now : Snapshot α) :
    Except (Violation α) (Option (List α) × DataMap α) := do
  let coefficients ← s.solve now.residual
  let moved ← s.advance data now.iterate coefficients
  let stored ← moved.store s.trackedIds
  .ok (coefficients, stored)

/-- The work of a call on data that were accepted. -/
def step (s : QuasiNewton α) (data : DataMap α) (values old : Vec α) :
    Except (Violation α) (QuasiNewton α × DataMap α) := do
  let residual ← values.minus old
  let now : Snapshot α := ⟨residual, values⟩
  let s ← s.learn data now
  let (coefficients, stored) ← s.respond data now
  let s ← { s with coefficients, last := some now, firstIteration := false }.checked
  .ok (s, stored)

/-- Moves every block towards a fixed point of the coupled solvers. -/
def perform (s : QuasiNewton α) (data : DataMap α) :
    Except (Violation α) (Reply (QuasiNewton α) α) :=
  match s.accept data with
  | (.error f, s') => .ok ⟨.error f, s', data⟩
  | (.ok (values, old), s') => do
    let (s'', data') ← s'.step data values old
    .ok ⟨.ok (), s'', data'⟩

/-! ## The end of a window -/

/-- Removes the oldest column several times, without regard to the windows. -/
def removeOldest (s : QuasiNewton α) : Nat → Except (Violation α) (QuasiNewton α)
  | 0 => .ok s
  | n + 1 => do
    let factorization ← s.factorization.delete 0
    let history ← s.history.removeColumn 0
    { s with factorization, history }.removeOldest n

/-- Removes the oldest windows with their columns, `n` of them. -/
def removeWindows (s : QuasiNewton α) : (n : Nat) → Except (Violation α) (QuasiNewton α)
  | 0 => .ok s
  | n + 1 =>
    match s.history.windows.sizes with
    | [] => .ok s
    | size :: sizes => do
      let s' ← { s with history := { s.history with windows := ⟨sizes⟩ } }.removeOldest size
      s'.removeWindows n

/-- Decides which columns outlive their window: those of the newest windows, as many as the settings
say. If no window is to be reused, the columns go at once where the next window begins with
relaxation, and otherwise stay until the next window has one of its own. -/
def retain (s : QuasiNewton α) : Except (Violation α) (QuasiNewton α) :=
  if s.config.timestepsReused = 0 then
    if s.config.forceInitialRelaxation then .ok s.clear else .ok { s with pendingClear := true }
  else s.removeWindows (s.history.windows.sizes.length - s.config.timestepsReused)

/-- The end of a window: the next call is the first of a new one. -/
def converged (s : QuasiNewton α) (data : DataMap α) :
    Except (Violation α) (Reply (QuasiNewton α) α) :=
  if !s.started then .ok ⟨.error (.invalidConfiguration .notInitialized), s, data⟩
  else do
    let s ← { s with history := { s.history with windows := s.history.windows.finish } }.retain
    let s := { s with
      history := { s.history with windows := s.history.windows.begin }
      firstIteration := true
      firstWindow := false }
    .ok ⟨.ok (), s, data⟩

end QuasiNewton

end Cosimulation.Acceleration
