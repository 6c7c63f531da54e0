import Cosimulation.Data.Block
import Cosimulation.Data.OrderedMap

/-!
# Data maps

A data map holds at most one block per data ID, in ascending order of the IDs.

`DataMap.stack` joins several blocks into one vector, in the order of the IDs it is given, which is
the order of the configuration and not that of the map.
-/

namespace Cosimulation

/-- Blocks by data ID, ascending. -/
abbrev DataMap (α : Type) := OrderedMap (Block α)

namespace DataMap

variable {α : Type}

/-- The values of a block; none for one that is missing. -/
def valuesOf (m : DataMap α) (id : DataId) : Vec α := ((m.find? id).map Block.values).getD []

variable [Scalar α]

/-- The block of an ID, or a fault that names the ID. -/
def require (m : DataMap α) (id : DataId) : Except (Fault α) (Block α) :=
  match m.find? id with
  | some b => .ok b
  | none => .error (.missingData id)

/-- Insists that every ID has a block; the first that has none is named. -/
def requireAll (m : DataMap α) : List DataId → Except (Fault α) Unit
  | [] => .ok ()
  | id :: ids => do
    let _ ← m.require id
    m.requireAll ids

/-- Insists that every ID has a block with iterates of one length; the first that fails is named. -/
def checkSizes (m : DataMap α) : List DataId → Except (Fault α) Unit
  | [] => .ok ()
  | id :: ids => do
    let b ← m.require id
    b.checkSizes id
    m.checkSizes ids

/-- The current and the previous iterates of several blocks, each joined into one vector. -/
def stack (m : DataMap α) : List DataId → Except (Fault α) (Vec α × Vec α)
  | [] => .ok ([], [])
  | id :: ids => do
    let b ← m.require id
    b.checkSizes id
    let (values, old) ← m.stack ids
    .ok (b.values ++ values, b.old ++ old)

/-- Changes the block of one ID, which has to be present. -/
def modify (m : DataMap α) (id : DataId) (f : Block α → Except (Violation α) (Block α)) :
    Except (Violation α) (DataMap α) :=
  match m.find? id with
  | some b => do
    let b' ← f b
    .ok (m.insert id b')
  | none => .error .bounds

/-- Changes the blocks of several IDs, one after the other. -/
def modifyAll (m : DataMap α) (f : Block α → Except (Violation α) (Block α)) :
    List DataId → Except (Violation α) (DataMap α)
  | [] => .ok m
  | id :: ids => do
    let m' ← m.modify id f
    m'.modifyAll f ids

/-- Relaxes the blocks of several IDs by one factor. -/
def relax (m : DataMap α) (ids : List DataId) (ω : α) : Except (Violation α) (DataMap α) :=
  m.modifyAll (Block.relax ω) ids

/-- Stores the current iterate of the blocks of several IDs. -/
def store (m : DataMap α) (ids : List DataId) : Except (Violation α) (DataMap α) :=
  m.modifyAll Block.store ids

/-- Replaces the values of several blocks by consecutive pieces of a stacked vector. -/
def unstack (m : DataMap α) (stacked : Vec α) : List DataId → Except (Violation α) (DataMap α)
  | [] => .ok m
  | id :: ids =>
    match m.find? id with
    | none => .error .bounds
    | some b =>
      if b.size ≤ stacked.length then
        let m' : DataMap α := m.insert id { b with values := stacked.take b.size }
        m'.unstack (stacked.drop b.size) ids
      else .error .bounds

end DataMap

end Cosimulation
