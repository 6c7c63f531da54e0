import Cosimulation.Vec

/-!
# Blocks

A block is one exchanged quantity in two iterates: the current values and those of the previous
coupling iteration. A scheme rewrites the values and then stores them as the previous iterate.

The two iterates may differ in length, because the mesh behind a block can change between two calls;
`Block.checkSizes` tells, and the operations that pair the iterates up insist on it.
-/

namespace Cosimulation

/-- One exchanged quantity: its current and its previous iterate, and how many scalars belong to one
vertex. -/
structure Block (α : Type) where
  values : Vec α
  old : Vec α
  dimension : Nat

namespace Block

variable {α : Type} [Scalar α]

/-- A block from both iterates. The dimension has to be positive. -/
def ofIterates (values old : Vec α) (dimension : Nat) : Except (Violation α) (Block α) :=
  if dimension = 0 then .error .blockDimension else .ok ⟨values, old, dimension⟩

/-- A block whose previous iterate is zero. -/
def ofValues (values : Vec α) (dimension : Nat) : Except (Violation α) (Block α) :=
  ofIterates values (List.replicate values.length 0) dimension

/-- The number of scalars. -/
def size (b : Block α) : Nat := b.values.length

/-- The number of vertices the block spans; a rest that fills no vertex is not counted. -/
def vertexCount (b : Block α) : Nat := b.size / b.dimension

/-- What the last iteration changed. -/
def residual (b : Block α) : Except (Violation α) (Vec α) := b.values.minus b.old

/-- Makes the current iterate the previous one. -/
def store (b : Block α) : Except (Violation α) (Block α) := do
  let old ← b.old.overwrite b.values
  .ok { b with old }

/-- Both iterates become zeros of a new length. -/
def resize (b : Block α) (n : Nat) : Except (Violation α) (Block α) := do
  let blank ← zeros n
  .ok { b with values := blank, old := blank }

/-- Insists that both iterates have one length. -/
def checkSizes (b : Block α) (id : DataId) : Except (Fault α) Unit :=
  if b.values.length = b.old.length then .ok ()
  else .error (.dataSizeMismatch id b.values.length b.old.length)

/-- Moves the values towards the previous iterate: `old + ω · (values - old)`. -/
def relax (ω : α) (b : Block α) : Except (Violation α) (Block α) := do
  let r ← b.residual
  let values ← b.old.plusScaled ω r
  .ok { b with values }

end Block

end Cosimulation
