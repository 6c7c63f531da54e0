import Cosimulation.Acceleration.Windows
import Cosimulation.Data.OrderedMap
import Cosimulation.Vec

/-!
# Histories of a quasi-Newton scheme

What a scheme has learnt is kept in columns, oldest first. A column stands for the step from one
call to the next and has a part in several lists: how the residual moved, weighted by the
preconditioner; how the stacked primary iterate moved; and, in a list of its own for each secondary
block, how that block moved. `windows` counts the columns of each time window.

The lists are edited by separate operations. A column of the primary lists is appended before the
secondary lists get theirs, and a column that is removed in between is taken from whatever each list
holds at its position.
-/

namespace Cosimulation.Acceleration

/-- The columns of a history. -/
structure History (α : Type) where
  /-- How the residual moved, weighted by the preconditioner. -/
  residuals : List (Vec α)
  /-- How the stacked primary iterate moved. -/
  iterates : List (Vec α)
  /-- How each secondary block moved, by its ID. -/
  secondary : OrderedMap (List (Vec α))
  windows : Windows

namespace History

variable {α : Type}

/-- The history without columns. -/
def empty : History α := ⟨[], [], .empty, .fresh⟩

/-- The number of columns. -/
def columns (h : History α) : Nat := h.residuals.length

/-- The moves of a secondary block, oldest first. -/
def secondaryColumns (h : History α) (id : DataId) : List (Vec α) := (h.secondary.find? id).getD []

/-- Appends a column to the primary lists, in the current window. -/
def append (h : History α) (residual iterate : Vec α) : History α :=
  { h with
    residuals := h.residuals ++ [residual]
    iterates := h.iterates ++ [iterate]
    windows := h.windows.push }

/-- Appends a column to the list of one secondary block. -/
def appendSecondary (h : History α) (id : DataId) (column : Vec α) : History α :=
  { h with secondary := h.secondary.insert id (h.secondaryColumns id ++ [column]) }

/-- Takes a column out of the lists. The primary lists have to reach that far; a secondary list that
does not stays as it is. -/
def removeColumn (h : History α) (i : Nat) : Except (Violation α) (History α) :=
  if i < h.residuals.length ∧ i < h.iterates.length then
    .ok { h with
      residuals := h.residuals.eraseIdx i
      iterates := h.iterates.eraseIdx i
      secondary := h.secondary.mapValues fun columns => columns.eraseIdx i }
  else .error .bounds

/-- Takes a column out of the lists and out of its window. -/
def drop (h : History α) (i : Nat) : Except (Violation α) (History α) := do
  let h' ← h.removeColumn i
  .ok { h' with windows := h'.windows.erase i }

/-- Drops several columns, one after the other. -/
def dropAll (h : History α) : List Nat → Except (Violation α) (History α)
  | [] => .ok h
  | i :: is => do
    let h' ← h.drop i
    h'.dropAll is

end History

end Cosimulation.Acceleration
