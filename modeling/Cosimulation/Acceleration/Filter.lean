import Cosimulation.Acceleration.Factorization

/-!
# Filters

A filter names the column of a factorization that contributes least compared with its threshold.
`Filter.apply` removes such columns until none is left below its threshold; because every removal
shortens the factorization, this ends after at most as many removals as there are columns.
-/

namespace Cosimulation.Acceleration

/-- A limit and what it is relative to. -/
structure Filter (α : Type) where
  kind : FilterKind
  limit : α

namespace Filter

variable {α : Type} [Scalar α]

/-- The least diagonal coefficient that column `i` may have; `none` if there is no demand. -/
def threshold (filter : Filter α) (f : Factorization α) (i : Nat) : Option α :=
  match filter.kind with
  | .none => none
  | .qr1 => some (filter.limit * f.totalNorm)
  | .qr2 => some (filter.limit * f.columnNorm i)

/-- The diagonal coefficient of column `i` in proportion to its threshold, where that is below
one. -/
def shortfall (filter : Filter α) (f : Factorization α) (i : Nat) : Option α :=
  match filter.threshold f i with
  | none => none
  | some t =>
    if t ≤ 0 then none
    else
      let ratio := Scalar.abs (f.diagonal i) / t
      if ratio < 1 then some ratio else none

/-- The position with the smaller proportion, the earlier one if they are equal. -/
def worse (proportion : Nat → Option α) (best : Option (Nat × α)) (i : Nat) : Option (Nat × α) :=
  match proportion i, best with
  | none, _ => best
  | some r, none => some (i, r)
  | some r, some (j, w) => if r < w then some (i, r) else some (j, w)

/-- The first of the positions with the smallest proportion. -/
def worst (proportion : Nat → Option α) (positions : List Nat) : Option (Nat × α) :=
  positions.foldl (worse proportion) none

/-- The column that falls short most; of several the oldest. -/
def mostRedundant (filter : Filter α) (f : Factorization α) : Option Nat :=
  (worst (filter.shortfall f) (List.range f.columns)).map Prod.fst

/-- Removes the most redundant column, at most `fuel` times. -/
def removeRedundant (filter : Filter α) :
    (fuel : Nat) → Factorization α → Except (Violation α) (Factorization α × List Nat)
  | 0, f => .ok (f, [])
  | fuel + 1, f =>
    match filter.mostRedundant f with
    | none => .ok (f, [])
    | some i => do
      let shorter ← f.delete i
      let (f', removed) ← filter.removeRedundant fuel shorter
      .ok (f', i :: removed)

/-- Removes columns until none falls short. Returns the removed positions in order, each counted in
the columns that were left when it was removed. -/
def apply (filter : Filter α) (f : Factorization α) :
    Except (Violation α) (Factorization α × List Nat) :=
  filter.removeRedundant f.columns f

end Filter

end Cosimulation.Acceleration
