import Cosimulation.Acceleration.Config
import Cosimulation.Vec

/-!
# Preconditioners

A preconditioner gives every row of the stacked residual a weight, the same for all rows of a block.
Constant weights are fixed by the settings. The others are taken anew at the start of each window
from what the blocks look like then, until the settings freeze them: from the range of the values,
from the norm of the residual, or from the share of each block in the residuals accumulated since
weights were last taken.

Whoever holds vectors scaled by the old weights has to scale them again when the weights change,
which `weightsChanged` records until it is acknowledged.
-/

namespace Cosimulation.Acceleration

/-- Row weights, and what their next change will be derived from. -/
structure Preconditioner (α : Type) where
  config : PreconditionerConfig α
  /-- The lengths of the blocks. -/
  sizes : List Nat
  weights : Vec α
  /-- Per block, the norms of its residual summed since weights were last taken. -/
  sums : List α
  /-- How many times the weights were taken anew. -/
  windows : Nat
  frozen : Bool
  weightsChanged : Bool

namespace Preconditioner

variable {α : Type}

/-- A preconditioner for no rows, to be fitted to blocks. -/
def new (config : PreconditionerConfig α) : Preconditioner α :=
  { config, sizes := [], weights := [], sums := [], windows := 0, frozen := false,
    weightsChanged := false }

variable [Scalar α]

/-- Scales smaller than this are not divided by. -/
def vanishing : α := 1e-14

/-- The weights in force before any residual was seen. A factor divides the rows of its block. -/
def initialWeights (config : PreconditionerConfig α) (sizes : List Nat) : Vec α :=
  let factors := if config.kind = .constant then config.factors else []
  let known := factors.map fun factor => 1 / factor
  let missing := List.replicate (sizes.length - known.length) 1
  Vec.spread sizes (known ++ missing)

/-- Takes the block lengths and forgets everything else. -/
def fit (p : Preconditioner α) (sizes : List Nat) : Preconditioner α :=
  { config := p.config
    sizes
    weights := initialWeights p.config sizes
    sums := List.replicate sizes.length 0
    windows := 0
    frozen := p.config.kind = .constant
    weightsChanged := false }

/-- Takes block lengths from outside, as far as a weight for each row can be held. -/
def fitChecked (p : Preconditioner α) (sizes : List Nat) :
    Except (Violation α) (Preconditioner α) :=
  if joint sizes < capacity then .ok (p.fit sizes) else .error .bounds

/-- The change of weights was dealt with. -/
def acknowledge (p : Preconditioner α) : Preconditioner α := { p with weightsChanged := false }

/-- Multiplies each row by its weight. -/
def apply (p : Preconditioner α) (v : Vec α) : Except (Violation α) (Vec α) :=
  if v.length = p.weights.length then .ok (v.zipWith (· * ·) p.weights)
  else .error .scaledLength

/-- Divides each row by its weight. -/
def revert (p : Preconditioner α) (v : Vec α) : Except (Violation α) (Vec α) :=
  if v.length = p.weights.length then .ok (v.zipWith (· / ·) p.weights)
  else .error .unscaledLength

/-- Takes note of the residual of one call, where the weights depend on it. -/
def accumulate (p : Preconditioner α) (residual : Vec α) :
    Except (Violation α) (Preconditioner α) :=
  if p.config.kind ≠ .residualSum ∨ p.frozen then .ok p
  else do
    let segments ← residual.segments p.sizes
    .ok { p with sums := p.sums.zipWith (fun sum segment => sum + Vec.norm segment) segments }

/-- Only the sums are affected. -/
theorem accumulate_eq {p p' : Preconditioner α} {residual : Vec α}
    (h : p.accumulate residual = .ok p') : ∃ sums, p' = { p with sums } := by
  unfold accumulate at h
  split at h
  next => exact ⟨p.sums, (Except.ok.inj h).symm⟩
  next =>
    obtain ⟨segments, -, h⟩ := bind_ok h
    exact ⟨_, (Except.ok.inj h).symm⟩

/-- The reciprocal, or one where that would be out of proportion. -/
def invertOrOne (x : α) : α := if Scalar.abs x < vanishing then 1 else 1 / x

/-- The weight of each block for the accumulated sums: the reciprocal of its share in the total. -/
def shareWeights (sums : List α) : List α :=
  let total := Vec.sum sums
  sums.map fun sum => if vanishing < total then invertOrOne (sum / total) else 1

/-- The weight of each block for the given values and residual. -/
def blockWeights (p : Preconditioner α) (values residual : Vec α) :
    Except (Violation α) (List α) :=
  match p.config.kind with
  | .constant => .ok (List.replicate p.sizes.length 1)
  | .value => do
    let segments ← values.segments p.sizes
    .ok (segments.map fun s => invertOrOne (s.largest - s.smallest))
  | .residual => do
    let segments ← residual.segments p.sizes
    .ok (segments.map fun s => invertOrOne s.norm)
  | .residualSum => .ok (shareWeights p.sums)

/-- Whether the settings allow no further change after `windows` changes. -/
def isExhausted (config : PreconditionerConfig α) (windows : Nat) : Bool :=
  match config.maxNonConstWindows with
  | some limit => limit ≤ windows
  | none => false

/-- Takes the weights anew at the start of a window. -/
def update (p : Preconditioner α) (values residual : Vec α) :
    Except (Violation α) (Preconditioner α) :=
  if p.frozen ∨ p.config.kind = .constant then .ok p
  else do
    let perBlock ← p.blockWeights values residual
    let weights := Vec.spread p.sizes perBlock
    let changed := !(weights == p.weights)
    .ok { p with
      weights := if changed then weights else p.weights
      weightsChanged := p.weightsChanged || changed
      sums := if p.config.kind = .residualSum then List.replicate p.sums.length 0 else p.sums
      windows := p.windows + 1
      frozen := isExhausted p.config (p.windows + 1) }

end Preconditioner

end Cosimulation.Acceleration
