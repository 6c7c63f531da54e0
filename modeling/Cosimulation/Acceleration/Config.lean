import Cosimulation.Fault
import Cosimulation.Scalar

/-!
# Settings of an acceleration

`Config.validate` decides which settings describe a scheme; the checks run in a fixed order and the
first that fails is reported. A constant scheme neither needs data IDs nor looks at the settings of
the quasi-Newton schemes.
-/

namespace Cosimulation.Acceleration

variable {α : Type}

/-- How the rows of the least-squares system are weighted. -/
structure PreconditionerConfig (α : Type) where
  kind : PreconditionerKind := .constant
  /-- One divisor per data ID, or none at all. -/
  factors : List α := []
  /-- After how many windows the weights stop changing. -/
  maxNonConstWindows : Option Nat := none

/-- The settings of an acceleration. -/
structure Config (α : Type) where
  kind : SchemeKind := .iqnIls
  /-- The factor of the first iteration, and the only one of constant relaxation. -/
  initialRelaxation : α
  /-- Relax the first iteration of every window, not only of the first one. -/
  forceInitialRelaxation : Bool := false
  /-- The largest number of columns kept. -/
  maxIterationsUsed : Nat := 100
  /-- The number of finished windows whose columns are reused. -/
  timestepsReused : Nat := 10
  filter : FilterKind := .qr2
  singularityLimit : α
  /-- The primary data; every other block is secondary. -/
  dataIds : List DataId := []
  preconditioner : PreconditionerConfig α := {}

variable [Scalar α]

/-- The settings in force where nothing is said. -/
def Config.default : Config α := { initialRelaxation := 0.1, singularityLimit := 1e-2 }

/-- Whether a scalar is a relaxation factor: in the interval `(0, 1]`. -/
def isRelaxationFactor (ω : α) : Bool := 0 < ω && ω ≤ 1

/-- Checks the weighting of `n` data blocks. Factors are for the constant kind only, one for each
block, and positive. -/
def PreconditionerConfig.validate (c : PreconditionerConfig α) (n : Nat) :
    Except (ConfigurationFault α) Unit :=
  if c.factors.isEmpty then .ok ()
  else if c.kind ≠ .constant then .error .unusedFactors
  else if c.factors.length ≠ n then .error (.factorCount n c.factors.length)
  else match c.factors.find? fun f => !decide (0 < f) with
    | some f => .error (.factorNotPositive f)
    | none => .ok ()

/-- Checks the settings of a scheme. -/
def Config.validate (c : Config α) : Except (ConfigurationFault α) Unit :=
  if !isRelaxationFactor c.initialRelaxation then
    .error (.relaxationOutOfRange c.initialRelaxation)
  else if c.kind = .iqnIls ∧ c.filter ≠ .none ∧ ¬ 0 < c.singularityLimit then
    .error (.limitNotPositive c.singularityLimit)
  else if c.kind ≠ .constant ∧ c.dataIds = [] then .error (.noDataIds c.kind)
  else if ¬ c.dataIds.Nodup then .error (.repeatedDataIds c.dataIds)
  else if c.kind = .iqnIls then c.preconditioner.validate c.dataIds.length
  else .ok ()

/-- What the check asks of the factors. -/
theorem PreconditionerConfig.validate_ok_iff {c : PreconditionerConfig α} {n : Nat} :
    c.validate n = .ok () ↔
      c.factors = [] ∨ c.kind = .constant ∧ c.factors.length = n ∧ ∀ f ∈ c.factors, 0 < f := by
  unfold validate
  split
  next hempty => exact ⟨fun _ => .inl (List.isEmpty_iff.1 hempty), fun _ => rfl⟩
  next hsome =>
    rw [List.isEmpty_iff] at hsome
    rw [or_iff_right hsome]
    split
    next hkind => exact ⟨nofun, fun hc => absurd hc.1 hkind⟩
    next hkind =>
      split
      next hl => exact ⟨nofun, fun hc => absurd hc.2.1 hl⟩
      next hl =>
        split
        next f hf =>
          refine ⟨nofun, fun hc => ?_⟩
          have hneg := List.find?_some hf
          simp [hc.2.2 f (List.mem_of_find?_eq_some hf)] at hneg
        next hnone =>
          refine ⟨fun _ => ⟨Decidable.not_not.1 hkind, Decidable.not_not.1 hl, fun f hf => ?_⟩,
            fun _ => rfl⟩
          have hpos := List.find?_eq_none.1 hnone f hf
          simpa using hpos

/-- What the check asks of the settings. -/
theorem Config.validate_ok_iff {c : Config α} : c.validate = .ok () ↔
    isRelaxationFactor c.initialRelaxation = true ∧
      ¬ (c.kind = .iqnIls ∧ c.filter ≠ .none ∧ ¬ 0 < c.singularityLimit) ∧
      ¬ (c.kind ≠ .constant ∧ c.dataIds = []) ∧ c.dataIds.Nodup ∧
      (c.kind = .iqnIls → c.preconditioner.validate c.dataIds.length = .ok ()) := by
  unfold validate
  split
  next hfactor =>
    rw [Bool.not_eq_true'] at hfactor
    exact ⟨nofun, fun hc => nomatch hfactor.symm.trans hc.1⟩
  next hfactor =>
    rw [Bool.not_eq_true', Bool.not_eq_false] at hfactor
    split
    next hlimit => exact ⟨nofun, fun hc => absurd hlimit hc.2.1⟩
    next hlimit =>
      split
      next hempty => exact ⟨nofun, fun hc => absurd hempty hc.2.2.1⟩
      next hempty =>
        split
        next hrepeated => exact ⟨nofun, fun hc => absurd hc.2.2.2.1 hrepeated⟩
        next hrepeated =>
          have hnodup := Decidable.not_not.1 hrepeated
          split
          next hkind =>
            exact ⟨fun hv => ⟨hfactor, hlimit, hempty, hnodup, fun _ => hv⟩,
              fun hc => hc.2.2.2.2 hkind⟩
          next hkind =>
            exact ⟨fun _ => ⟨hfactor, hlimit, hempty, hnodup, fun hk => absurd hk hkind⟩,
              fun _ => rfl⟩

/-- Settings that pass name each block once. -/
theorem Config.nodup_of_validate {c : Config α} (h : c.validate = .ok ()) : c.dataIds.Nodup :=
  (Config.validate_ok_iff.1 h).2.2.2.1

end Cosimulation.Acceleration
