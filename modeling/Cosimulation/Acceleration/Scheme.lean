import Cosimulation.Acceleration.QuasiNewton

/-!
# Schemes

The closed set of schemes behind one interface. `Scheme.build` checks the settings first;
`Scheme.assemble` takes them as they are, so that only the contracts of the schemes themselves stand
between wrong settings and a scheme.
-/

namespace Cosimulation.Acceleration

/-- A scheme of one of the three kinds. -/
inductive Scheme (α : Type) where
  | constant (scheme : Constant α)
  | aitken (scheme : Aitken α)
  | iqnIls (scheme : QuasiNewton α)

namespace Scheme

variable {α : Type}

/-- The kind of a scheme. -/
def kind : Scheme α → SchemeKind
  | .constant _ => .constant
  | .aitken _ => .aitken
  | .iqnIls _ => .iqnIls

/-- The data IDs a scheme is configured with. -/
def dataIds : Scheme α → List DataId
  | .constant s => s.dataIds
  | .aitken s => s.dataIds
  | .iqnIls s => s.config.dataIds

variable [Scalar α]

/-- The scheme that the settings name. -/
def assemble (c : Config α) : Except (Violation α) (Scheme α) :=
  match c.kind with
  | .constant => (Constant.new c.initialRelaxation c.dataIds).map .constant
  | .aitken => (Aitken.new c.initialRelaxation c.dataIds).map .aitken
  | .iqnIls => .ok (.iqnIls (.new c))

/-- The scheme that valid settings name. -/
def build (c : Config α) : Except (Failure α) (Scheme α) :=
  match c.validate with
  | .error fault => .error (.fault (.invalidConfiguration fault))
  | .ok () => (assemble c).mapError .violation

/-- Prepares a scheme for the blocks of a data map. -/
def start (s : Scheme α) (data : DataMap α) : Except (Fault α) (Scheme α) :=
  match s with
  | .constant s => (s.start data).map .constant
  | .aitken s => (s.start data).map .aitken
  | .iqnIls s => (s.start data).map .iqnIls

/-- One call of a coupling iteration. -/
def perform (s : Scheme α) (data : DataMap α) :
    Except (Violation α) (Reply (Scheme α) α) :=
  match s with
  | .constant s => (s.perform data).map (Reply.map .constant)
  | .aitken s => (s.perform data).map (Reply.map .aitken)
  | .iqnIls s => (s.perform data).map (Reply.map .iqnIls)

/-- The end of a time window. -/
def converged (s : Scheme α) (data : DataMap α) :
    Except (Violation α) (Reply (Scheme α) α) :=
  match s with
  | .constant s => .ok ⟨.ok (), .constant s, data⟩
  | .aitken s => .ok ⟨.ok (), .aitken s.converged, data⟩
  | .iqnIls s => (s.converged data).map (Reply.map .iqnIls)

/-- Forgets what the scheme has learnt. -/
def reset : Scheme α → Scheme α
  | .constant s => .constant s
  | .aitken s => .aitken s.reset
  | .iqnIls s => .iqnIls s.reset

/-- Checks the bookkeeping of the schemes that keep a history. -/
def validate : Scheme α → Except (ConfigurationFault α) Unit
  | .iqnIls s => s.validate
  | _ => .ok ()

end Scheme

end Cosimulation.Acceleration
