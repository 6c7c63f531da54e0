import Cosimulation.Proofs.QuasiNewton.Twins
import Cosimulation.Proofs.Scheme.Totality

/-!
# What can be seen of a scheme

`Coupled.watch` takes down what can be seen after each event: whether the call was answered, the
data as they are then, and the `Outcome` of the scheme, which is the factor of an Aitken scheme and
the columns, windows and coefficients of a quasi-Newton scheme.

Two schemes that look the same after each event, under some relation that every event keeps, look
the same all along (`watch_eq`). Quasi-Newton schemes side by side are such schemes
(`Beside.step`).
-/

namespace Cosimulation.Acceleration

/-- What a scheme shows of itself. -/
inductive Outcome (α : Type) where
  | constant
  | aitken (factor : α)
  | iqnIls (columns : Nat) (windows : Windows) (coefficients : Option (List α))

namespace Scheme

variable {α : Type}

def outcome : Scheme α → Outcome α
  | .constant _ => .constant
  | .aitken s => .aitken s.factor
  | .iqnIls s => .iqnIls s.columns s.windows s.coefficients

theorem build_constant [Scalar α] {c : Config α} (h : c.validate = .ok ())
    (hkind : c.kind = .constant) :
    Scheme.build c = .ok (.constant ⟨c.initialRelaxation, c.dataIds⟩) := by
  rw [build, h, assemble, hkind]
  show ((Constant.new _ _).map Scheme.constant).mapError _ = _
  rw [Constant.new, if_pos (Config.validate_ok_iff.1 h).1]
  rfl

theorem build_aitken [Scalar α] {c : Config α} (h : c.validate = .ok ())
    (hkind : c.kind = .aitken) : Scheme.build c =
      .ok (.aitken ⟨c.initialRelaxation, c.dataIds, c.initialRelaxation, 0, none⟩) := by
  rw [build, h, assemble, hkind]
  show ((Aitken.new _ _).map Scheme.aitken).mapError _ = _
  rw [Aitken.new, if_pos (Config.validate_ok_iff.1 h).1]
  rfl

theorem build_iqnIls [Scalar α] {c : Config α} (h : c.validate = .ok ())
    (hkind : c.kind = .iqnIls) : Scheme.build c = .ok (.iqnIls (.new c)) := by
  rw [build, h, assemble, hkind]
  rfl

end Scheme

/-- What can be seen after an event. -/
structure Sight (α : Type) where
  answered : Bool
  data : DataMap α
  outcome : Outcome α

namespace Coupled

section
variable {α : Type} [Scalar α]

variable {γ : Coupled α}

theorem step_start {s : Scheme α} (h : γ.scheme.start γ.data = .ok s) :
    γ.step .start = .ok (.ok (), { γ with scheme := s }) := by
  unfold step
  rw [h]

theorem step_start_error {fault : Fault α} (h : γ.scheme.start γ.data = .error fault) :
    γ.step .start = .ok (.error fault, γ) := by
  unfold step
  rw [h]

/-- A start leaves the data alone. -/
theorem step_start_data {answer : Except (Fault α) Unit} {γ' : Coupled α}
    (h : γ.step .start = .ok (answer, γ')) : γ'.data = γ.data := by
  cases hs : γ.scheme.start γ.data with
  | ok s =>
    obtain ⟨-, rfl⟩ := Prod.mk.inj (Except.ok.inj ((step_start hs).symm.trans h))
    rfl
  | error fault =>
    obtain ⟨-, rfl⟩ := Prod.mk.inj (Except.ok.inj ((step_start_error hs).symm.trans h))
    rfl

theorem step_perform {r : Reply (Scheme α) α} (h : γ.scheme.perform γ.data = .ok r) :
    γ.step .perform = .ok (r.answer, ⟨r.scheme, r.data⟩) := by
  unfold step
  rw [h]
  rfl

theorem step_converged {r : Reply (Scheme α) α} (h : γ.scheme.converged γ.data = .ok r) :
    γ.step .converged = .ok (r.answer, ⟨r.scheme, r.data⟩) := by
  unfold step
  rw [h]
  rfl

omit [Scalar α] in
/-- What can be seen of a scheme and its data. -/
def sight (γ : Coupled α) (answered : Bool) : Sight α := ⟨answered, γ.data, γ.scheme.outcome⟩

/-- What can be seen after each of several events. -/
def watch (γ : Coupled α) : List (Event α) → Except (Violation α) (List (Sight α))
  | [] => .ok []
  | e :: es => do
    let (answer, γ') ← γ.step e
    let sights ← γ'.watch es
    .ok (γ'.sight answer.isOk :: sights)

theorem watch_cons {e : Event α} {es : List (Event α)} {answer : Except (Fault α) Unit}
    {γ₁ : Coupled α} {sights : List (Sight α)} (hs : γ.step e = .ok (answer, γ₁))
    (hw : γ₁.watch es = .ok sights) :
    γ.watch (e :: es) = .ok (γ₁.sight answer.isOk :: sights) := by
  rw [watch, hs, ok_bind]
  dsimp only
  rw [hw]
  rfl

/-- Both have an answer to an event, look the same afterwards, and are related then. -/
def StepsWith (R : Coupled α → Coupled α → Prop) (e : Event α) (γ γ' : Coupled α) : Prop :=
  ∃ answer answer' γ₁ γ₁', γ.step e = .ok (answer, γ₁) ∧ γ'.step e = .ok (answer', γ₁') ∧
    γ₁'.sight answer'.isOk = γ₁.sight answer.isOk ∧ R γ₁ γ₁'

/-- Where related schemes look the same, only the answers have to be compared. -/
theorem stepsWith_of_answers {R : Coupled α → Coupled α → Prop}
    (hsight : ∀ {γ γ'}, R γ γ' → ∀ answered, γ'.sight answered = γ.sight answered) {e : Event α}
    {γ γ' γ₁ γ₁' : Coupled α} {answer answer' : Except (Fault α) Unit}
    (hs : γ.step e = .ok (answer, γ₁)) (hs' : γ'.step e = .ok (answer', γ₁'))
    (hans : answer'.isOk = answer.isOk) (h : R γ₁ γ₁') : StepsWith R e γ γ' :=
  ⟨answer, answer', γ₁, γ₁', hs, hs', by rw [hans, hsight h], h⟩

/-- Schemes that look the same after each event look the same all along. The relation may depend on
the events that are still to come. -/
theorem watch_eq {R : List (Event α) → Coupled α → Coupled α → Prop}
    (hstep : ∀ {e es γ γ'}, R (e :: es) γ γ' → StepsWith (R es) e γ γ') :
    ∀ (events : List (Event α)) {γ γ' : Coupled α}, R events γ γ' →
      ∃ sights, γ.watch events = .ok sights ∧ γ'.watch events = .ok sights := by
  intro events
  induction events with
  | nil => exact fun _ => ⟨[], rfl, rfl⟩
  | cons e es ih =>
    intro γ γ' h
    obtain ⟨answer, answer', γ₁, γ₁', hs, hs', hsame, h₁⟩ := hstep h
    obtain ⟨sights, hw, hw'⟩ := ih h₁
    refine ⟨γ₁.sight answer.isOk :: sights, watch_cons hs hw, ?_⟩
    rw [← hsame]
    exact watch_cons hs' hw'

end

/-! ## Quasi-Newton schemes side by side -/

/-- The data are the same, and the schemes are those of twin sessions. -/
inductive Beside {c c' : Config ℝ} (W : Weighting c c') : Coupled ℝ → Coupled ℝ → Prop
  | mk {σ σ' : Session ℝ} (data : DataMap ℝ) (twins : σ.Twins W σ') :
      Beside W ⟨.iqnIls σ.scheme, data⟩ ⟨.iqnIls σ'.scheme, data⟩

variable {c c' : Config ℝ} {W : Weighting c c'}

theorem Beside.sight {γ γ' : Coupled ℝ} (h : Beside W γ γ') (answered : Bool) :
    γ'.sight answered = γ.sight answered := by
  obtain ⟨data, twins⟩ := h
  rw [Coupled.sight, Coupled.sight, Scheme.outcome, Scheme.outcome, twins.history.1,
    twins.history.2, twins.coefficients]

/-- A call on twin sessions, from what their replies have in common. -/
theorem Beside.of_replies {χ χ' : Chronicle ℝ} {r r' : Reply (QuasiNewton ℝ) ℝ}
    (hdata : r'.data = r.data) (ht : Session.Twins W ⟨r.scheme, χ⟩ ⟨r'.scheme, χ'⟩) :
    Beside W ⟨.iqnIls r.scheme, r.data⟩ ⟨.iqnIls r'.scheme, r'.data⟩ := by
  rw [hdata]
  exact .mk r.data ht

theorem Beside.step (hW : W.Kept) (hc : c.Akin c') {γ γ' : Coupled ℝ} (h : Beside W γ γ')
    (e : Event ℝ) : StepsWith (Beside W) e γ γ' := by
  obtain @⟨σ, σ', data, twins⟩ := h
  cases e with
  | start =>
    rcases twins.start hW hc data with ⟨s, s', hs, hs', ht⟩ | ⟨f, f', hs, hs'⟩
    · exact stepsWith_of_answers Beside.sight (step_start (map_eq_ok.2 ⟨s, hs, rfl⟩))
        (step_start (map_eq_ok.2 ⟨s', hs', rfl⟩)) rfl (.mk data ht)
    · exact stepsWith_of_answers Beside.sight
        (step_start_error (congrArg (Except.map Scheme.iqnIls) hs))
        (step_start_error (congrArg (Except.map Scheme.iqnIls) hs')) rfl (.mk data twins)
  | perform =>
    obtain ⟨r, r', hr, hr', hans, hdata, ht⟩ := twins.perform hW hc data
    exact stepsWith_of_answers Beside.sight (step_perform (map_eq_ok.2 ⟨r, hr, rfl⟩))
      (step_perform (map_eq_ok.2 ⟨r', hr', rfl⟩)) hans (.of_replies hdata ht)
  | converged =>
    obtain ⟨r, r', hr, hr', hans, hdata, ht⟩ := twins.converged data
    exact stepsWith_of_answers Beside.sight (step_converged (map_eq_ok.2 ⟨r, hr, rfl⟩))
      (step_converged (map_eq_ok.2 ⟨r', hr', rfl⟩)) hans (.of_replies hdata ht)
  | reset => exact stepsWith_of_answers Beside.sight rfl rfl rfl (.mk data (twins.reset hW))
  | edit change => exact stepsWith_of_answers Beside.sight rfl rfl rfl (.mk (change data) twins)

/-- New quasi-Newton schemes whose weightings agree look the same all along. -/
theorem watch_new (hW : W.Kept) (hc : c.Akin c') (data : DataMap ℝ) (events : List (Event ℝ)) :
    ∃ sights, watch ⟨.iqnIls (.new c), data⟩ events = .ok sights ∧
      watch ⟨.iqnIls (.new c'), data⟩ events = .ok sights :=
  watch_eq (fun h => h.step hW hc _) events (R := fun _ => Beside W)
    (.mk data (Session.new_twins hc))

end Coupled

end Cosimulation.Acceleration
