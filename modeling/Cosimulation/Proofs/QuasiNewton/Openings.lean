import Cosimulation.Proofs.QuasiNewton.Retention

/-!
# The first call of a window

Whether a call has to relax depends on where it stands: the first call of the first window always
does, and the first call of any window does where the settings say so. A scheme keeps two flags for
this. Here the place of a call is told from the calls before it alone: each leaves a `Mark` where it
renewed the scheme, ended a window, or was answered, and a call is the first of its window if the
last mark before it is not that of an answer, and the first of the first window if it is that of a
renewal.

`relaxesOnly_iff` says that flags and marks agree when a call has adapted to its data, after every
run: the invariant is `Session.Placed`, kept by each call (`call_placed`). A renewal may lie in the
call itself, if a block has a new length, and then it counts even if the call fails.
-/

namespace Cosimulation.Acceleration

variable {α : Type}

/-- What places the calls after it. -/
inductive Mark where
  /-- A start, a reset or a remeshing. -/
  | renewed
  /-- The end of a window. -/
  | turned
  /-- A call that was answered. -/
  | visited
  deriving DecidableEq

/-- After these marks, a call is the first of the first window. -/
def FirstOfAll (marks : List Mark) : Prop := marks.getLast? = some .renewed

/-- After these marks, a call is the first of its window. -/
def FirstOfWindow (marks : List Mark) : Prop :=
  marks.getLast? = some .renewed ∨ marks.getLast? = some .turned

namespace Chronicle

/-- What the data of a call leave when they come in. -/
def arrival (χ : Chronicle α) (d : DataMap α) : List Mark :=
  if χ.started && χ.isRemeshed d then [.renewed] else []

/-- What a call leaves. -/
def marks (χ : Chronicle α) : Call α → (answered : Bool) → List Mark
  | .start _, true => [.renewed]
  | .perform d, answered => χ.arrival d ++ if answered then [.visited] else []
  | .converged _, true => [.turned]
  | .reset, _ => [.renewed]
  | _, false => []

end Chronicle

namespace Session

/-- The flags of the scheme say what the marks say. -/
structure Placed (σ : Session α) (marks : List Mark) : Prop where
  iteration : σ.scheme.firstIteration = true ↔ marks.getLast? ≠ some .visited
  renewed : marks.getLast? = some .renewed → σ.scheme.firstWindow = true
  turned : marks.getLast? = some .turned → σ.scheme.firstWindow = false
  begun : σ.chronicle.started = true → marks ≠ []

variable {σ : Session α} {ms : List Mark}

theorem new_placed (config : Config α) : (new config).Placed [] := by
  refine ⟨iff_of_true rfl ?_, fun h => ?_, fun h => ?_, fun h => absurd h Bool.false_ne_true⟩
  · exact fun h => nomatch h
  all_goals cases h

/-! ## What each kind of mark does to the flags -/

theorem placed_renewed {s : QuasiNewton α} {χ : Chronicle α} (hfirst : s.firstIteration = true)
    (hwindow : s.firstWindow = true) : Placed ⟨s, χ⟩ (ms ++ [.renewed]) := by
  refine ⟨iff_of_true hfirst ?_, fun _ => hwindow, fun h => ?_, fun _ => by simp⟩
  · rw [List.getLast?_concat]
    exact fun h => nomatch h
  · rw [List.getLast?_concat] at h
    cases h

theorem placed_turned {s : QuasiNewton α} {χ : Chronicle α} (hfirst : s.firstIteration = true)
    (hwindow : s.firstWindow = false) : Placed ⟨s, χ⟩ (ms ++ [.turned]) := by
  refine ⟨iff_of_true hfirst ?_, fun h => ?_, fun _ => hwindow, fun _ => by simp⟩
  · rw [List.getLast?_concat]
    exact fun h => nomatch h
  · rw [List.getLast?_concat] at h
    cases h

theorem placed_visited {s : QuasiNewton α} {χ : Chronicle α} (hfirst : s.firstIteration = false) :
    Placed ⟨s, χ⟩ (ms ++ [.visited]) := by
  refine ⟨iff_of_false (fun h => Bool.false_ne_true (hfirst.symm.trans h)) ?_, fun h => ?_,
    fun h => ?_, fun _ => by simp⟩
  · rw [List.getLast?_concat]
    exact fun h => h rfl
  all_goals
    rw [List.getLast?_concat] at h
    cases h

/-! ## The calls that relax -/

theorem Placed.relaxesOnly_iff (hp : σ.Placed ms) (hst : σ.chronicle.started = true) :
    σ.scheme.relaxesOnly = true ↔ FirstOfAll ms ∨
      (FirstOfWindow ms ∧ σ.scheme.config.forceInitialRelaxation = true) := by
  obtain ⟨last, hlast⟩ := Option.ne_none_iff_exists'.1
    fun h => hp.begun hst (List.getLast?_eq_none_iff.1 h)
  have hiteration := hp.iteration
  rw [QuasiNewton.relaxesOnly, Bool.and_eq_true, Bool.or_eq_true, hiteration, FirstOfAll,
    FirstOfWindow, hlast]
  cases last with
  | renewed => simp [hp.renewed hlast]
  | turned => simp [hp.turned hlast]
  | visited => simp

/-! ## Calls -/

variable [Scalar α]

/-- What several calls leave, one after the other. -/
def marks (σ : Session α) : List (Call α) → List Mark
  | [] => []
  | c :: cs =>
    match σ.scheme.call c with
    | .ok (answer, scheme) =>
      σ.chronicle.marks c answer.isOk ++ marks ⟨scheme, σ.chronicle.note c answer.isOk⟩ cs
    | .error _ => []

/-- Data with all blocks come in. -/
theorem adapt_placed (hp : σ.Placed ms) (hf : σ.Follows) (hst : σ.chronicle.started = true)
    {d : DataMap α} (hd : ∀ id ∈ σ.chronicle.trackedIds, d.contains id = true) :
    Placed ⟨σ.scheme.adapt d, σ.chronicle.meet d⟩ (ms ++ σ.chronicle.arrival d) := by
  -- scheme and chronicle compare the same lengths
  rw [QuasiNewton.adapt, Chronicle.meet, Chronicle.arrival, hf.isRemeshed_eq hst hd, hst,
    Bool.true_and]
  split
  next => exact placed_renewed rfl rfl
  next =>
    rw [List.append_nil]
    exact hp

theorem perform_placed (hp : σ.Placed ms) (hf : σ.Follows) {d : DataMap α}
    {reply : Reply (QuasiNewton α) α} (h : σ.scheme.perform d = .ok reply) :
    Placed ⟨reply.scheme, σ.chronicle.note (.perform d) reply.answer.isOk⟩
      (ms ++ σ.chronicle.marks (.perform d) reply.answer.isOk) := by
  unfold QuasiNewton.perform at h
  obtain ⟨answer, s', ha⟩ : ∃ answer s', σ.scheme.accept d = (answer, s') := ⟨_, _, rfl⟩
  rw [ha] at h
  rcases QuasiNewton.accept_cases ha with ⟨rfl, ⟨fault, rfl⟩, hnot⟩ | ⟨rfl, ⟨hst, hall⟩, -⟩
  · -- refused outright, and not taken for a remeshing either
    obtain rfl := Except.ok.inj h
    show Placed ⟨σ.scheme, σ.chronicle.meet d⟩ (ms ++ (σ.chronicle.arrival d ++ []))
    rw [hf.meet_eq hnot, Chronicle.arrival, if_neg (hf.not_remeshed hnot), List.append_nil,
      List.append_nil]
    exact hp
  · rw [hf.started] at hst
    rw [hf.trackedIds] at hall
    cases answer with
    | error fault =>
      -- refused after the history was dropped: the renewal counts all the same
      obtain rfl := Except.ok.inj h
      show Placed _ (ms ++ (σ.chronicle.arrival d ++ []))
      rw [List.append_nil]
      exact adapt_placed hp hf hst hall
    | ok pair =>
      obtain ⟨⟨s₁, d'⟩, hs, h⟩ := bind_ok h
      obtain rfl := Except.ok.inj h
      obtain ⟨s₂, coefficients, -, -, -, rfl⟩ := QuasiNewton.step_eq hs
      show Placed _ (ms ++ (σ.chronicle.arrival d ++ [.visited]))
      rw [← List.append_assoc]
      exact placed_visited rfl

theorem call_placed {c : Call α} {answer : Except (Fault α) Unit} {s' : QuasiNewton α}
    (hp : σ.Placed ms) (hf : σ.Follows) (hc : σ.scheme.call c = .ok (answer, s')) :
    Placed ⟨s', σ.chronicle.note c answer.isOk⟩ (ms ++ σ.chronicle.marks c answer.isOk) := by
  cases c with
  | start d =>
    rw [QuasiNewton.call] at hc
    split at hc
    next s₁ hs =>
      obtain ⟨rfl, rfl⟩ := Prod.mk.inj (Except.ok.inj hc)
      obtain ⟨-, rfl⟩ := QuasiNewton.start_eq hs
      exact placed_renewed rfl rfl
    next fault hs =>
      obtain ⟨rfl, rfl⟩ := Prod.mk.inj (Except.ok.inj hc)
      show Placed σ (ms ++ [])
      rwa [List.append_nil]
  | perform d =>
    obtain ⟨reply, hperform, hc⟩ := bind_ok hc
    obtain ⟨rfl, rfl⟩ := Prod.mk.inj (Except.ok.inj hc)
    exact perform_placed hp hf hperform
  | converged d =>
    obtain ⟨reply, hconverged, hc⟩ := bind_ok hc
    obtain ⟨rfl, rfl⟩ := Prod.mk.inj (Except.ok.inj hc)
    rcases QuasiNewton.converged_eq hconverged with ⟨-, hno, hs⟩ | ⟨-, hans, s₁, -, hs⟩
    · rw [hno, hs]
      show Placed σ (ms ++ [])
      rwa [List.append_nil]
    · rw [hans, hs]
      exact placed_turned rfl rfl
  | reset =>
    obtain ⟨rfl, rfl⟩ := Prod.mk.inj (Except.ok.inj hc)
    exact placed_renewed rfl rfl

theorem call_of_scheme {c : Call α} {answer : Except (Fault α) Unit} {s' : QuasiNewton α}
    (hc : σ.scheme.call c = .ok (answer, s')) :
    σ.call c = .ok ⟨s', σ.chronicle.note c answer.isOk⟩ := by
  rw [Session.call, hc]
  rfl

theorem marks_singleton {c : Call α} {answer : Except (Fault α) Unit} {s' : QuasiNewton α}
    (hc : σ.scheme.call c = .ok (answer, s')) :
    σ.marks [c] = σ.chronicle.marks c answer.isOk := by
  rw [marks, hc]
  exact List.append_nil _

/-- What each call keeps of a session and the marks so far is kept by every run. -/
theorem run_marks {P : Session α → List Mark → Prop}
    (hcall : ∀ {c : Call α} {σ : Session α} {ms : List Mark} {answer : Except (Fault α) Unit}
      {s' : QuasiNewton α}, P σ ms → σ.scheme.call c = .ok (answer, s') →
        P ⟨s', σ.chronicle.note c answer.isOk⟩ (ms ++ σ.chronicle.marks c answer.isOk)) :
    ∀ {calls : List (Call α)} {σ σ' : Session α} {ms : List Mark},
      P σ ms → σ.run calls = .ok σ' → P σ' (ms ++ σ.marks calls) := by
  intro calls
  induction calls with
  | nil =>
    intro σ σ' ms h hr
    obtain rfl := Except.ok.inj hr
    rw [Session.marks, List.append_nil]
    exact h
  | cons c cs ih =>
    intro σ σ' ms h hr
    obtain ⟨σ₁, hc, hr⟩ := bind_ok hr
    obtain ⟨⟨answer, s'⟩, hcall', hc⟩ := bind_ok hc
    obtain rfl := Except.ok.inj hc
    have hrest := ih (hcall h hcall') hr
    rwa [List.append_assoc, show σ.chronicle.marks c answer.isOk ++ _ = σ.marks (c :: cs) by
      rw [Session.marks, hcall']] at hrest

theorem run_placed {W : Weighing α} {calls : List (Call α)} {σ σ' : Session α} {ms : List Mark}
    (hp : σ.Placed ms) (hs : σ.Sound W) (hr : σ.run calls = .ok σ') :
    σ'.Placed (ms ++ σ.marks calls) := by
  refine (run_marks (P := fun τ ms => τ.Sound W ∧ τ.Placed ms) ?_ ⟨hs, hp⟩ hr).2
  rintro c τ ms answer s' ⟨hs, hp⟩ hcall
  exact ⟨call_sound hs (call_of_scheme hcall), call_placed hp hs.follows hcall⟩

end Session

end Cosimulation.Acceleration
