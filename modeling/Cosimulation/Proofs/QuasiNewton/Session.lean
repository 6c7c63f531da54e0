import Cosimulation.Acceleration.QuasiNewton
import Cosimulation.Proofs.Data.Blocks

/-!
# Sessions

A session is a scheme together with a record of what it was asked to do. The record (`Chronicle`) is
kept from the calls and their answers alone; it knows nothing of the state of the scheme. It counts
the windows, a window beginning at each start, at the end of each window, at each reset and at each
remeshing, and it lists the data of the calls that were answered (`Visit`).

Whatever a scheme is said to have learnt is said in terms of its chronicle: visit `i` moved the
stacked primary values by `iterateMove i` and the residual by `residualMove i` since visit `i - 1`,
and `Continues i` says that these two calls belong to one window. A remeshing is noted even if the
call that brought it fails.
-/

namespace Cosimulation.Acceleration

variable {α : Type}

/-- What can be asked of a scheme, with the data that are handed over. -/
inductive Call (α : Type) where
  | start (data : DataMap α)
  | perform (data : DataMap α)
  | converged (data : DataMap α)
  | reset

/-- A call that was answered: the window it belongs to, and the data it was given. -/
structure Visit (α : Type) where
  window : Nat
  data : DataMap α

/-! ## The record -/

/-- A record of the calls on a scheme. -/
structure Chronicle (α : Type) where
  config : Config α
  /-- All other blocks of the data of the last start. -/
  secondaryIds : List DataId
  started : Bool
  /-- The data whose block lengths count: those of the last start or remeshing. -/
  fitted : DataMap α
  /-- How many windows began. -/
  window : Nat
  visits : List (Visit α)

namespace Chronicle

/-- Nothing happened. -/
def empty (config : Config α) : Chronicle α := ⟨config, [], false, .empty, 0, []⟩

/-- The primary blocks. -/
def dataIds (χ : Chronicle α) : List DataId := χ.config.dataIds

/-- The blocks of the scheme. -/
def trackedIds (χ : Chronicle α) : List DataId := χ.dataIds ++ χ.secondaryIds

/-- Whether all blocks of the scheme are there, and one of them has changed its length. -/
def isRemeshed (χ : Chronicle α) (data : DataMap α) : Bool :=
  χ.trackedIds.all data.contains && χ.trackedIds.any fun id =>
    (data.valuesOf id).length != (χ.fitted.valuesOf id).length

/-- A window begins. -/
def turn (χ : Chronicle α) : Chronicle α := { χ with window := χ.window + 1 }

/-- The data of a call come in. -/
def meet (χ : Chronicle α) (data : DataMap α) : Chronicle α :=
  if χ.started && χ.isRemeshed data then { χ.turn with fitted := data } else χ

/-- A call was answered. -/
def visit (χ : Chronicle α) (data : DataMap α) : Chronicle α :=
  { χ with visits := χ.visits ++ [⟨χ.window, data⟩] }

/-- Takes down a call and whether it was answered. -/
def note (χ : Chronicle α) : Call α → (answered : Bool) → Chronicle α
  | .start data, true =>
    { χ.turn with
      secondaryIds := data.keys.filter fun id => !χ.dataIds.contains id
      started := true
      fitted := data }
  | .perform data, true => (χ.meet data).visit data
  | .perform data, false => χ.meet data
  | .converged _, true => χ.turn
  | .reset, _ => χ.turn
  | _, false => χ

/-- The data of a visit; none for one that was not. -/
def data (χ : Chronicle α) (i : Nat) : DataMap α := (χ.visits[i]?.map Visit.data).getD .empty

/-- The window of a visit. -/
def windowOf (χ : Chronicle α) (i : Nat) : Nat := (χ.visits[i]?.map Visit.window).getD 0

/-- The stacked primary values of a visit. -/
def iterate (χ : Chronicle α) (i : Nat) : Vec α := (χ.data i).stacked χ.dataIds

/-- The values of a block in a visit. -/
def values (χ : Chronicle α) (id : DataId) (i : Nat) : Vec α := (χ.data i).valuesOf id

/-- The length that a block has to have. -/
def size (χ : Chronicle α) (id : DataId) : Nat := (χ.fitted.valuesOf id).length

/-- The lengths that the primary blocks have to have. -/
def sizes (χ : Chronicle α) : List Nat := χ.dataIds.map χ.size

/-- A visit that is not the first of its window. Each block has one length in it and in the visit
before. -/
structure Continues (χ : Chronicle α) (i : Nat) : Prop where
  pos : 0 < i
  visited : i < χ.visits.length
  window : χ.windowOf i = χ.windowOf (i - 1)
  lengths : ∀ id ∈ χ.trackedIds, ∃ n, (χ.data i).lengths id = some (n, n) ∧
    (χ.data (i - 1)).lengths id = some (n, n)

/-- The data have all blocks of the scheme, each in two iterates of the length it has to have. -/
def Fitting (χ : Chronicle α) (d : DataMap α) : Prop :=
  ∀ id ∈ χ.trackedIds, d.Paired id ∧ (d.valuesOf id).length = χ.size id

theorem Fitting.lengths_eq {χ : Chronicle α} {d : DataMap α} (h : χ.Fitting d) {id : DataId}
    (hid : id ∈ χ.trackedIds) : d.lengths id = some (χ.size id, χ.size id) := by
  obtain ⟨hpaired, hlen⟩ := h id hid
  rw [hpaired.lengths_eq, hlen]

@[simp]
theorem config_meet (χ : Chronicle α) (d : DataMap α) : (χ.meet d).config = χ.config := by
  unfold meet
  split <;> rfl

@[simp]
theorem started_meet (χ : Chronicle α) (d : DataMap α) : (χ.meet d).started = χ.started := by
  unfold meet
  split <;> rfl

/-- No call changes the settings. -/
theorem config_note (χ : Chronicle α) (c : Call α) (answered : Bool) :
    (χ.note c answered).config = χ.config := by
  cases c <;> cases answered <;> first | rfl | exact χ.config_meet _

@[simp]
theorem trackedIds_meet (χ : Chronicle α) (d : DataMap α) :
    (χ.meet d).trackedIds = χ.trackedIds := by
  unfold meet
  split <;> rfl

/-- Where a block has changed its length, the lengths that count have changed with it. -/
theorem fitting_meet {χ : Chronicle α} (hst : χ.started = true) {d : DataMap α}
    (hd : ∀ id ∈ χ.trackedIds, d.Paired id) : (χ.meet d).Fitting d := by
  unfold meet
  split
  next => exact fun id hid => ⟨hd id hid, rfl⟩
  next hno =>
    -- no block has changed its length
    intro id hid
    refine ⟨hd id hid, ?_⟩
    rw [hst, Bool.true_and, isRemeshed, Bool.and_eq_true, not_and, List.any_eq_true,
      not_exists] at hno
    have hall : (χ.trackedIds.all d.contains) = true := by
      refine List.all_eq_true.2 fun j hj => ?_
      obtain ⟨b, hb, -⟩ := hd j hj
      exact Option.isSome_iff_exists.2 ⟨b, hb⟩
    have hne := hno hall id
    rw [not_and, bne_iff_ne] at hne
    exact Decidable.not_not.1 (hne hid)

/-! A visit does not change what is said of those before it. -/

section
variable {χ : Chronicle α} {d : DataMap α}

theorem data_visit {i : Nat} (h : i < χ.visits.length) : (χ.visit d).data i = χ.data i := by
  rw [data, data, visit, List.getElem?_append_left h]

theorem windowOf_visit {i : Nat} (h : i < χ.visits.length) :
    (χ.visit d).windowOf i = χ.windowOf i := by
  rw [windowOf, windowOf, visit, List.getElem?_append_left h]

@[simp]
theorem data_visit_length : (χ.visit d).data χ.visits.length = d := by
  rw [data, visit, List.getElem?_concat_length]
  rfl

@[simp]
theorem windowOf_visit_length : (χ.visit d).windowOf χ.visits.length = χ.window := by
  rw [windowOf, visit, List.getElem?_concat_length]
  rfl

@[simp]
theorem length_visits_visit : (χ.visit d).visits.length = χ.visits.length + 1 := List.length_append

theorem iterate_visit {i : Nat} (h : i < χ.visits.length) :
    (χ.visit d).iterate i = χ.iterate i := congrArg (·.stacked χ.dataIds) (data_visit h)

@[simp]
theorem iterate_visit_length :
    (χ.visit d).iterate χ.visits.length = d.stacked χ.dataIds := by
  rw [iterate, data_visit_length]
  rfl

theorem values_visit {i : Nat} (h : i < χ.visits.length) (id : DataId) :
    (χ.visit d).values id i = χ.values id i := congrArg (·.valuesOf id) (data_visit h)

end

section
variable [Scalar α]

/-- The residual of a visit: what the stacked primary values differ by from the previous ones. -/
def residual (χ : Chronicle α) (i : Nat) : Vec α :=
  (χ.iterate i).sub ((χ.data i).stackedOld χ.dataIds)

/-- How the stacked primary values moved since the visit before. -/
def iterateMove (χ : Chronicle α) (i : Nat) : Vec α := (χ.iterate i).sub (χ.iterate (i - 1))

/-- How the residual moved since the visit before. -/
def residualMove (χ : Chronicle α) (i : Nat) : Vec α := (χ.residual i).sub (χ.residual (i - 1))

/-- How a block moved since the visit before. -/
def secondaryMove (χ : Chronicle α) (id : DataId) (i : Nat) : Vec α :=
  (χ.values id i).sub (χ.values id (i - 1))

theorem residual_visit {χ : Chronicle α} {d : DataMap α} {i : Nat} (h : i < χ.visits.length) :
    (χ.visit d).residual i = χ.residual i := by
  rw [residual, residual, iterate_visit h, data_visit h]
  rfl

@[simp]
theorem residual_visit_length {χ : Chronicle α} {d : DataMap α} :
    (χ.visit d).residual χ.visits.length = (d.stacked χ.dataIds).sub (d.stackedOld χ.dataIds) := by
  rw [residual, iterate_visit_length, data_visit_length]
  rfl

/-! The vectors of two successive visits have one length. -/

section
variable {χ : Chronicle α} {i : Nat}

omit [Scalar α] in
theorem Continues.length_iterate (h : χ.Continues i) :
    (χ.iterate i).length = (χ.iterate (i - 1)).length := by
  rw [iterate, iterate, DataMap.length_stacked, DataMap.length_stacked]
  refine congrArg List.sum (List.map_congr_left fun id hid => ?_)
  obtain ⟨n, hn, hn'⟩ := h.lengths id (List.mem_append_left _ hid)
  rw [DataMap.length_valuesOf, DataMap.length_valuesOf, hn, hn']

omit [Scalar α] in
/-- The primary blocks of a visit that continues, and of the one before it, are paired. -/
theorem Continues.paired (h : χ.Continues i) : (∀ id ∈ χ.dataIds, (χ.data i).Paired id) ∧
    ∀ id ∈ χ.dataIds, (χ.data (i - 1)).Paired id := by
  refine ⟨fun id hid => ?_, fun id hid => ?_⟩ <;>
    obtain ⟨n, hn, hn'⟩ := h.lengths id (List.mem_append_left _ hid)
  · exact DataMap.paired_iff.2 ⟨n, hn⟩
  · exact DataMap.paired_iff.2 ⟨n, hn'⟩

theorem length_residual {j : Nat} (h : ∀ id ∈ χ.dataIds, (χ.data j).Paired id) :
    (χ.residual j).length = (χ.iterate j).length := by
  have hlen : (χ.iterate j).length = ((χ.data j).stackedOld χ.dataIds).length :=
    (DataMap.length_stackedOld h).symm
  exact (Vec.length_sub hlen).trans hlen.symm

theorem Continues.length_residual_prev (h : χ.Continues i) :
    (χ.residual (i - 1)).length = (χ.residual i).length := by
  rw [length_residual h.paired.1, length_residual h.paired.2, h.length_iterate]

theorem Continues.length_residualMove (h : χ.Continues i) :
    (χ.residualMove i).length = (χ.residual i).length :=
  (Vec.length_sub h.length_residual_prev.symm).trans h.length_residual_prev

end

end

end Chronicle

/-! ## The run -/

/-- A scheme and the record of the calls on it. -/
structure Session (α : Type) where
  scheme : QuasiNewton α
  chronicle : Chronicle α

/-- The settings, and nothing done yet. -/
def Session.new (config : Config α) : Session α := ⟨.new config, .empty config⟩

variable [Scalar α]

/-- One call on a scheme: the answer, and the scheme that it leaves. -/
def QuasiNewton.call (s : QuasiNewton α) :
    Call α → Except (Violation α) (Except (Fault α) Unit × QuasiNewton α)
  | .start data =>
    match s.start data with
    | .ok s' => .ok (.ok (), s')
    | .error fault => .ok (.error fault, s)
  | .perform data => do
    let reply ← s.perform data
    .ok (reply.answer, reply.scheme)
  | .converged data => do
    let reply ← s.converged data
    .ok (reply.answer, reply.scheme)
  | .reset => .ok (.ok (), s.reset)

namespace Session

/-- One call, taken down. -/
def call (σ : Session α) (c : Call α) : Except (Violation α) (Session α) := do
  let (answer, scheme) ← σ.scheme.call c
  .ok ⟨scheme, σ.chronicle.note c answer.isOk⟩

/-- One call after the other. -/
def run (σ : Session α) : List (Call α) → Except (Violation α) (Session α)
  | [] => .ok σ
  | c :: cs => do
    let σ' ← σ.call c
    σ'.run cs

/-- What a call that does not break off does. -/
inductive Served (σ : Session α) : Call α → Session α → Prop
  | started {d : DataMap α} {s : QuasiNewton α} (h : σ.scheme.start d = .ok s) :
    Served σ (.start d) ⟨s, σ.chronicle.note (.start d) true⟩
  | refused {d : DataMap α} {fault : Fault α} (h : σ.scheme.start d = .error fault) :
    Served σ (.start d) σ
  | performed {d : DataMap α} {reply : Reply (QuasiNewton α) α}
    (h : σ.scheme.perform d = .ok reply) :
    Served σ (.perform d) ⟨reply.scheme, σ.chronicle.note (.perform d) reply.answer.isOk⟩
  | converged {d : DataMap α} {reply : Reply (QuasiNewton α) α}
    (h : σ.scheme.converged d = .ok reply) :
    Served σ (.converged d) ⟨reply.scheme, σ.chronicle.note (.converged d) reply.answer.isOk⟩
  | reset : Served σ .reset ⟨σ.scheme.reset, σ.chronicle.note .reset true⟩

theorem served {σ σ' : Session α} {c : Call α} (hc : σ.call c = .ok σ') : Served σ c σ' := by
  obtain ⟨⟨answer, s'⟩, hcall, hc⟩ := bind_ok hc
  obtain rfl := Except.ok.inj hc
  cases c with
  | start d =>
    rw [QuasiNewton.call] at hcall
    split at hcall
    next s₁ hs =>
      obtain ⟨rfl, rfl⟩ := Prod.mk.inj (Except.ok.inj hcall)
      exact .started hs
    next fault hs =>
      obtain ⟨rfl, rfl⟩ := Prod.mk.inj (Except.ok.inj hcall)
      exact .refused hs
  | perform d =>
    obtain ⟨reply, hp, hcall⟩ := bind_ok hcall
    obtain ⟨rfl, rfl⟩ := Prod.mk.inj (Except.ok.inj hcall)
    exact .performed hp
  | converged d =>
    obtain ⟨reply, hp, hcall⟩ := bind_ok hcall
    obtain ⟨rfl, rfl⟩ := Prod.mk.inj (Except.ok.inj hcall)
    exact .converged hp
  | reset =>
    obtain ⟨rfl, rfl⟩ := Prod.mk.inj (Except.ok.inj hcall)
    exact .reset

/-- What every call keeps is kept by every run. -/
theorem run_keeps {P : Session α → Prop}
    (hcall : ∀ {c : Call α} {σ σ' : Session α}, P σ → σ.call c = .ok σ' → P σ') :
    ∀ {calls : List (Call α)} {σ σ' : Session α}, P σ → σ.run calls = .ok σ' → P σ' := by
  intro calls
  induction calls with
  | nil =>
    intro σ σ' h hr
    obtain rfl := Except.ok.inj hr
    exact h
  | cons c cs ih =>
    intro σ σ' h hr
    obtain ⟨σ₁, hc, hr⟩ := bind_ok hr
    exact ih (hcall h hc) hr

theorem run_config {calls : List (Call α)} {σ σ' : Session α} (hr : σ.run calls = .ok σ') :
    σ'.chronicle.config = σ.chronicle.config := by
  refine run_keeps (P := fun τ => τ.chronicle.config = σ.chronicle.config) ?_ rfl hr
  intro c τ τ' h hc
  obtain ⟨⟨answer, scheme⟩, -, hc⟩ := bind_ok hc
  obtain rfl := Except.ok.inj hc
  exact (τ.chronicle.config_note c answer.isOk).trans h

end Session

end Cosimulation.Acceleration
