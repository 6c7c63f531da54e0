import Cosimulation.Proofs.Mapping.Interrupted
import Cosimulation.Proofs.Mapping.Staleness

/-!
# Tables that are out of date

A table is used until the next one is computed, and meanwhile both meshes may change. `InUse` is a
mapping with the meshes and the cache around it, through everything that can be done to them, in any
order; if every table is computed with a search index that is up to date, `Guarded` says how a
transfer ends.

As long as the mesh that the rows refer to has no fewer vertices than when the table was computed, a
transfer succeeds or is refused, and if it is refused it has changed nothing. Nothing guards against
a mesh that has fewer: the number of rows is compared with the mesh the mapping starts from, what
they refer to with nothing, and a table that could not be computed again is kept. What is left of
the output field then, `Outcome.torn` tells; `run_guarded_emptied` is such a run.

The invariant is that the rows refer to vertices below the number that was counted when the table
was computed (`InUse.Sound`).
-/

namespace Cosimulation.Mapping

open Search

/-! ## What can be done -/

/-- What can be done to a mapping and to the meshes and the cache around it. -/
inductive Action (α : Type) where
  | operate (mesh : MeshRef) (op : Mesh.Operation α)
  | drop (id : MeshId)
  | dropAll
  | attach (input output : MeshRef)
  | compute
  | clear
  | transfer (inputId outputId : DataId)

/-- A mapping in use. -/
structure InUse (α : Type) where
  participant : Participant α
  mapping : Mapping α
  /-- How many vertices there were to refer to when the table was computed. -/
  counted : Nat := 0

namespace InUse

/-- A mapping before its meshes are attached. -/
def start {α : Type} (participant : Participant α) (config : Config) : InUse α :=
  { participant, mapping := { config } }

section
variable {α : Type} [Scalar α] [SearchOrder α]

/-- One action. What fails leaves everything as it is, except for a transfer, which leaves what it
has written. Only meshes that are there can be attached. -/
def step (s : InUse α) : Action α → InUse α
  | .operate ref op =>
    match s.participant.mesh ref with
    | .ok m => { s with participant := s.participant.setMesh ref (m.after op) }
    | .error _ => s
  | .drop id => { s with participant.cache := s.participant.cache.clear id }
  | .dropAll => { s with participant.cache := s.participant.cache.clearAll }
  | .attach input output =>
    if input < s.participant.meshes.length ∧ output < s.participant.meshes.length then
      let (mapping, participant) := s.mapping.setMeshes s.participant input output
      { s with participant, mapping }
    else s
  | .compute =>
    match s.mapping.compute s.participant with
    | .ok (mapping, participant) =>
      { participant, mapping
        counted := ((s.mapping.target? s.participant).map fun m => m.vertices.length).getD 0 }
    | .error _ => s
  | .clear =>
    let (mapping, participant) := s.mapping.clear s.participant
    { s with participant, mapping }
  | .transfer inputId outputId =>
    { s with participant := ((s.mapping.overwrite inputId outputId).on s.participant).2 }

/-- One action after the other. -/
def run (s : InUse α) (actions : List (Action α)) : InUse α := actions.foldl step s

/-- Every table is computed with an index of the mesh as it is. -/
def Current (s : InUse α) : List (Action α) → Prop
  | [] => True
  | a :: actions =>
    (a = .compute → ∀ m, s.mapping.target? s.participant = some m → s.participant.cache.Fresh m) ∧
      (s.step a).Current actions

end

end InUse

/-! ## What a table refers to -/

section
variable {α : Type} {map map' : Mapping α} {p p' : Participant α} {input output : Mesh α}

theorem Table.refersBelow_mono {table : Table α} {count count' : Nat} (hle : count ≤ count')
    (h : Table.refersBelow table count = true) : Table.refersBelow table count' = true :=
  Table.refersBelow_iff.2 fun row hrow e he =>
    (Table.refersBelow_iff.1 h row hrow e he).trans_le hle

theorem Attached.target? (h : map.Attached p input output) :
    map.target? p = some (map.config.constraint.target input output) := by
  obtain ⟨s, t, hdirection, -, ht⟩ := h.direction
  rw [Mapping.target?, hdirection]
  dsimp only
  rw [ht]
  rfl

variable [Scalar α] [SearchOrder α] [LawfulSearchOrder α]

/-- The rows on a mesh refer to its vertices. -/
theorem tableOf_within {method : Method} {dimensions : Nat} {start target : Mesh α}
    {table : Table α} (h : target.Consistent)
    (htable : tableOf method dimensions start target = .ok table) :
    Table.refersBelow table target.vertices.length = true := by
  obtain ⟨table', htable', -, hrows⟩ : ∃ table', tableOf method dimensions start target =
      .ok table' ∧ table'.length = start.vertices.length ∧ ∀ row ∈ table',
        (∀ e ∈ row, e.vertex < target.vertices.length) ∨ target.vertices = [] ∧ row = [] :=
    tableOf_rows h (rows_within h) method dimensions
  obtain rfl := Except.ok.inj (htable.symm.trans htable')
  refine Table.refersBelow_iff.2 fun row hrow e he => ?_
  rcases hrows row hrow with hwithin | ⟨-, rfl⟩
  · exact hwithin e he
  · exact absurd he List.not_mem_nil

/-- So do those that are computed with an index of the mesh as it is. -/
theorem compute_within (hplaced : map.Placed p)
    (hconsistent : ∀ m ∈ p.meshes, m.Consistent)
    (hfresh : ∀ m, map.target? p = some m → p.cache.Fresh m)
    (h : map.compute p = .ok (map', p')) : ∃ target table cache, map.target? p = some target ∧
      map' = { map with table := some table } ∧ p' = { p with cache } ∧
      Table.refersBelow table target.vertices.length = true := by
  obtain ⟨_, _, _, _, ⟨s, t, hdirection, -⟩, -, -, hp'⟩ := compute_ok h
  obtain ⟨⟨i, o⟩, hends, -⟩ := bind_ok hdirection
  obtain ⟨input, output, hattached, hinput, houtput⟩ := hplaced.attached hends
  have hmem : map.config.constraint.target input output ∈ p.meshes := by
    cases map.config.constraint with
    | consistent => exact Participant.mem_of_mesh hinput
    | conservative => exact Participant.mem_of_mesh houtput
  obtain ⟨-, table, hmap', htable⟩ := compute_fresh_ok hattached (hfresh _ hattached.target?) h
  exact ⟨_, table, _, hattached.target?, hmap', hp', tableOf_within (hconsistent _ hmem) htable⟩

end

/-! ## The invariant -/

namespace InUse

section
variable {α : Type} [Scalar α]

/-- The meshes are in order, and the rows refer to vertices that were counted. -/
structure Sound (s : InUse α) : Prop where
  meshes : ∀ m ∈ s.participant.meshes, m.Consistent ∧ m.Dimensioned
  placed : s.mapping.Placed s.participant
  rows : ∀ table, s.mapping.table = some table → Table.refersBelow table s.counted = true

variable {s : InUse α}

theorem sound_start {p : Participant α} (h : ∀ m ∈ p.meshes, m.Consistent ∧ m.Dimensioned)
    (config : Config) : (start p config).Sound := ⟨h, ⟨nofun, nofun⟩, nofun⟩

namespace Sound

theorem withCache (h : s.Sound) (cache : Cache α) :
    Sound { s with participant.cache := cache } :=
  ⟨h.meshes, ⟨h.placed.input, h.placed.output⟩, h.rows⟩

theorem setMesh (h : s.Sound) (ref : MeshRef) {m : Mesh α} (hm : m.Consistent ∧ m.Dimensioned) :
    Sound { s with participant := s.participant.setMesh ref m } := by
  have hlength : (s.participant.setMesh ref m).meshes.length = s.participant.meshes.length :=
    List.length_set
  refine ⟨fun m' hm' => ?_, ⟨hlength ▸ h.placed.input, hlength ▸ h.placed.output⟩, h.rows⟩
  rcases List.mem_or_eq_of_mem_set hm' with hm' | rfl
  · exact h.meshes m' hm'
  · exact hm

/-- Clearing leaves no table. -/
theorem cleared (h : s.Sound) : Sound { s with
    participant := (s.mapping.clear s.participant).2
    mapping := (s.mapping.clear s.participant).1 } := by
  rw [Mapping.clear_eq]
  dsimp only
  cases s.mapping.target? s.participant with
  | none => exact ⟨h.meshes, ⟨h.placed.input, h.placed.output⟩, nofun⟩
  | some m => exact ⟨h.meshes, ⟨h.placed.input, h.placed.output⟩, nofun⟩

theorem dimensioned (h : s.Sound) {ref : MeshRef} {m : Mesh α}
    (hm : s.participant.mesh ref = .ok m) : m.Dimensioned :=
  (h.meshes m (Participant.mem_of_mesh hm)).2

/-- A transfer changes values at most. -/
theorem transferred (h : s.Sound) (inputId outputId : DataId) : Sound { s with
    participant := ((s.mapping.overwrite inputId outputId).on s.participant).2 } := by
  have hheld {plan : Plan α} {input : Mesh α} {target : Field α}
      (hfits : Fits plan s.mapping s.participant inputId outputId input target) (out : Vec α) :
      Sound { s with
        participant := holding s.participant plan.outputRef plan.output outputId out } := by
    obtain ⟨hconsistent, hdimensioned⟩ := h.meshes _ (Participant.mem_of_mesh hfits.placed)
    exact h.setMesh _ ⟨hconsistent.change (.fields _), hdimensioned.withValues outputId out⟩
  have houtcome := overwrite_outcome h.placed (fun _ _ => h.dimensioned) inputId outputId
  generalize (s.mapping.overwrite inputId outputId).on s.participant = result at houtcome
  cases houtcome with
  | refused => exact h
  | uncountable => exact h
  | complete hfits => exact hheld hfits _
  | torn hfits => exact hheld hfits _

variable [SearchOrder α] [LawfulSearchOrder α]

/-- An action leaves everything in order if a table is computed with an index of the mesh as it
is. -/
theorem step (h : s.Sound) {a : Action α} (hfresh : a = .compute →
    ∀ m, s.mapping.target? s.participant = some m → s.participant.cache.Fresh m) :
    (s.step a).Sound := by
  cases a with
  | operate ref op =>
    unfold InUse.step
    dsimp only
    split
    next m hm =>
      obtain ⟨hconsistent, hdimensioned⟩ := h.meshes m (Participant.mem_of_mesh hm)
      exact h.setMesh ref ⟨hconsistent.after op, hdimensioned.after op⟩
    next => exact h
  | drop id => exact h.withCache _
  | dropAll => exact h.withCache _
  | attach input output =>
    unfold InUse.step
    dsimp only
    split
    next hthere =>
      have hmeshes : (s.mapping.clear s.participant).2.meshes = s.participant.meshes := by
        rw [Mapping.clear_eq]
        dsimp only
        split <;> rfl
      refine ⟨h.cleared.meshes, ⟨fun i hi => ?_, fun o ho => ?_⟩, h.cleared.rows⟩
      · obtain rfl := Option.some.inj hi
        exact hthere.1.trans_eq (congrArg List.length hmeshes.symm)
      · obtain rfl := Option.some.inj ho
        exact hthere.2.trans_eq (congrArg List.length hmeshes.symm)
    next => exact h
  | compute =>
    unfold InUse.step
    dsimp only
    split
    next map' p' hcompute =>
      obtain ⟨target, table, cache, htarget, rfl, rfl, hbelow⟩ :=
        compute_within h.placed (fun m hm => (h.meshes m hm).1) (hfresh rfl) hcompute
      refine ⟨h.meshes, ⟨h.placed.input, h.placed.output⟩, fun table' htable' => ?_⟩
      obtain rfl := Option.some.inj htable'
      rw [htarget]
      exact hbelow
    next => exact h
  | clear => exact h.cleared
  | transfer inputId outputId => exact h.transferred inputId outputId

theorem run : ∀ {actions : List (Action α)} {s : InUse α}, s.Sound → s.Current actions →
    (s.run actions).Sound := by
  intro actions
  induction actions with
  | nil => exact fun h _ => h
  | cons a actions ih => exact fun h hcurrent => ih (h.step hcurrent.1) hcurrent.2

end Sound

/-! ## How a transfer ends -/

variable [SearchOrder α]

/-- How a transfer ends. -/
structure Guarded (s : InUse α) (inputId outputId : DataId) : Prop where
  /-- There are four ways. -/
  outcome : Outcome s.mapping s.participant inputId outputId
    ((s.mapping.overwrite inputId outputId).on s.participant)
  /-- The answer is that of a transfer that is not made in place. -/
  answer : ((s.mapping.overwrite inputId outputId).on s.participant).1 =
    (s.mapping.transfer s.participant inputId outputId).map fun _ => ()
  /-- If the mesh that the rows refer to has no fewer vertices than when the table was computed, and
  the scalars of all fields can be counted, it succeeds or is refused with nothing changed. -/
  kept : (∀ m, s.mapping.target? s.participant = some m → s.counted ≤ m.vertices.length) →
    (∀ m ∈ s.participant.meshes, m.Countable) →
    ((s.mapping.overwrite inputId outputId).on s.participant).1 = .ok () ∨
      ∃ fault, (s.mapping.overwrite inputId outputId).on s.participant =
        (.error (.fault fault), s.participant)

/-- Whatever is done to a mapping and its meshes, this is how a transfer ends. -/
theorem run_guarded [LawfulSearchOrder α] {p : Participant α}
    (hmeshes : ∀ m ∈ p.meshes, m.Consistent ∧ m.Dimensioned) (config : Config)
    {actions : List (Action α)} (hcurrent : (start p config).Current actions)
    (inputId outputId : DataId) : ((start p config).run actions).Guarded inputId outputId := by
  have h := (sound_start hmeshes config).run hcurrent
  generalize (start p config).run actions = s at h
  have houtcome := overwrite_outcome h.placed (fun _ _ => h.dimensioned) inputId outputId
  refine ⟨houtcome, overwrite_answer (fun _ _ => h.dimensioned) inputId outputId,
    fun hkept hcountable => ?_⟩
  generalize (s.mapping.overwrite inputId outputId).on s.participant = result at houtcome
  cases houtcome with
  | refused fault => exact .inr ⟨fault, rfl⟩
  | uncountable hmany =>
    obtain ⟨ref, m, hm, hmany⟩ := hmany
    exact absurd (hcountable m (Participant.mem_of_mesh hm)) hmany
  | complete => exact .inl rfl
  | torn hfits hbeyond =>
    -- the rows refer to vertices that were counted, and these are still there
    have hcounted := hkept _ hfits.toAttached.target?
    have hwithin := Table.refersBelow_mono hcounted (h.rows _ hfits.tableAt)
    rw [← hfits.referred, hbeyond] at hwithin
    cases hwithin

end

/-! ## A mesh that was cleared -/

/-- A mesh of one vertex with one field. -/
noncomputable def single (id : MeshId) (field : Field ℝ) : Mesh ℝ where
  id := id
  name := field.name
  dimensions := 2
  vertices := [{ id := 0, position := ⟨0, 0, 0⟩ }]
  fields := [field]

noncomputable def inlet : Mesh ℝ := single 1 ⟨0, "inlet", 1, [1]⟩

noncomputable def outlet : Mesh ℝ := single 2 ⟨1, "outlet", 1, [1]⟩

noncomputable def channel : Participant ℝ := { meshes := [inlet, outlet] }

def closest : Config := { method := .nearestNeighbor, dimensions := 2 }

/-- The mapping between the two, with a table and without. -/
noncomputable def across (table : Option (Table ℝ)) (cache : Cache ℝ) (counted : Nat) :
    InUse ℝ where
  participant := { channel with cache }
  mapping := { config := closest, input := some 0, output := some 1, table }
  counted := counted

/-- The input mesh is cleared after the table was computed, and then there is nothing to compute it
from again. -/
def emptied : List (Action ℝ) :=
  [.attach 0 1, .compute, .operate 0 .clear, .drop 1, .compute]

theorem single_sound (id : MeshId) {field : Field ℝ} (h : 0 < field.dimension) :
    (single id field).Consistent ∧ (single id field).Dimensioned := by
  refine ⟨⟨.inl rfl, fun _ v hv => ?_, rfl, rfl, rfl, nofun, nofun⟩, fun n hn => ?_⟩
  · obtain rfl := List.mem_singleton.1 hv
    rfl
  · obtain rfl := List.mem_singleton.1 hn
    exact h

section
variable [SearchOrder ℝ] [LawfulSearchOrder ℝ]

/-- There is only one vertex to refer to. -/
theorem tableOf_channel : tableOf closest.method closest.dimensions outlet inlet =
    .ok [[⟨0, 1⟩]] := by
  have hrows (p : Point ℝ) : Rows inlet p fun row => row = [⟨0, 1⟩] :=
    ⟨fun v hv => by rw [Nat.lt_one_iff.1 hv]; rfl, nofun, nofun⟩
  obtain ⟨table, htable, hlength, hall⟩ : ∃ table,
      tableOf closest.method closest.dimensions outlet inlet = .ok table ∧ table.length = 1 ∧
        ∀ row ∈ table, row = [⟨0, 1⟩] ∨ inlet.vertices = [] ∧ row = [] :=
    tableOf_rows (single_sound 1 Nat.one_pos).1 hrows closest.method closest.dimensions
  obtain ⟨row, rfl⟩ := List.length_eq_one_iff.1 hlength
  rcases hall row (List.mem_singleton.2 rfl) with rfl | ⟨hnone, -⟩
  · exact htable
  · cases hnone

theorem step_across : ∃ cache, (across none {} 0).step .compute =
    across (some [[⟨0, 1⟩]]) cache 1 := by
  have hattached : (across none {} 0).mapping.Attached channel inlet outlet :=
    ⟨⟨0, rfl, rfl⟩, ⟨1, rfl, rfl⟩⟩
  obtain ⟨cache, hcompute⟩ := compute_fresh hattached (show channel.cache.Fresh inlet from nofun)
  have hcomputed : (across none {} 0).mapping.compute (across none {} 0).participant =
      .ok ((across (some [[⟨0, 1⟩]]) cache 1).mapping, { channel with cache }) := by
    refine hcompute.trans ((if_neg Bool.false_ne_true).trans ?_)
    show Except.map _ (Except.mapError _ (tableOf closest.method closest.dimensions outlet inlet)) =
      _
    rw [tableOf_channel]
    rfl
  refine ⟨cache, ?_⟩
  unfold step
  dsimp only
  rw [hcomputed]
  rfl

end

/-- The output field is zero afterwards, though the transfer has failed. -/
theorem run_guarded_emptied : let _ : SearchOrder ℝ := .byIndex
    ∃ s p', (start channel closest).run emptied = s ∧ s.Guarded 0 1 ∧
      s.participant.mesh 1 = .ok outlet ∧
      (s.mapping.overwrite 0 1).on s.participant = (.error (.violation .bounds), p') ∧
      p'.mesh 1 = .ok { outlet with fields := [⟨1, "outlet", 1, [0]⟩] } := by
  intro _
  have := byIndex_lawful
  obtain ⟨cache, hstep⟩ := step_across
  have hrest : ((across (some [[⟨0, 1⟩]]) cache 1).run [.operate 0 .clear, .drop 1, .compute]) =
      { across (some [[⟨0, 1⟩]]) cache 1 with
        participant := ⟨[inlet.clear, outlet], cache.clear 1⟩ } := rfl
  have hrun : (start channel closest).run emptied =
      { across (some [[⟨0, 1⟩]]) cache 1 with
        participant := ⟨[inlet.clear, outlet], cache.clear 1⟩ } := by
    show ((across none {} 0).step .compute).run [.operate 0 .clear, .drop 1, .compute] = _
    rw [hstep]
    exact hrest
  have hcurrent : (start channel closest).Current emptied := by
    refine ⟨nofun, fun _ m hm => ?_, ?_⟩
    · obtain rfl := Option.some.inj hm
      exact nofun
    · show ((across none {} 0).step .compute).Current [.operate 0 .clear, .drop 1, .compute]
      rw [hstep]
      refine ⟨nofun, nofun, fun _ m hm => ?_, trivial⟩
      obtain rfl := Option.some.inj hm
      exact Cache.fresh_clear cache _
  have hmeshes : ∀ m ∈ channel.meshes, m.Consistent ∧ m.Dimensioned :=
    List.forall_mem_cons.2 ⟨single_sound 1 Nat.one_pos,
      List.forall_mem_singleton.2 (single_sound 2 Nat.one_pos)⟩
  have hguarded := run_guarded hmeshes closest hcurrent 0 1
  rw [hrun] at hguarded
  exact ⟨_, _, hrun, hguarded, rfl, rfl, rfl⟩

end InUse

end Cosimulation.Mapping
