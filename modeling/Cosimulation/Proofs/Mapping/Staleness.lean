import Mathlib.Data.List.DropRight
import Cosimulation.Proofs.Mapping.Tables
import Cosimulation.Proofs.Search.Snapshots

/-!
# How old an answer may be

Meshes change, queries are asked of them through one cache, and mappings that share the cache clear
entries when they are cleared, get other meshes, or ask themselves. `Logged` is a participant with
its mappings that goes through such events in any order, and a log of what happened: which mesh
changed, which kind of tree was asked for and what the mesh was then, and whose entry was cleared.

`Faithful` says what the log tells of the answers. A query sees the mesh as it was when its kind was
first asked for since its entry was last cleared (`Log.first`); this is the mesh as it is unless
something moved since then (`Log.Unchanged`); and to clear the entry of one mesh makes no difference
to what is answered on another.

The invariant, `Participant.Tracked`, is that the index of each mesh is the one that the log
describes. All events change the cache in two ways only: the index of one mesh has answered some
queries (`Tracked.asked`), or the entry of a mesh is gone (`Tracked.cleared`). That a clearing makes
no difference to other meshes is said by comparing two runs (`Beside`).
-/

namespace Cosimulation

open Search

variable {α : Type}

/-! ## The log -/

/-- What happens to a mesh and to its search trees. -/
inductive Note (α : Type) where
  | changed (before after : Mesh α)
  | asked (mesh : Mesh α) (kind : Kind)
  | cleared (id : MeshId)
  | clearedAll

namespace Note

/-- Whether the entry of a mesh was cleared. -/
def clears (id : MeshId) : Note α → Bool
  | .cleared id' => id' == id
  | .clearedAll => true
  | _ => false

/-- The mesh as it was, if it was asked for a kind of tree. -/
def askedFor? (id : MeshId) (kind : Kind) : Note α → Option (Mesh α)
  | .asked m kind' => if m.id = id ∧ kind = kind' then some m else none
  | _ => none

end Note

/-- What happened, in this order. -/
abbrev Log (α : Type) := List (Note α)

namespace Log

/-- What happened since the entry of a mesh was last cleared. -/
def since (log : Log α) (id : MeshId) : Log α := log.rtakeWhile fun n => !n.clears id

/-- For each kind, the mesh as it was when it was first asked for since its entry was last
cleared. -/
def first (log : Log α) (id : MeshId) : Snapshots α :=
  fun kind => (log.since id).findSome? (Note.askedFor? id kind)

/-- No vertex, edge or triangle of a mesh changed since its entry was last cleared. -/
def Unchanged (log : Log α) (id : MeshId) : Prop :=
  ∀ before after, .changed before after ∈ log.since id → before.id = id →
    before.SameGeometry after

variable {log : Log α} {id : MeshId}

theorem since_append {n : Note α} (hn : n.clears id = false) :
    since (log ++ [n]) id = log.since id ++ [n] :=
  List.rtakeWhile_concat_pos _ _ n (by rw [hn]; rfl)

theorem since_cleared {n : Note α} (hn : n.clears id = true) : since (log ++ [n]) id = [] :=
  List.rtakeWhile_concat_neg _ _ n (by rw [hn]; exact Bool.false_ne_true)

theorem first_cleared {n : Note α} (hn : n.clears id = true) :
    first (log ++ [n]) id = fun _ => none := by
  funext kind
  rw [first, since_cleared hn]
  rfl

/-- What asks for no tree of a mesh leaves what it was first asked for. -/
theorem first_other {n : Note α} (hn : n.clears id = false)
    (hnone : ∀ kind, n.askedFor? id kind = none) : first (log ++ [n]) id = log.first id := by
  funext kind
  rw [first, since_append hn, List.findSome?_append, List.findSome?_singleton, hnone kind]
  exact Option.or_none

theorem first_asked (m : Mesh α) (kind : Kind) : first (log ++ [.asked m kind]) id =
    if m.id = id then (log.first id).ask m kind else log.first id := by
  split
  next hid =>
    funext kind'
    rw [first, since_append rfl, List.findSome?_append, List.findSome?_singleton, Snapshots.ask,
      Note.askedFor?]
    by_cases hkind : kind' = kind
    · rw [if_pos ⟨hid, hkind⟩, if_pos hkind, hkind, Snapshots.seen, first]
      cases (log.since id).findSome? (Note.askedFor? id kind) <;> rfl
    · rw [if_neg (fun hh => hkind hh.2), if_neg hkind]
      exact Option.or_none
  next hid =>
    exact first_other rfl fun kind' => if_neg fun hh => hid hh.1

theorem first_askedAll (m : Mesh α) : ∀ (kinds : List Kind) {log : Log α},
    first (log ++ kinds.map (Note.asked m)) id =
      if m.id = id then (log.first id).askAll m kinds else log.first id
  | [], log => by
    rw [List.map_nil, List.append_nil]
    exact (ite_self _).symm
  | kind :: kinds, log => by
    rw [List.map_cons, List.append_cons, first_askedAll m kinds, first_asked]
    by_cases hid : m.id = id
    · rw [if_pos hid, if_pos hid, if_pos hid]
      rfl
    · rw [if_neg hid, if_neg hid, if_neg hid]

/-- Queries change no mesh. -/
theorem unchanged_of_asked {m : Mesh α} : ∀ (kinds : List Kind) {log : Log α},
    Unchanged (log ++ kinds.map (Note.asked m)) id → log.Unchanged id
  | [], log, h => by rwa [List.map_nil, List.append_nil] at h
  | kind :: kinds, log, h => by
    rw [List.map_cons, List.append_cons] at h
    have hlast := unchanged_of_asked kinds h
    intro before after hmem
    refine hlast before after ?_
    rw [since_append rfl]
    exact List.mem_append_left _ hmem

end Log

/-! ## Events -/

namespace Participant

variable [Scalar α] [SearchOrder α]

/-- A query on a mesh through the cache, and what it leaves. -/
def ask (p : Participant α) (ref : MeshRef) (q : Query α) :
    Except (Violation α) (Answer α × Participant α) := do
  let m ← p.mesh ref
  let (handle, cache) := p.cache.handle m.id
  let (answer, index) ← (cache.index handle).answer m q
  return (answer, { p with cache := cache.update handle index })

end Participant

namespace Mapping

/-- The mesh that the rows of a mapping refer to, if it has meshes. -/
def target? (map : Mapping α) (p : Participant α) : Option (Mesh α) :=
  match map.direction with
  | .ok (_, target) => (p.mesh target).toOption
  | .error _ => none

/-- What is noted when a mapping is cleared or gets other meshes. -/
def clearing (map : Mapping α) (p : Participant α) : Log α :=
  (map.target? p).toList.map fun m => .cleared m.id

/-- What is noted when the table of a mapping is computed. -/
def asking [Scalar α] [SearchOrder α] (map : Mapping α) (p : Participant α) : Log α :=
  match map.direction with
  | .ok (source, target) =>
    match p.mesh source, p.mesh target with
    | .ok source, .ok target =>
      (allKindsAsked map.config.method map.config.dimensions target (p.cache.entry target.id)
        (source.vertices.map Vertex.position)).map (Note.asked target)
    | _, _ => []
  | .error _ => []

end Mapping

/-- What can happen to the meshes of a participant and its mappings. A mesh that changes gets any
other contents and keeps its ID. -/
inductive Event (α : Type) where
  | change (mesh : MeshRef) (contents : Mesh α)
  | fetch (mesh : MeshRef)
  | ask (mesh : MeshRef) (query : Query α)
  | drop (id : MeshId)
  | dropAll
  | clear (mapping : Nat)
  | setMeshes (mapping : Nat) (input output : MeshRef)
  | compute (mapping : Nat)

/-- What edges and triangles of a changed mesh refer to is there. -/
def Event.Whole : Event α → Prop
  | .change _ contents => contents.Whole
  | _ => True

/-- A participant with its mappings, and the log of what happened. -/
structure Logged (α : Type) where
  participant : Participant α
  mappings : List (Mapping α)
  log : Log α

namespace Logged

/-- Nothing has happened, and the cache has no entries. -/
def new (meshes : List (Mesh α)) (mappings : List (Mapping α)) : Logged α :=
  ⟨{ meshes }, mappings, []⟩

/-- The mapping at a position. -/
def mapping (l : Logged α) (k : Nat) : Except (Violation α) (Mapping α) :=
  match l.mappings[k]? with
  | some map => .ok map
  | none => .error .bounds

/-- Another cache, and what happened meanwhile. -/
def withCache (l : Logged α) (cache : Cache α) (notes : Log α) : Logged α :=
  { l with participant := { l.participant with cache }, log := l.log ++ notes }

variable [Scalar α] [SearchOrder α]

/-- One event. A mapping that cannot be computed for lack of meshes or vertices stays as it is. -/
def step (l : Logged α) : Event α → Except (Violation α) (Logged α)
  | .change ref contents => do
    let m ← l.participant.mesh ref
    let changed := { contents with id := m.id }
    return { l with
      participant := l.participant.setMesh ref changed
      log := l.log ++ [.changed m changed] }
  | .fetch ref => do
    let m ← l.participant.mesh ref
    return l.withCache (l.participant.cache.handle m.id).2 []
  | .ask ref q => do
    let m ← l.participant.mesh ref
    let (_, p) ← l.participant.ask ref q
    return { l with participant := p, log := l.log ++ [.asked m q.kind] }
  | .drop id => .ok (l.withCache (l.participant.cache.clear id) [.cleared id])
  | .dropAll => .ok (l.withCache l.participant.cache.clearAll [.clearedAll])
  | .clear k => do
    let map ← l.mapping k
    let (map', p) := map.clear l.participant
    return ⟨p, l.mappings.set k map', l.log ++ map.clearing l.participant⟩
  | .setMeshes k input output => do
    let map ← l.mapping k
    let (map', p) := map.setMeshes l.participant input output
    return ⟨p, l.mappings.set k map', l.log ++ map.clearing l.participant⟩
  | .compute k => do
    let map ← l.mapping k
    match map.compute l.participant with
    | .ok (map', p) =>
      return ⟨p, l.mappings.set k map', l.log ++ map.asking l.participant⟩
    | .error (.fault _) => return l
    | .error (.violation v) => .error v

/-- One event after the other. -/
def run (l : Logged α) : List (Event α) → Except (Violation α) (Logged α)
  | [] => .ok l
  | e :: es => do
    let l' ← l.step e
    l'.run es

end Logged

/-! ## Participants and their log -/

namespace Mesh.SameGeometry

theorem trans {m m' m'' : Mesh α} (h : SameGeometry m m') (h' : SameGeometry m' m'') :
    SameGeometry m m'' :=
  ⟨h.vertices.trans h'.vertices, h.edges.trans h'.edges, h.triangles.trans h'.triangles⟩

/-- An answer depends on the shapes of a mesh alone. -/
theorem on_eq [Scalar α] [SearchOrder α] {m m' : Mesh α} (h : SameGeometry m m') (q : Query α) :
    q.on m = q.on m' := by
  cases q with
  | vertices => rw [Query.on, Query.on, h.vertexTree]
  | edges => rw [Query.on, Query.on, h.edgeTree]
  | triangles => rw [Query.on, Query.on, h.triangleTree]
  | box => rw [Query.on, Query.on, h.vertexTree]

end Mesh.SameGeometry

/-- An index of snapshots that show a mesh as it is. -/
theorem Search.fresh_of {f : Snapshots α} {m : Mesh α} (h : f.All (Mesh.SameGeometry · m)) :
    (MeshIndex.of f).Fresh m := by
  refine ⟨fun t ht => ?_, fun t ht => ?_, fun t ht => ?_⟩
  · obtain ⟨m₀, hm₀, rfl⟩ := Option.map_eq_some_iff.1 ht
    exact (h _ m₀ hm₀).symm.vertexTree
  · obtain ⟨m₀, hm₀, ht⟩ := Option.bind_eq_some_iff.1 ht
    rw [← (h _ m₀ hm₀).edgeTree]
    exact toOption_eq_some.1 ht
  · obtain ⟨m₀, hm₀, ht⟩ := Option.bind_eq_some_iff.1 ht
    rw [← (h _ m₀ hm₀).triangleTree]
    exact toOption_eq_some.1 ht

namespace Participant

variable {p : Participant α} {log : Log α} {ref : MeshRef} {m : Mesh α}

theorem mesh_eq_ok : p.mesh ref = .ok m ↔ p.meshes[ref]? = some m := by
  unfold mesh
  cases p.meshes[ref]? with
  | none => exact ⟨fun h => absurd h (by simp), fun h => absurd h (by simp)⟩
  | some m' => exact ⟨fun h => congrArg some (Except.ok.inj h), fun h =>
      congrArg Except.ok (Option.some.inj h)⟩

theorem mem_of_mesh (h : p.mesh ref = .ok m) : m ∈ p.meshes :=
  List.mem_of_getElem? (mesh_eq_ok.1 h)

/-- The index of each mesh is the one that the log describes. -/
structure Tracked (p : Participant α) (log : Log α) : Prop where
  cache : p.cache.Sound
  entries : ∀ id, p.cache.entry id = .of (log.first id)
  distinct : (p.meshes.map Mesh.id).Nodup
  whole : ∀ m ∈ p.meshes, m.Whole
  snapshots : ∀ id, (log.first id).All Mesh.Whole
  unchanged : ∀ m ∈ p.meshes, log.Unchanged m.id → (log.first m.id).All (Mesh.SameGeometry · m)

namespace Tracked

/-- There is one mesh with an ID. -/
theorem eq_of_id (h : p.Tracked log) {m' : Mesh α} (hm : m ∈ p.meshes) (hm' : m' ∈ p.meshes)
    (hid : m.id = m'.id) : m = m' :=
  List.inj_on_of_nodup_map h.distinct hm hm' hid

/-- The cache knows a mesh as it is if it has not changed. -/
theorem fresh (h : p.Tracked log) (hm : m ∈ p.meshes) (hsame : log.Unchanged m.id) :
    p.cache.Fresh m := by
  intro k hk
  have hentry : p.cache.entry m.id = p.cache.index k := by rw [Cache.entry, hk]
  rw [← hentry, h.entries]
  exact fresh_of (h.unchanged m hm hsame)

/-- An index is fetched. -/
theorem fetched (h : p.Tracked log) (id : MeshId) :
    Tracked { p with cache := (p.cache.handle id).2 } log :=
  ⟨h.cache.handle id, fun id' => (Cache.entry_handle p.cache h.cache id id').trans (h.entries id'),
    h.distinct, h.whole, h.snapshots, h.unchanged⟩

/-- The index of a mesh has answered some queries. -/
theorem asked (h : p.Tracked log) (hm : m ∈ p.meshes) (kinds : List Kind) :
    Tracked { p with
      cache := (p.cache.handle m.id).2.update (p.cache.handle m.id).1
        (.of ((log.first m.id).askAll m kinds)) } (log ++ kinds.map (Note.asked m)) := by
  refine ⟨(h.cache.handle m.id).update _ _, fun id => ?_, h.distinct, h.whole, fun id => ?_,
    fun m' hm' hsame => ?_⟩
  · rw [Cache.entry_update h.cache, Log.first_askedAll]
    by_cases hid : id = m.id
    · rw [if_pos hid, if_pos hid.symm, hid]
    · rw [if_neg hid, if_neg (Ne.symm hid)]
      exact h.entries id
  · rw [Log.first_askedAll]
    split
    next => exact Snapshots.All.askAll (h.whole m hm) kinds (h.snapshots id)
    next => exact h.snapshots id
  · have hbefore := h.unchanged m' hm' (Log.unchanged_of_asked kinds hsame)
    rw [Log.first_askedAll]
    split
    next hid =>
      obtain rfl := h.eq_of_id hm hm' hid
      exact Snapshots.All.askAll (.refl m) kinds hbefore
    next => exact hbefore

/-- The entry of a mesh is gone. -/
theorem cleared (h : p.Tracked log) (id : MeshId) :
    Tracked { p with cache := p.cache.clear id } (log ++ [.cleared id]) := by
  have hfirst (id' : MeshId) : Log.first (log ++ [.cleared id]) id' =
      if id' = id then fun _ => none else log.first id' := by
    split
    next hid => exact Log.first_cleared (beq_iff_eq.2 hid.symm)
    next hid => exact Log.first_other (beq_false_of_ne (Ne.symm hid)) fun _ => rfl
  refine ⟨h.cache.clear id, fun id' => ?_, h.distinct, h.whole, fun id' => ?_,
    fun m hm hsame => ?_⟩
  · rw [Cache.entry_clear, hfirst]
    split
    next => rfl
    next => exact h.entries id'
  · rw [hfirst]
    split
    next => exact .nothing
    next => exact h.snapshots id'
  · rw [hfirst]
    split
    next => exact .nothing
    next hid =>
      have hkept : (Note.cleared id : Note α).clears m.id = false := beq_false_of_ne (Ne.symm hid)
      refine h.unchanged m hm fun before after hmem => hsame before after ?_
      rw [Log.since_append hkept]
      exact List.mem_append_left _ hmem

theorem clearedAll (h : p.Tracked log) :
    Tracked { p with cache := p.cache.clearAll } (log ++ [.clearedAll]) := by
  have hfirst (id : MeshId) : Log.first (log ++ [.clearedAll]) id = fun _ => none :=
    Log.first_cleared rfl
  refine ⟨Cache.sound_of_nil rfl, fun id => ?_, h.distinct, h.whole, fun id => ?_,
    fun m hm hsame => ?_⟩
  · rw [hfirst]
    rfl
  · rw [hfirst]
    exact .nothing
  · rw [hfirst]
    exact .nothing

/-- A mesh gets other contents. -/
theorem changed (h : p.Tracked log) (hm : p.mesh ref = .ok m) {m' : Mesh α} (hid : m'.id = m.id)
    (hwhole : m'.Whole) : Tracked (p.setMesh ref m') (log ++ [.changed m m']) := by
  have hget := mesh_eq_ok.1 hm
  have hfirst (id : MeshId) : Log.first (log ++ [.changed m m']) id = log.first id :=
    Log.first_other rfl fun _ => rfl
  have hids : ((p.meshes.set ref m').map Mesh.id) = p.meshes.map Mesh.id := by
    rw [List.map_set, hid]
    refine List.ext_getElem? fun i => ?_
    rw [List.getElem?_set]
    split
    next hi =>
      subst hi
      rw [List.getElem?_map, hget]
      simp [(List.getElem?_eq_some_iff.1 hget).1]
    next => rfl
  have hdistinct : ((p.meshes.set ref m').map Mesh.id).Nodup := hids ▸ h.distinct
  have hmem : m' ∈ p.meshes.set ref m' :=
    List.mem_set (List.getElem?_eq_some_iff.1 hget).1 m'
  have hearlier {id : MeshId} (hsame : Log.Unchanged (log ++ [.changed m m']) id) :
      log.Unchanged id := fun before after hb => hsame before after (by
    rw [Log.since_append rfl]
    exact List.mem_append_left _ hb)
  refine ⟨h.cache, fun id => ?_, hdistinct, fun m₁ hm₁ => ?_, fun id => ?_, fun m₁ hm₁ hsame => ?_⟩
  · rw [hfirst]
    exact h.entries id
  · rcases List.mem_or_eq_of_mem_set hm₁ with hm₁ | rfl
    · exact h.whole m₁ hm₁
    · exact hwhole
  · rw [hfirst]
    exact h.snapshots id
  · rw [hfirst]
    by_cases hid₁ : m₁.id = m.id
    · obtain rfl := List.inj_on_of_nodup_map hdistinct hm₁ hmem (hid₁.trans hid.symm)
      -- the snapshots show what the mesh was before, and this change was none to its shapes
      have hlast : m.SameGeometry m₁ := hsame m m₁ (by
        rw [Log.since_append rfl]
        exact List.mem_append_right _ List.mem_cons_self) hid.symm
      intro kind m₀ hm₀
      rw [hid] at hm₀ hsame
      exact (h.unchanged m (mem_of_mesh hm) (hearlier hsame) kind m₀ hm₀).trans hlast
    · rcases List.mem_or_eq_of_mem_set hm₁ with hm₁ | rfl
      · exact h.unchanged m₁ hm₁ (hearlier hsame)
      · exact absurd hid hid₁

end Tracked

end Participant

/-! ## What mappings do to them -/

namespace Mapping

variable {map map' : Mapping α} {p p' : Participant α} {source target : Mesh α}

/-- To clear a mapping is to drop its table and the entry of the mesh that its rows refer to. -/
theorem clear_eq (map : Mapping α) (p : Participant α) : map.clear p =
    ({ map with table := none }, match map.target? p with
      | some m => { p with cache := p.cache.clear m.id }
      | none => p) := by
  unfold clear target?
  cases map.direction with
  | error _ => rfl
  | ok ends =>
    dsimp only
    cases p.mesh ends.2 <;> rfl

/-- A mapping without its table. -/
def bare (map : Mapping α) : Mapping α := { map with table := none }

theorem config_of_bare (h : map'.bare = map.bare) : map'.config = map.config := by
  show map'.bare.config = map.bare.config
  rw [h]

theorem direction_of_bare (h : map'.bare = map.bare) : map'.direction = map.direction := by
  show map'.bare.direction = map.bare.direction
  rw [h]

theorem bare_clear (map : Mapping α) (p : Participant α) : (map.clear p).1.bare = map.bare := by
  rw [clear_eq]
  rfl

theorem bare_setMeshes (map : Mapping α) (p : Participant α) (input output : MeshRef) :
    (map.setMeshes p input output).1.bare =
      { map.bare with input := some input, output := some output } :=
  congrArg (fun map : Mapping α => { map with input := some input, output := some output })
    (map.bare_clear p)

/-- The meshes that a table is computed from: there is something to map onto, if there is anything
to map. -/
def Ready (map : Mapping α) (p : Participant α) (source target : Mesh α) : Prop :=
  ∃ s t, map.direction = .ok (s, t) ∧ p.mesh s = .ok source ∧ p.mesh t = .ok target ∧
    (target.vertices.isEmpty && !source.vertices.isEmpty) = false

section
variable [Scalar α] [SearchOrder α]

theorem asking_eq (h : map.Ready p source target) : map.asking p =
    (allKindsAsked map.config.method map.config.dimensions target (p.cache.entry target.id)
      (source.vertices.map Vertex.position)).map (Note.asked target) := by
  obtain ⟨s, t, hd, hs, ht, -⟩ := h
  unfold asking
  rw [hd]
  dsimp only
  rw [hs, ht]

/-- A table is computed with the index of the mesh that its rows refer to. -/
theorem compute_ok (h : map.compute p = .ok (map', p')) : ∃ source target rows i,
    map.Ready p source target ∧
    locateAll map.config.method map.config.dimensions target (p.cache.entry target.id)
      (source.vertices.map Vertex.position) = .ok (rows, i) ∧
    map' = { map with table := some rows } ∧
    p' = { p with
      cache := (p.cache.handle target.id).2.update (p.cache.handle target.id).1 i } := by
  obtain ⟨⟨s, t⟩, hd, h⟩ := bind_ok h
  obtain ⟨source, hs, h⟩ := bind_ok h
  obtain ⟨target, ht, h⟩ := bind_ok h
  dsimp only at h
  split at h
  next => cases h
  next hguard =>
    obtain ⟨⟨rows, i⟩, hall, h⟩ := bind_ok h
    obtain ⟨rfl, rfl⟩ := Prod.mk.inj (Except.ok.inj h)
    rw [mapError_eq_ok] at hd hs ht hall
    rw [Cache.index_handle] at hall
    exact ⟨source, target, rows, i, ⟨s, t, hd, hs, ht, Bool.eq_false_iff.2 hguard⟩, hall, rfl, rfl⟩

theorem bare_compute (h : map.compute p = .ok (map', p')) : map'.bare = map.bare := by
  obtain ⟨-, -, -, -, -, -, rfl, -⟩ := compute_ok h
  rfl

/-- What keeps a table from being computed is not the cache. -/
theorem not_ready_of_fault {fault : Fault α} (h : map.compute p = .error (.fault fault)) :
    ¬ map.Ready p source target := by
  rintro ⟨s, t, hd, hs, ht, hguard⟩
  simp only [compute, hd, hs, ht, mapError_ok, ok_bind, hguard, Bool.false_eq_true, if_false] at h
  cases hall : locateAll map.config.method map.config.dimensions target
      ((p.cache.handle target.id).2.index (p.cache.handle target.id).1)
      (source.vertices.map Vertex.position) with
  | error v =>
    rw [hall] at h
    cases Except.error.inj h
  | ok r =>
    rw [hall] at h
    cases h

end

end Mapping

namespace Participant

variable {p p' : Participant α} {log : Log α} {ref : MeshRef} {m : Mesh α} {map map' : Mapping α}

theorem Tracked.clearing (h : p.Tracked log) (map : Mapping α) :
    Tracked (map.clear p).2 (log ++ map.clearing p) := by
  rw [Mapping.clear_eq, Mapping.clearing]
  cases map.target? p with
  | none =>
    rw [Option.toList_none, List.map_nil, List.append_nil]
    exact h
  | some m => exact h.cleared m.id

variable [Scalar α] [SearchOrder α]

theorem Tracked.computed (h : p.Tracked log) (hc : map.compute p = .ok (map', p')) :
    Tracked p' (log ++ map.asking p) := by
  obtain ⟨source, target, rows, i, hready, hall, -, rfl⟩ := Mapping.compute_ok hc
  rw [Mapping.asking_eq hready]
  obtain ⟨-, t, -, -, ht, -⟩ := hready
  have hmem := mem_of_mesh ht
  rw [h.entries] at hall ⊢
  obtain rfl := Mapping.locateAll_of (h.whole target hmem) _ (h.snapshots target.id) hall
  exact h.asked hmem _

/-- A query is answered by the index of its mesh. -/
theorem ask_eq (p : Participant α) (hm : p.mesh ref = .ok m) (q : Query α) : p.ask ref q =
    ((p.cache.entry m.id).answer m q).map fun (a, i) => (a, { p with
      cache := (p.cache.handle m.id).2.update (p.cache.handle m.id).1 i }) := by
  rw [ask, hm, ok_bind]
  dsimp only
  rw [Cache.index_handle]
  cases (p.cache.entry m.id).answer m q <;> rfl

theorem Tracked.answered (h : p.Tracked log) (hm : p.mesh ref = .ok m) (q : Query α) :
    ∃ a p', p.ask ref q = .ok (a, p') ∧ q.on ((log.first m.id).seen m q.kind) = .ok a ∧
      p'.Tracked (log ++ [.asked m q.kind]) := by
  have hmem := mem_of_mesh hm
  obtain ⟨a, hon, ha⟩ := answer_of (h.snapshots m.id) (h.whole m hmem) q
  rw [ask_eq p hm, h.entries, ha]
  exact ⟨a, _, rfl, hon, h.asked hmem [q.kind]⟩

end Participant

namespace Logged

variable [Scalar α] [SearchOrder α] {l l' : Logged α}

/-- A table is computed, or there are no meshes for it and nothing happens. -/
theorem step_compute {k : Nat} (hs : l.step (.compute k) = .ok l') : ∃ map,
    l.mapping k = .ok map ∧
    ((∃ map' p', map.compute l.participant = .ok (map', p') ∧
      l' = ⟨p', l.mappings.set k map', l.log ++ map.asking l.participant⟩) ∨
    ((∀ source target, ¬ map.Ready l.participant source target) ∧ l' = l)) := by
  obtain ⟨map, hm, hs⟩ := bind_ok hs
  refine ⟨map, hm, ?_⟩
  cases hc : map.compute l.participant with
  | ok r =>
    rw [hc] at hs
    exact .inl ⟨r.1, r.2, rfl, (Except.ok.inj hs).symm⟩
  | error failure =>
    rw [hc] at hs
    cases failure with
    | fault _ =>
      exact .inr ⟨fun _ _ => Mapping.not_ready_of_fault hc, (Except.ok.inj hs).symm⟩
    | violation _ => cases hs

/-- The log keeps track of the cache in every event. -/
theorem step_tracked (h : l.participant.Tracked l.log) {e : Event α} (he : e.Whole)
    (hs : l.step e = .ok l') : l'.participant.Tracked l'.log := by
  cases e with
  | change ref contents =>
    obtain ⟨m, hm, hs⟩ := bind_ok hs
    obtain rfl := Except.ok.inj hs
    exact h.changed hm rfl ⟨he.ends, he.corners⟩
  | fetch ref =>
    obtain ⟨m, hm, hs⟩ := bind_ok hs
    obtain rfl := Except.ok.inj hs
    rw [withCache, List.append_nil]
    exact h.fetched m.id
  | ask ref q =>
    obtain ⟨m, hm, hs⟩ := bind_ok hs
    obtain ⟨⟨a, p⟩, ha, hs⟩ := bind_ok hs
    obtain rfl := Except.ok.inj hs
    obtain ⟨a', p', ha', -, hp⟩ := h.answered hm q
    obtain ⟨-, rfl⟩ := Prod.mk.inj (Except.ok.inj (ha.symm.trans ha'))
    exact hp
  | drop id =>
    obtain rfl := Except.ok.inj hs
    exact h.cleared id
  | dropAll =>
    obtain rfl := Except.ok.inj hs
    exact h.clearedAll
  | clear k =>
    obtain ⟨map, -, hs⟩ := bind_ok hs
    obtain rfl := Except.ok.inj hs
    exact h.clearing map
  | setMeshes k input output =>
    obtain ⟨map, -, hs⟩ := bind_ok hs
    obtain rfl := Except.ok.inj hs
    exact h.clearing map
  | compute k =>
    obtain ⟨map, -, ⟨map', p', hc, rfl⟩ | ⟨-, rfl⟩⟩ := step_compute hs
    · exact h.computed hc
    · exact h

theorem run_tracked : ∀ {events : List (Event α)} {l : Logged α},
    l.participant.Tracked l.log → (∀ e ∈ events, e.Whole) → l.run events = .ok l' →
      l'.participant.Tracked l'.log := by
  intro events
  induction events with
  | nil =>
    intro l h _ hr
    obtain rfl := Except.ok.inj hr
    exact h
  | cons e es ih =>
    intro l h he hr
    obtain ⟨hfirst, hrest⟩ := List.forall_mem_cons.1 he
    obtain ⟨l₁, hs, hr⟩ := bind_ok hr
    exact ih (step_tracked h hfirst hs) hrest hr

end Logged

/-! ## Two runs side by side -/

namespace Participant

variable {id : MeshId} {p p' : Participant α} {ref : MeshRef} {m : Mesh α}

/-- Two participants with the same meshes, whose caches agree on every mesh but one. -/
structure Beside (id : MeshId) (p p' : Participant α) : Prop where
  sound : p.cache.Sound
  sound' : p'.cache.Sound
  meshes : p'.meshes = p.meshes
  entries : ∀ id', id' ≠ id → p'.cache.entry id' = p.cache.entry id'

namespace Beside

theorem mesh_eq (h : p.Beside id p') (ref : MeshRef) : p'.mesh ref = p.mesh ref := by
  rw [mesh, mesh, h.meshes]

theorem target?_eq (h : p.Beside id p') {map map' : Mapping α}
    (hd : map'.direction = map.direction) : map'.target? p' = map.target? p := by
  unfold Mapping.target?
  rw [hd]
  cases map.direction with
  | error _ => rfl
  | ok ends => exact congrArg Except.toOption (h.mesh_eq ends.2)

theorem ready_iff (h : p.Beside id p') {map map' : Mapping α} {source target : Mesh α}
    (hd : map'.direction = map.direction) : map'.Ready p' source target ↔
      map.Ready p source target := by
  rw [Mapping.Ready, Mapping.Ready, hd]
  simp only [h.mesh_eq]

theorem fetched (h : p.Beside id p') (id' : MeshId) :
    Beside id { p with cache := (p.cache.handle id').2 }
      { p' with cache := (p'.cache.handle id').2 } := by
  refine ⟨h.sound.handle id', h.sound'.handle id', h.meshes, fun id₁ hid₁ => ?_⟩
  rw [Cache.entry_handle _ h.sound', Cache.entry_handle _ h.sound]
  exact h.entries id₁ hid₁

/-- The index of a mesh has answered, and the same in both caches unless it is the one mesh. -/
theorem updated (h : p.Beside id p') (id' : MeshId) {i i' : MeshIndex α}
    (hi : id' ≠ id → i' = i) :
    Beside id
      { p with cache := (p.cache.handle id').2.update (p.cache.handle id').1 i }
      { p' with cache := (p'.cache.handle id').2.update (p'.cache.handle id').1 i' } := by
  refine ⟨(h.sound.handle id').update _ _, (h.sound'.handle id').update _ _, h.meshes,
    fun id₁ hid₁ => ?_⟩
  rw [Cache.entry_update h.sound', Cache.entry_update h.sound]
  split
  next heq => exact hi (heq ▸ hid₁)
  next => exact h.entries id₁ hid₁

theorem cleared (h : p.Beside id p') (id' : MeshId) :
    Beside id { p with cache := p.cache.clear id' } { p' with cache := p'.cache.clear id' } := by
  refine ⟨h.sound.clear id', h.sound'.clear id', h.meshes, fun id₁ hid₁ => ?_⟩
  rw [Cache.entry_clear, Cache.entry_clear, h.entries id₁ hid₁]

theorem clearedAll (h : p.Beside id p') :
    Beside id { p with cache := p.cache.clearAll } { p' with cache := p'.cache.clearAll } :=
  ⟨Cache.sound_of_nil rfl, Cache.sound_of_nil rfl, h.meshes, fun _ _ => rfl⟩

theorem changed (h : p.Beside id p') (ref : MeshRef) (m : Mesh α) :
    Beside id (p.setMesh ref m) (p'.setMesh ref m) :=
  ⟨h.sound, h.sound', congrArg (·.set ref m) h.meshes, h.entries⟩

theorem clearing (h : p.Beside id p') {map map' : Mapping α}
    (hd : map'.direction = map.direction) : Beside id (map.clear p).2 (map'.clear p').2 := by
  rw [Mapping.clear_eq, Mapping.clear_eq, h.target?_eq hd]
  cases map.target? p with
  | none => exact h
  | some m => exact h.cleared m.id

/-- To clear the entry of the one mesh is to leave the others as they are. -/
theorem of_clear (h : p.cache.Sound) (id : MeshId) :
    Beside id p { p with cache := p.cache.clear id } :=
  ⟨h, h.clear id, rfl, fun _ hid' => (Cache.entry_clear _ _ _).trans (if_neg hid')⟩

variable [Scalar α] [SearchOrder α]

/-- The other meshes answer the same. -/
theorem ask_eq (h : p.Beside id p') (hm : p.mesh ref = .ok m) (hid : m.id ≠ id) (q : Query α) :
    (p'.ask ref q).map Prod.fst = (p.ask ref q).map Prod.fst := by
  rw [Participant.ask_eq p hm, Participant.ask_eq p' ((h.mesh_eq ref).trans hm),
    h.entries m.id hid]
  cases (p.cache.entry m.id).answer m q <;> rfl

theorem asked (h : p.Beside id p') {q : Query α} {a a' : Answer α} {p₁ p₁' : Participant α}
    (hp : p.ask ref q = .ok (a, p₁)) (hp' : p'.ask ref q = .ok (a', p₁')) : p₁.Beside id p₁' := by
  obtain ⟨m, hm, -⟩ := bind_ok hp
  rw [Participant.ask_eq p hm] at hp
  rw [Participant.ask_eq p' ((h.mesh_eq ref).trans hm)] at hp'
  obtain ⟨⟨b, i⟩, hi, heq⟩ := map_eq_ok.1 hp
  obtain ⟨⟨b', i'⟩, hi', heq'⟩ := map_eq_ok.1 hp'
  obtain ⟨-, rfl⟩ := Prod.mk.inj heq
  obtain ⟨-, rfl⟩ := Prod.mk.inj heq'
  refine h.updated m.id fun hid => ?_
  rw [h.entries m.id hid, hi] at hi'
  exact (Prod.mk.inj (Except.ok.inj hi')).2.symm

theorem computed (h : p.Beside id p') {map map' map₁ map₁' : Mapping α} {p₁ p₁' : Participant α}
    (hconfig : map'.config = map.config) (hd : map'.direction = map.direction)
    (hc : map.compute p = .ok (map₁, p₁)) (hc' : map'.compute p' = .ok (map₁', p₁')) :
    p₁.Beside id p₁' := by
  obtain ⟨source, target, rows, i, hready, hall, -, rfl⟩ := Mapping.compute_ok hc
  obtain ⟨source', target', rows', i', hready', hall', -, rfl⟩ := Mapping.compute_ok hc'
  obtain ⟨s, t, hst, hs, ht, -⟩ := hready
  obtain ⟨s', t', hst', hs', ht', -⟩ := (h.ready_iff hd).1 hready'
  obtain ⟨rfl, rfl⟩ := Prod.mk.inj (Except.ok.inj (hst.symm.trans hst'))
  obtain rfl := Except.ok.inj (hs.symm.trans hs')
  obtain rfl := Except.ok.inj (ht.symm.trans ht')
  refine h.updated target.id fun hid => ?_
  rw [hconfig, h.entries target.id hid, hall] at hall'
  exact (Prod.mk.inj (Except.ok.inj hall')).2.symm

end Beside

end Participant

namespace Logged

variable {id : MeshId} {l l' l₁ l₁' : Logged α}

/-- Two participants that differ in what the cache knows of one mesh, and in tables. -/
structure Beside (id : MeshId) (l l' : Logged α) : Prop where
  participants : l.participant.Beside id l'.participant
  mappings : l'.mappings.map Mapping.bare = l.mappings.map Mapping.bare

theorem mapping_eq_ok {k : Nat} {map : Mapping α} :
    l.mapping k = .ok map ↔ l.mappings[k]? = some map := by
  unfold mapping
  cases l.mappings[k]? with
  | none => exact ⟨fun h => absurd h (by simp), fun h => absurd h (by simp)⟩
  | some m' => exact ⟨fun h => congrArg some (Except.ok.inj h), fun h =>
      congrArg Except.ok (Option.some.inj h)⟩

namespace Beside

theorem mapping_bare (h : l.Beside id l') {k : Nat} {map map' : Mapping α}
    (hm : l.mapping k = .ok map) (hm' : l'.mapping k = .ok map') : map'.bare = map.bare := by
  have hk := congrArg (·[k]?) h.mappings
  simp only [List.getElem?_map, mapping_eq_ok.1 hm, mapping_eq_ok.1 hm'] at hk
  exact Option.some.inj hk

theorem set_mapping (h : l.Beside id l') {p p' : Participant α} {log log' : Log α}
    (hp : p.Beside id p') (k : Nat) {map map' : Mapping α} (hm : map'.bare = map.bare) :
    Beside id ⟨p, l.mappings.set k map, log⟩ ⟨p', l'.mappings.set k map', log'⟩ := by
  refine ⟨hp, ?_⟩
  show (l'.mappings.set k map').map Mapping.bare = (l.mappings.set k map).map Mapping.bare
  rw [List.map_set, List.map_set, h.mappings, hm]

variable [Scalar α] [SearchOrder α]

/-- An event leaves them side by side. -/
theorem step (h : l.Beside id l') {e : Event α} (hs : l.step e = .ok l₁)
    (hs' : l'.step e = .ok l₁') : l₁.Beside id l₁' := by
  have hp := h.participants
  cases e with
  | change ref contents =>
    obtain ⟨m, hm, hs⟩ := bind_ok hs
    obtain ⟨m', hm', hs'⟩ := bind_ok hs'
    obtain rfl := Except.ok.inj (hm.symm.trans ((hp.mesh_eq ref).symm.trans hm'))
    obtain rfl := Except.ok.inj hs
    obtain rfl := Except.ok.inj hs'
    exact ⟨hp.changed ref _, h.mappings⟩
  | fetch ref =>
    obtain ⟨m, hm, hs⟩ := bind_ok hs
    obtain ⟨m', hm', hs'⟩ := bind_ok hs'
    obtain rfl := Except.ok.inj (hm.symm.trans ((hp.mesh_eq ref).symm.trans hm'))
    obtain rfl := Except.ok.inj hs
    obtain rfl := Except.ok.inj hs'
    exact ⟨hp.fetched m.id, h.mappings⟩
  | ask ref q =>
    obtain ⟨m, -, hs⟩ := bind_ok hs
    obtain ⟨m', -, hs'⟩ := bind_ok hs'
    obtain ⟨⟨a, p⟩, ha, hs⟩ := bind_ok hs
    obtain ⟨⟨a', p'⟩, ha', hs'⟩ := bind_ok hs'
    obtain rfl := Except.ok.inj hs
    obtain rfl := Except.ok.inj hs'
    exact ⟨hp.asked ha ha', h.mappings⟩
  | drop id' =>
    obtain rfl := Except.ok.inj hs
    obtain rfl := Except.ok.inj hs'
    exact ⟨hp.cleared id', h.mappings⟩
  | dropAll =>
    obtain rfl := Except.ok.inj hs
    obtain rfl := Except.ok.inj hs'
    exact ⟨hp.clearedAll, h.mappings⟩
  | clear k =>
    obtain ⟨map, hm, hs⟩ := bind_ok hs
    obtain ⟨map', hm', hs'⟩ := bind_ok hs'
    obtain rfl := Except.ok.inj hs
    obtain rfl := Except.ok.inj hs'
    have hbare := h.mapping_bare hm hm'
    exact h.set_mapping (hp.clearing (Mapping.direction_of_bare hbare)) k
      ((map'.bare_clear _).trans (hbare.trans (map.bare_clear _).symm))
  | setMeshes k input output =>
    obtain ⟨map, hm, hs⟩ := bind_ok hs
    obtain ⟨map', hm', hs'⟩ := bind_ok hs'
    obtain rfl := Except.ok.inj hs
    obtain rfl := Except.ok.inj hs'
    have hbare := h.mapping_bare hm hm'
    refine h.set_mapping (hp.clearing (Mapping.direction_of_bare hbare)) k
      ((map'.bare_setMeshes _ input output).trans ?_)
    rw [hbare]
    exact (map.bare_setMeshes _ input output).symm
  | compute k =>
    obtain ⟨map, hm, hcase⟩ := step_compute hs
    obtain ⟨map', hm', hcase'⟩ := step_compute hs'
    have hbare := h.mapping_bare hm hm'
    have hd := Mapping.direction_of_bare hbare
    -- whether a table is computed does not depend on the cache
    rcases hcase with ⟨map₁, p₁, hc, rfl⟩ | ⟨hnot, rfl⟩ <;>
      rcases hcase' with ⟨map₁', p₁', hc', rfl⟩ | ⟨hnot', rfl⟩
    · refine h.set_mapping (hp.computed (Mapping.config_of_bare hbare) hd hc hc') k ?_
      rw [Mapping.bare_compute hc, Mapping.bare_compute hc', hbare]
    · obtain ⟨source, target, -, -, hready, -⟩ := Mapping.compute_ok hc
      exact absurd ((hp.ready_iff hd).2 hready) (hnot' source target)
    · obtain ⟨source, target, -, -, hready, -⟩ := Mapping.compute_ok hc'
      exact absurd ((hp.ready_iff hd).1 hready) (hnot source target)
    · exact h

theorem run : ∀ {events : List (Event α)} {l l' : Logged α}, l.Beside id l' →
    l.run events = .ok l₁ → l'.run events = .ok l₁' → l₁.Beside id l₁' := by
  intro events
  induction events with
  | nil =>
    intro l l' h hr hr'
    obtain rfl := Except.ok.inj hr
    obtain rfl := Except.ok.inj hr'
    exact h
  | cons e es ih =>
    intro l l' h hr hr'
    obtain ⟨l₂, hs, hr⟩ := bind_ok hr
    obtain ⟨l₂', hs', hr'⟩ := bind_ok hr'
    exact ih (h.step hs hs') hr hr'

end Beside

end Logged

/-! ## Every run -/

/-- The entry of a mesh is cleared, by its ID or with a mapping whose rows refer to it. -/
def Event.Clears (l : Logged α) (id : MeshId) : Event α → Prop
  | .drop id' => id' = id
  | .clear k => ∃ map m, l.mapping k = .ok map ∧ map.target? l.participant = some m ∧ m.id = id
  | _ => False

namespace Logged

variable [Scalar α] [SearchOrder α] {id : MeshId} {l l' : Logged α}

theorem beside_of_clears (h : l.participant.cache.Sound) {e : Event α} (he : e.Clears l id)
    (hs : l.step e = .ok l') : l.Beside id l' := by
  cases e with
  | drop id' =>
    obtain rfl : id' = id := he
    obtain rfl := Except.ok.inj hs
    exact ⟨.of_clear h id', rfl⟩
  | clear k =>
    obtain ⟨map, m, hm, ht, rfl⟩ := he
    obtain ⟨map', hm', hs⟩ := bind_ok hs
    obtain rfl := Except.ok.inj (hm.symm.trans hm')
    have hk := mapping_eq_ok.1 hm
    rw [Mapping.clear_eq, ht] at hs
    obtain rfl := Except.ok.inj hs
    refine ⟨.of_clear h m.id, ?_⟩
    show (l.mappings.set k map.bare).map Mapping.bare = l.mappings.map Mapping.bare
    refine List.ext_getElem? fun i => ?_
    rw [List.getElem?_map, List.getElem?_map, List.getElem?_set]
    split
    next hi =>
      subst hi
      rw [hk, if_pos (List.getElem?_eq_some_iff.1 hk).1]
      rfl
    next => rfl
  | _ => exact he.elim

/-- What the log tells of the answers. -/
structure Faithful (l : Logged α) : Prop where
  /-- The index that is handed out for a mesh, also to compute a table, shows in each kind of tree
  the mesh as it was when the kind was first asked for since the entry was last cleared. -/
  entries : ∀ id, (l.participant.cache.handle id).2.index (l.participant.cache.handle id).1 =
    .of (l.log.first id)
  /-- So this is what every query sees; if its kind has not been asked for, the mesh as it is. -/
  answers : ∀ ref m q, l.participant.mesh ref = .ok m →
    ∃ a p, l.participant.ask ref q = .ok (a, p) ∧
      q.on ((l.log.first m.id).seen m q.kind) = .ok a
  /-- On a mesh that has not changed since its entry was last cleared, it is the mesh as it is: each
  change was followed by a clearing. -/
  current : ∀ ref m q, l.participant.mesh ref = .ok m → l.log.Unchanged m.id →
    ∃ a p, l.participant.ask ref q = .ok (a, p) ∧ q.on m = .ok a
  /-- A table that is computed then is the table of the meshes as they are. -/
  fresh : ∀ ref m, l.participant.mesh ref = .ok m → l.log.Unchanged m.id →
    l.participant.cache.Fresh m
  /-- To clear the entry of another mesh makes no difference, whatever happens afterwards. -/
  apart : ∀ id e events l₁ l₁', e.Clears l id → l.run events = .ok l₁ →
    l.run (e :: events) = .ok l₁' → ∀ ref m q, l₁.participant.mesh ref = .ok m → m.id ≠ id →
      (l₁'.participant.ask ref q).map Prod.fst = (l₁.participant.ask ref q).map Prod.fst

/-- Whatever happens to meshes with different IDs, and to mappings between them, the log tells what
a query sees. -/
theorem run_faithful (meshes : List (Mesh α)) (mappings : List (Mapping α))
    (events : List (Event α)) (l : Logged α) (hids : (meshes.map Mesh.id).Nodup)
    (hwhole : ∀ m ∈ meshes, m.Whole) (hevents : ∀ e ∈ events, e.Whole)
    (h : (new meshes mappings).run events = .ok l) : l.Faithful := by
  have hnew : Participant.Tracked { meshes } ([] : Log α) :=
    ⟨Cache.sound_of_nil rfl, fun _ => rfl, hids, hwhole, fun _ => .nothing, fun _ _ _ => .nothing⟩
  have hl := run_tracked (l := new meshes mappings) hnew hevents h
  refine ⟨fun id => ?_, fun ref m q hm => ?_, fun ref m q hm hsame => ?_,
    fun ref m hm => hl.fresh (Participant.mem_of_mesh hm),
    fun id e es l₁ l₁' he hr hr' ref m q hm hid => ?_⟩
  · rw [Cache.index_handle]
    exact hl.entries id
  · obtain ⟨a, p, ha, hon, -⟩ := hl.answered hm q
    exact ⟨a, p, ha, hon⟩
  · obtain ⟨a, p, ha, hon, -⟩ := hl.answered hm q
    have hseen : ((l.log.first m.id).seen m q.kind).SameGeometry m :=
      (hl.unchanged m (Participant.mem_of_mesh hm) hsame).seen (.refl m) q.kind
    exact ⟨a, p, ha, (hseen.on_eq q).symm.trans hon⟩
  · obtain ⟨l₀, hs, hr'⟩ := bind_ok hr'
    have hbeside := (beside_of_clears hl.cache he hs).run hr hr'
    exact hbeside.participants.ask_eq hm hid q

/-- A mesh of one vertex. -/
def lone (id : MeshId) (x : Double) : Mesh Double :=
  { id, name := "", dimensions := 3, vertices := [{ id := 0, position := ⟨x, 0, 0⟩ }] }

/-- A vertex moves after a table was computed, and is searched before and after the mapping is
cleared. -/
def movedVertex : List (Event Double) :=
  [.setMeshes 0 0 1, .compute 0, .change 0 (lone 7 1), .ask 0 (.vertices ⟨0, 0, 0⟩ 1), .clear 0,
    .ask 0 (.vertices ⟨0, 0, 0⟩ 1)]

theorem run_faithful_movedVertex : ∃ l : Logged Double,
    (new [lone 7 0, lone 8 1] [{ config := { method := .nearestNeighbor } }]).run movedVertex =
      .ok l ∧ l.Faithful := by
  have hwhole (id : MeshId) (x : Double) : (lone id x).Whole :=
    ⟨fun e he => absurd he List.not_mem_nil, fun t ht => absurd ht List.not_mem_nil⟩
  obtain ⟨l, hl⟩ : ∃ l, (new [lone 7 0, lone 8 1]
    [{ config := { method := .nearestNeighbor } }]).run movedVertex = .ok l := ⟨_, rfl⟩
  refine ⟨l, hl, run_faithful _ _ _ l ?_ ?_ ?_ hl⟩
  · show [7, 8].Nodup
    decide
  · exact List.forall_mem_cons.2 ⟨hwhole 7 0, List.forall_mem_singleton.2 (hwhole 8 1)⟩
  · simp [movedVertex, Event.Whole, hwhole]

end Logged

end Cosimulation
