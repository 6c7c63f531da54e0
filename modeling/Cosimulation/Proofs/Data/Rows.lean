import Mathlib.Data.List.Sort
import Cosimulation.Proofs.Data.Blocks
import Cosimulation.Proofs.Exact.Relaid

/-!
# The rows of stacked blocks

A row of a stacked vector belongs to a block and has a position in it, and `blockRows` lists these
labels in the order in which blocks are stacked. A stacked vector is then a quantity of the labels
(`stacked_eq_map`); its segments are the parts that belong to the blocks (`segments_map`), and a
vector that is constant on each block depends on the first label alone (`spread_map`).

Blocks stacked in another order give a relaid vector (`relaid_stacked`), and the way back forgets
the order: unstacking relaid vectors, or changing several blocks one after the other, leaves one and
the same map (`unstack_perm`, `modifyAll_perm`). Both are read off from what the map says of each
ID, which is all there is to a map (`OrderedMap.ext_find?`).
-/

namespace Cosimulation

/-! ## Maps with the same entries -/

namespace OrderedMap

variable {β : Type}

theorem mem_of_lookup {es : List (Nat × β)} {k : Nat} {b : β} (h : es.lookup k = some b) :
    (k, b) ∈ es := by
  induction es with
  | nil => cases h
  | cons e es ih =>
    rw [lookup_cons_eq_ite] at h
    split at h
    next hk =>
      rw [hk, ← Option.some.inj h]
      exact List.mem_cons_self
    next => exact List.mem_cons_of_mem _ (ih h)

/-- Entries of different keys are found in any order. -/
theorem lookup_perm {es es' : List (Nat × β)} (h : es.Perm es') (hnodup : (es.map Prod.fst).Nodup)
    (k : Nat) : es'.lookup k = es.lookup k := by
  refine Option.ext fun b => ⟨fun hb => ?_, fun hb => ?_⟩
  · exact lookup_of_mem hnodup (h.mem_iff.2 (mem_of_lookup hb))
  · exact lookup_of_mem ((h.map Prod.fst).nodup hnodup) (h.mem_iff.1 (mem_of_lookup hb))

theorem mem_entries_iff {m : OrderedMap β} {e : Nat × β} :
    e ∈ m.entries ↔ m.find? e.1 = some e.2 :=
  ⟨find?_of_mem, mem_of_lookup⟩

/-- A map is what it says of each key. -/
theorem ext_find? {m m' : OrderedMap β} (h : ∀ k, m.find? k = m'.find? k) : m = m' := by
  have hentries : m.entries = m'.entries := by
    let before (d e : Nat × β) : Prop := d.1 < e.1
    have : Std.Antisymm before := ⟨fun _ _ hde hed => absurd hde (Nat.lt_asymm hed)⟩
    have : Std.Irrefl before := ⟨fun _ => Nat.lt_irrefl _⟩
    refine List.Pairwise.eq_of_mem_iff (r := before) (List.pairwise_map.1 m.ascending)
      (List.pairwise_map.1 m'.ascending) fun e => ?_
    rw [mem_entries_iff, mem_entries_iff, h]
  obtain ⟨_, _⟩ := m
  obtain ⟨_, _⟩ := m'
  subst hentries
  rfl

end OrderedMap

/-! ## Labels -/

/-- The labels of the rows of stacked blocks: the block, and the position in it. -/
def blockRows (size : DataId → Nat) (ids : List DataId) : List (DataId × Nat) :=
  ids.flatMap fun id => (List.range (size id)).map (Prod.mk id)

/-- The part of a quantity of the rows that belongs to a block. -/
def part {β : Type} (size : DataId → Nat) (g : DataId × Nat → β) (id : DataId) : List β :=
  (List.range (size id)).map fun i => g (id, i)

section
variable {β : Type} {size : DataId → Nat} {ids ids' : List DataId} {g : DataId × Nat → β}

theorem mem_of_mem_blockRows {k : DataId × Nat} (h : k ∈ blockRows size ids) : k.1 ∈ ids := by
  obtain ⟨id, hid, hk⟩ := List.mem_flatMap.1 h
  obtain ⟨i, -, rfl⟩ := List.mem_map.1 hk
  exact hid

theorem blockRows_perm (h : ids.Perm ids') : (blockRows size ids).Perm (blockRows size ids') :=
  h.flatMap_right _

@[simp]
theorem length_part (size : DataId → Nat) (g : DataId × Nat → β) (id : DataId) :
    (part size g id).length = size id := by
  rw [part, List.length_map, List.length_range]

theorem map_blockRows (size : DataId → Nat) (g : DataId × Nat → β) (ids : List DataId) :
    (blockRows size ids).map g = ids.flatMap (part size g) := by
  rw [blockRows, List.map_flatMap]
  simp only [List.map_map]
  rfl

theorem map_blockRows_cons (size : DataId → Nat) (g : DataId × Nat → β) (id : DataId)
    (ids : List DataId) :
    (blockRows size (id :: ids)).map g = part size g id ++ (blockRows size ids).map g := by
  rw [map_blockRows, map_blockRows, List.flatMap_cons]

@[simp]
theorem length_blockRows (size : DataId → Nat) (ids : List DataId) :
    (blockRows size ids).length = (ids.map size).sum := by
  rw [blockRows, List.length_flatMap]
  simp

theorem part_getD [Zero β] {f : DataId → List β} {id : DataId} (h : (f id).length = size id) :
    part size (fun k => (f k.1)[k.2]?.getD 0) id = f id := by
  refine List.ext_getElem ((length_part _ _ _).trans h.symm) fun i _ hi => ?_
  simp only [part, List.getElem_map, List.getElem_range, List.getElem?_eq_getElem hi,
    Option.getD_some]

/-- Blocks of the given lengths, joined, are a quantity of the rows. -/
theorem flatMap_eq_map [Zero β] {f : DataId → List β} (h : ∀ id ∈ ids, (f id).length = size id) :
    ids.flatMap f = (blockRows size ids).map fun k => (f k.1)[k.2]?.getD 0 := by
  rw [map_blockRows, List.flatMap_def, List.flatMap_def]
  exact congrArg List.flatten (List.map_congr_left fun id hid => (part_getD (h id hid)).symm)

/-- Joined blocks of the given lengths are cut into the blocks again. -/
theorem segments_flatMap {f : DataId → List β} : ∀ {ids : List DataId},
    (∀ id ∈ ids, (f id).length = size id) →
      Vec.segments (ids.flatMap f) (ids.map size) = .ok (ids.map f) := by
  intro ids
  induction ids with
  | nil => intro _; rfl
  | cons id ids ih =>
    intro h
    obtain ⟨hid, hids⟩ := List.forall_mem_cons.1 h
    rw [List.flatMap_cons, List.map_cons, Vec.segments,
      if_pos (by rw [List.length_append, hid]; omega), List.drop_left' hid, ih hids,
      List.take_left' hid]
    rfl

theorem segments_map (g : DataId × Nat → β) (ids : List DataId) :
    Vec.segments ((blockRows size ids).map g) (ids.map size) = .ok (ids.map (part size g)) := by
  rw [map_blockRows]
  exact segments_flatMap fun id _ => length_part size g id

theorem spread_map (ω : DataId → β) : ∀ ids : List DataId,
    Vec.spread (ids.map size) (ids.map ω) = (blockRows size ids).map fun k => ω k.1 := by
  intro ids
  induction ids with
  | nil => rfl
  | cons id ids ih =>
    have hpart : part size (fun k => ω k.1) id = List.replicate (size id) (ω id) := by
      simp only [part, List.map_const', List.length_range]
    rw [map_blockRows_cons, ← ih, hpart]
    rfl

end

namespace DataMap

variable {α : Type}

/-! ## The blocks that an operation leaves -/

section
variable {size : DataId → Nat} {g : DataId × Nat → α}

/-- Unstacking gives each block its part. -/
theorem find?_unstack_map : ∀ {ids : List DataId} {m m' : DataMap α}, ids.Nodup →
    (∀ id ∈ ids, (m.valuesOf id).length = size id) →
    m.unstack ((blockRows size ids).map g) ids = .ok m' → ∀ j, m'.find? j =
      if j ∈ ids then (m.find? j).map fun b => { b with values := part size g j }
      else m.find? j := by
  intro ids
  induction ids with
  | nil =>
    intro m m' _ _ h j
    obtain rfl := Except.ok.inj h
    exact (if_neg List.not_mem_nil).symm
  | cons id ids ih =>
    intro m m' hnodup hl h j
    obtain ⟨hid, hids⟩ := List.nodup_cons.1 hnodup
    unfold unstack at h
    split at h
    next => cases h
    next b hb =>
      have hsize : b.size = size id := by
        rw [← hl id List.mem_cons_self, valuesOf_eq hb]
        rfl
      rw [map_blockRows_cons] at h
      split at h
      next =>
        dsimp only at h
        rw [hsize, List.take_left' (length_part _ _ _), List.drop_left' (length_part _ _ _)] at h
        have hother : ∀ k ∈ ids, OrderedMap.find? (m.insert id { b with values := part size g id })
            k = m.find? k := fun k hk => by
          rw [OrderedMap.find?_insert, if_neg fun hki : k = id => hid (hki ▸ hk)]
        have hrest : ∀ k ∈ ids, (valuesOf (OrderedMap.insert m id
            { b with values := part size g id }) k).length = size k := fun k hk => by
          rw [valuesOf_congr (hother k hk)]
          exact hl k (List.mem_cons_of_mem _ hk)
        rw [ih hids hrest h j]
        -- the first block is not among the others, so what it got stays
        by_cases hj : j ∈ ids
        · rw [if_pos hj, if_pos (List.mem_cons_of_mem _ hj), hother j hj]
        · rw [if_neg hj, OrderedMap.find?_insert]
          by_cases hji : j = id
          · rw [if_pos hji, if_pos (hji ▸ List.mem_cons_self), hji, hb]
            rfl
          · rw [if_neg hji, if_neg fun hm => (List.mem_cons.1 hm).elim hji hj]
      next => cases h

/-- The blocks that are asked for are changed, the others are not. -/
theorem find?_modifyAll {f : Block α → Except (Violation α) (Block α)} :
    ∀ {ids : List DataId} {m m' : DataMap α}, ids.Nodup → m.modifyAll f ids = .ok m' →
      (∀ j ∈ ids, ∃ b b', m.find? j = some b ∧ f b = .ok b' ∧ m'.find? j = some b') ∧
        ∀ j ∉ ids, m'.find? j = m.find? j := by
  intro ids
  induction ids with
  | nil =>
    intro m m' _ h
    obtain rfl := Except.ok.inj h
    exact ⟨fun j hj => absurd hj List.not_mem_nil, fun _ _ => rfl⟩
  | cons id ids ih =>
    intro m m' hnodup h
    obtain ⟨hid, hids⟩ := List.nodup_cons.1 hnodup
    obtain ⟨m₁, h₁, h⟩ := bind_ok h
    obtain ⟨b, b', hb, hb', hfind⟩ := modify_ok h₁
    obtain ⟨hin, hout⟩ := ih hids h
    refine ⟨fun j hj => ?_, fun j hj => ?_⟩
    · rcases List.mem_cons.1 hj with rfl | hj
      · exact ⟨b, b', hb, hb', (hout j hid).trans ((hfind j).trans (if_pos rfl))⟩
      · obtain ⟨c, c', hc, hc', hm⟩ := hin j hj
        exact ⟨c, c', ((hfind j).trans (if_neg fun h : j = id => hid (h ▸ hj))).symm.trans hc, hc',
          hm⟩
    · rw [List.mem_cons, not_or] at hj
      exact (hout j hj.2).trans ((hfind j).trans (if_neg hj.1))

/-- A block that is relaxed and stored holds the relaxed values as both iterates. -/
theorem relax_store_ok [Scalar α] {ids : List DataId} (hnodup : ids.Nodup)
    {m relaxed stored : DataMap α} {ω : α} (hrelax : m.relax ids ω = .ok relaxed)
    (hstore : relaxed.store ids = .ok stored) {id : DataId} (hid : id ∈ ids) :
    stored.valuesOf id = Vec.axpy ω ((m.valuesOf id).sub (m.oldOf id)) (m.oldOf id) ∧
      stored.oldOf id = stored.valuesOf id := by
  obtain ⟨hvalues, hold⟩ := store_ok hstore
  obtain ⟨b, b', hb, hmove, hmoved⟩ := (find?_modifyAll hnodup hrelax).1 id hid
  refine ⟨?_, hold id (.inl hid)⟩
  rw [hvalues, valuesOf_eq hmoved, valuesOf_eq hb, oldOf_eq hb]
  obtain ⟨r, hr, hmove⟩ := bind_ok hmove
  obtain ⟨values, hv, hmove⟩ := bind_ok hmove
  obtain rfl := Except.ok.inj hmove
  obtain ⟨-, rfl⟩ := Vec.minus_ok_iff.1 hr
  exact (Vec.plusScaled_ok_iff.1 hv).2

variable {ids ids' : List DataId} {m m₁ m₂ : DataMap α}

/-- The order in which blocks are stacked leaves no trace. -/
theorem unstack_perm (hp : ids.Perm ids') (hnodup : ids.Nodup)
    (hl : ∀ id ∈ ids, (m.valuesOf id).length = size id)
    (h₁ : m.unstack ((blockRows size ids).map g) ids = .ok m₁)
    (h₂ : m.unstack ((blockRows size ids').map g) ids' = .ok m₂) : m₁ = m₂ := by
  refine OrderedMap.ext_find? fun j => ?_
  rw [find?_unstack_map hnodup hl h₁ j,
    find?_unstack_map (hp.nodup_iff.1 hnodup) (fun id hid => hl id (hp.mem_iff.2 hid)) h₂ j]
  simp only [hp.mem_iff]

/-- Nor does the order in which blocks are changed. -/
theorem modifyAll_perm {f : Block α → Except (Violation α) (Block α)} (hp : ids.Perm ids')
    (hnodup : ids.Nodup) (h₁ : m.modifyAll f ids = .ok m₁) (h₂ : m.modifyAll f ids' = .ok m₂) :
    m₁ = m₂ := by
  obtain ⟨hin₁, hout₁⟩ := find?_modifyAll hnodup h₁
  obtain ⟨hin₂, hout₂⟩ := find?_modifyAll (hp.nodup_iff.1 hnodup) h₂
  refine OrderedMap.ext_find? fun j => ?_
  by_cases hj : j ∈ ids
  · obtain ⟨b, b', hb, hb', hm⟩ := hin₁ j hj
    obtain ⟨c, c', hc, hc', hm'⟩ := hin₂ j (hp.mem_iff.1 hj)
    obtain rfl := Option.some.inj (hb.symm.trans hc)
    rw [hm, hm', ← Except.ok.inj (hb'.symm.trans hc')]
  · rw [hout₁ j hj, hout₂ j fun h => hj (hp.mem_iff.2 h)]

end

/-! ## Stacking in two orders -/

section
variable {size : DataId → Nat} {ids ids' : List DataId} {m : DataMap ℝ}

theorem stacked_eq_map (h : ∀ id ∈ ids, (m.valuesOf id).length = size id) :
    m.stacked ids = (blockRows size ids).map fun k => (m.valuesOf k.1)[k.2]?.getD 0 :=
  flatMap_eq_map h

theorem relaid_stacked (hp : ids.Perm ids') (h : ∀ id ∈ ids, (m.valuesOf id).length = size id) :
    Relaid (blockRows size ids) (blockRows size ids') 1 (m.stacked ids) (m.stacked ids') := by
  refine ⟨_, stacked_eq_map h, ?_⟩
  simp only [one_mul]
  exact stacked_eq_map fun id hid => h id (hp.mem_iff.2 hid)

theorem relaid_stackedOld (hp : ids.Perm ids') (h : ∀ id ∈ ids, (m.oldOf id).length = size id) :
    Relaid (blockRows size ids) (blockRows size ids') 1 (m.stackedOld ids)
      (m.stackedOld ids') := by
  refine ⟨fun k => (m.oldOf k.1)[k.2]?.getD 0, flatMap_eq_map h, ?_⟩
  simp only [one_mul]
  exact flatMap_eq_map fun id hid => h id (hp.mem_iff.2 hid)

/-- What the values differ by from the previous ones, stacked in two orders. -/
theorem relaid_residual (hp : ids.Perm ids')
    (h : ∀ id ∈ ids, m.Paired id ∧ (m.valuesOf id).length = size id) :
    Relaid (blockRows size ids) (blockRows size ids') 1
      ((m.stacked ids).sub (m.stackedOld ids)) ((m.stacked ids').sub (m.stackedOld ids')) :=
  (relaid_stacked hp fun id hid => (h id hid).2).sub
    (relaid_stackedOld hp fun id hid => (h id hid).1.length_eq.symm.trans (h id hid).2)

/-- Unstacking relaid vectors. -/
theorem unstack_relaid {v v' : Vec ℝ} {m₁ m₂ : DataMap ℝ} (hp : ids.Perm ids')
    (hnodup : ids.Nodup) (hl : ∀ id ∈ ids, (m.valuesOf id).length = size id)
    (hv : Relaid (blockRows size ids) (blockRows size ids') 1 v v') (h₁ : m.unstack v ids = .ok m₁)
    (h₂ : m.unstack v' ids' = .ok m₂) : m₁ = m₂ := by
  obtain ⟨g, rfl, rfl⟩ := hv
  simp only [one_mul] at h₂
  exact unstack_perm hp hnodup hl h₁ h₂

end

end DataMap

end Cosimulation
