import Cosimulation.Proofs.Data.Rows

/-!
# What an operation may touch

An operation on several blocks of a data map changes what these blocks hold and nothing else: the
map has the same keys before and after, every block keeps its dimension and the lengths of its
iterates, and the other blocks stay as they are. `Within` says so of two maps. It is transitive, so
that a sequence of operations need only be looked at one by one, and each of them comes down to
blocks that are replaced by blocks of the same shape (`Within.of_find?`).

When the last operation was to store the blocks, their iterates agree; then the map is `Stored`.
-/

namespace Cosimulation

variable {α : Type}

/-- The dimension of a block, and the lengths of its iterates. -/
def Block.shape (b : Block α) : Nat × Nat × Nat := (b.dimension, b.values.length, b.old.length)

theorem Vec.length_plusCombination [Scalar α] : ∀ {as : List α} {vs : List (Vec α)} {w u : Vec α},
    Vec.plusCombination w as vs = .ok u → u.length = w.length := by
  intro as
  induction as with
  | nil =>
    intro vs w u h
    rw [Except.ok.inj h]
  | cons a as ih =>
    intro vs w u h
    cases vs with
    | nil => rw [Except.ok.inj h]
    | cons v vs =>
      obtain ⟨w', hw', h⟩ := bind_ok h
      obtain ⟨hl, rfl⟩ := Vec.plusScaled_ok_iff.1 hw'
      exact (ih h).trans (Vec.length_axpy hl a)

/-! ## Changes of one block -/

namespace Block

/-- A change of single blocks that keeps their shape. -/
def Shapely (f : Block α → Except (Violation α) (Block α)) : Prop :=
  ∀ b b', f b = .ok b' → b'.shape = b.shape

theorem shapely_relax [Scalar α] (ω : α) : Shapely (Block.relax ω) := by
  intro b b' h
  obtain ⟨r, hr, h⟩ := bind_ok h
  obtain ⟨values, hv, h⟩ := bind_ok h
  obtain rfl := Except.ok.inj h
  obtain ⟨hl, rfl⟩ := Vec.minus_ok_iff.1 hr
  obtain ⟨hrl, rfl⟩ := Vec.plusScaled_ok_iff.1 hv
  have hkeep : (Vec.axpy ω (Vec.sub b.values b.old) b.old).length = b.values.length :=
    (Vec.length_axpy hrl ω).trans hl.symm
  show (b.dimension, _, b.old.length) = (b.dimension, _, b.old.length)
  rw [hkeep]

theorem shapely_store : Shapely (Block.store (α := α)) := by
  intro b b' h
  obtain ⟨old, ho, h⟩ := bind_ok h
  obtain rfl := Except.ok.inj h
  unfold Vec.overwrite at ho
  split at ho
  next hl =>
    obtain rfl := Except.ok.inj ho
    show (b.dimension, b.values.length, _) = (b.dimension, b.values.length, _)
    rw [hl]
  next => cases ho

end Block

namespace DataMap

/-! ## Changes of several blocks -/

/-- The shape of a block. -/
def shapeOf (m : DataMap α) (id : DataId) : Option (Nat × Nat × Nat) :=
  (m.find? id).map Block.shape

/-- The blocks have kept their shapes, and at most some of them have new contents. -/
structure Within (ids : List DataId) (m m' : DataMap α) : Prop where
  shapes : ∀ id, m'.shapeOf id = m.shapeOf id
  others : ∀ id ∉ ids, m'.find? id = m.find? id

variable {ids js : List DataId} {m m' m'' : DataMap α}

namespace Within

theorem refl (ids : List DataId) (m : DataMap α) : Within ids m m := ⟨fun _ => rfl, fun _ _ => rfl⟩

theorem trans (h : Within ids m m') (h' : Within ids m' m'') : Within ids m m'' :=
  ⟨fun id => (h'.shapes id).trans (h.shapes id),
    fun id hid => (h'.others id hid).trans (h.others id hid)⟩

/-- One block gave way to another of its shape. -/
theorem of_find? {id : DataId} {b b' : Block α} (hid : id ∈ ids) (hb : m.find? id = some b)
    (hshape : b'.shape = b.shape)
    (hfind : ∀ j, m'.find? j = if j = id then some b' else m.find? j) : Within ids m m' := by
  refine ⟨fun j => ?_, fun j hj => (hfind j).trans (if_neg fun h : j = id => hj (h ▸ hid))⟩
  rw [shapeOf, shapeOf, hfind]
  split
  next hj => rw [hj, hb, Option.map_some, Option.map_some, hshape]
  next => rfl

theorem contains_eq (h : Within ids m m') (id : DataId) : m'.contains id = m.contains id := by
  have hshape := congrArg Option.isSome (h.shapes id)
  rwa [shapeOf, shapeOf, Option.isSome_map, Option.isSome_map] at hshape

theorem keys (h : Within ids m m') : m'.keys = m.keys := by
  have : Std.Antisymm fun i j : Nat => i < j := ⟨fun _ _ hij hji => absurd hij (Nat.lt_asymm hji)⟩
  have : Std.Irrefl fun i j : Nat => i < j := ⟨fun _ => Nat.lt_irrefl _⟩
  refine List.Pairwise.eq_of_mem_iff m'.ascending m.ascending fun id => ?_
  show id ∈ m'.keys ↔ id ∈ m.keys
  rw [← OrderedMap.contains_iff_mem_keys, ← OrderedMap.contains_iff_mem_keys, h.contains_eq]

end Within

/-- A block that is changed in its shape. -/
theorem modify_within {f : Block α → Except (Violation α) (Block α)} (hf : Block.Shapely f)
    {id : DataId} (hid : id ∈ ids) (h : m.modify id f = .ok m') : Within ids m m' := by
  obtain ⟨b, b', hb, hb', hfind⟩ := modify_ok h
  exact .of_find? hid hb (hf b b' hb') hfind

theorem modifyAll_within {f : Block α → Except (Violation α) (Block α)} (hf : Block.Shapely f) :
    ∀ {js : List DataId} {m m' : DataMap α}, js ⊆ ids → m.modifyAll f js = .ok m' →
      Within ids m m' := by
  intro js
  induction js with
  | nil =>
    intro m m' _ h
    obtain rfl := Except.ok.inj h
    exact .refl ids m
  | cons id js ih =>
    intro m m' hjs h
    obtain ⟨m₁, h₁, h⟩ := bind_ok h
    exact (modify_within hf (hjs List.mem_cons_self) h₁).trans
      (ih (fun j hj => hjs (List.mem_cons_of_mem _ hj)) h)

/-- Pieces of a stacked vector are as long as the values they replace. -/
theorem unstack_within : ∀ {js : List DataId} {m m' : DataMap α} {v : Vec α}, js ⊆ ids →
    m.unstack v js = .ok m' → Within ids m m' := by
  intro js
  induction js with
  | nil =>
    intro m m' v _ h
    obtain rfl := Except.ok.inj h
    exact .refl ids m
  | cons id js ih =>
    intro m m' v hjs h
    unfold unstack at h
    split at h
    next => cases h
    next b hb =>
      split at h
      next hsize =>
        refine .trans (.of_find? (hjs List.mem_cons_self) hb ?_ fun j =>
          OrderedMap.find?_insert m id j _) (ih (fun j hj => hjs (List.mem_cons_of_mem _ hj)) h)
        show (b.dimension, (v.take b.size).length, b.old.length) = b.shape
        rw [List.length_take_of_le hsize]
        rfl
      next => cases h

/-! ## Stored blocks -/

/-- Some blocks have new contents, and both their iterates are the same; everything else is as it
was. -/
structure Stored (ids : List DataId) (m m' : DataMap α) : Prop where
  keys : m'.keys = m.keys
  shapes : ∀ id, m'.shapeOf id = m.shapeOf id
  stored : ∀ id ∈ ids, ∃ b, m'.find? id = some b ∧ b.values = b.old
  others : ∀ id ∉ ids, m'.find? id = m.find? id

/-- Blocks that were changed are there. -/
theorem contains_of_modifyAll {f : Block α → Except (Violation α) (Block α)}
    (hf : Block.Shapely f) : ∀ {ids : List DataId} {m m' : DataMap α},
      m.modifyAll f ids = .ok m' → ∀ id ∈ ids, m'.contains id := by
  intro ids
  induction ids with
  | nil => exact fun _ _ h => absurd h List.not_mem_nil
  | cons id ids ih =>
    intro m m' h
    obtain ⟨m₁, h₁, h⟩ := bind_ok h
    refine List.forall_mem_cons.2 ⟨?_, ih h⟩
    obtain ⟨b, b', -, -, hfind⟩ := modify_ok h₁
    rw [(modifyAll_within hf (List.Subset.refl ids) h).contains_eq, OrderedMap.contains, hfind,
      if_pos rfl]
    rfl

theorem Within.stored (h : Within ids m m') (hs : m'.store ids = .ok m'') : Stored ids m m'' := by
  have hall := h.trans (modifyAll_within Block.shapely_store (List.Subset.refl ids) hs)
  refine ⟨hall.keys, hall.shapes, fun id hid => ?_, hall.others⟩
  have hsame := (store_ok hs).2 id (.inl hid)
  obtain ⟨b, hb⟩ := Option.isSome_iff_exists.1
    (contains_of_modifyAll Block.shapely_store hs id hid)
  exact ⟨b, hb, by rw [← valuesOf_eq hb, ← oldOf_eq hb, hsame]⟩

end DataMap

end Cosimulation
