import Mathlib.Algebra.Ring.Nat
import Cosimulation.Data.DataMap

/-!
# What operations on data maps ask for and do

The checks on a data map amount to properties of its blocks (`requireAll_ok_iff`,
`checkSizes_ok_iff`, `stack_ok_iff`): a block has to be there, or to be there with two iterates of
one length (`Paired`). On paired blocks the operations that rewrite values succeed and change no
length, whichever blocks they are given and however often (`modifyAll_total`, `unstack_total`).
-/

namespace Cosimulation

variable {α : Type}

theorem Block.checkSizes_ok_iff (b : Block α) {id : DataId} :
    b.checkSizes id = .ok () ↔ b.values.length = b.old.length := by
  unfold Block.checkSizes
  split
  next h => exact ⟨fun _ => h, fun _ => rfl⟩
  next h => exact ⟨fun h' => (nomatch h'), fun h' => absurd h' h⟩

/-- Joined lists, combined entry by entry. -/
theorem zipWith_flatMap {ι β γ δ : Type} (h : β → γ → δ) {f : ι → List β} {g : ι → List γ}
    {is : List ι} (hl : ∀ i ∈ is, (f i).length = (g i).length) :
    (is.flatMap f).zipWith h (is.flatMap g) = is.flatMap fun i => (f i).zipWith h (g i) := by
  induction is with
  | nil => rfl
  | cons i is ih =>
    obtain ⟨hi, his⟩ := List.forall_mem_cons.1 hl
    rw [List.flatMap_cons, List.flatMap_cons, List.flatMap_cons, List.zipWith_append hi, ih his]

namespace DataMap

/-- The previous values of a block; none for one that is missing. -/
def oldOf (m : DataMap α) (id : DataId) : Vec α := ((m.find? id).map Block.old).getD []

/-- The values of several blocks, joined. -/
def stacked (m : DataMap α) (ids : List DataId) : Vec α := ids.flatMap m.valuesOf

/-- The previous values of several blocks, joined. -/
def stackedOld (m : DataMap α) (ids : List DataId) : Vec α := ids.flatMap m.oldOf

/-- A block is there, and its iterates have one length. -/
def Paired (m : DataMap α) (id : DataId) : Prop :=
  ∃ b, m.find? id = some b ∧ b.values.length = b.old.length

theorem valuesOf_eq {m : DataMap α} {id : DataId} {b : Block α} (h : m.find? id = some b) :
    m.valuesOf id = b.values := by
  rw [valuesOf, h]
  rfl

theorem oldOf_eq {m : DataMap α} {id : DataId} {b : Block α} (h : m.find? id = some b) :
    m.oldOf id = b.old := by
  rw [oldOf, h]
  rfl

theorem Paired.length_eq {m : DataMap α} {id : DataId} (h : m.Paired id) :
    (m.valuesOf id).length = (m.oldOf id).length := by
  obtain ⟨b, hb, hl⟩ := h
  rw [valuesOf_eq hb, oldOf_eq hb, hl]

/-- Joined blocks are as long as the blocks together. -/
theorem length_stacked (m : DataMap α) (ids : List DataId) :
    (m.stacked ids).length = (ids.map fun id => (m.valuesOf id).length).sum := List.length_flatMap

theorem length_stackedOld {m : DataMap α} {ids : List DataId} (h : ∀ id ∈ ids, m.Paired id) :
    (m.stackedOld ids).length = (m.stacked ids).length := by
  rw [stackedOld, stacked, List.length_flatMap, List.length_flatMap]
  exact congrArg List.sum (List.map_congr_left fun id hid => (h id hid).length_eq.symm)

/-- The lengths of the two iterates of a block. -/
def lengths (m : DataMap α) (id : DataId) : Option (Nat × Nat) :=
  (m.find? id).map fun b => (b.values.length, b.old.length)

theorem paired_iff {m : DataMap α} {id : DataId} :
    m.Paired id ↔ ∃ n, m.lengths id = some (n, n) := by
  rw [Paired, lengths]
  cases m.find? id with
  | none => exact ⟨fun ⟨_, h, _⟩ => (nomatch h), fun ⟨_, h⟩ => nomatch h⟩
  | some b =>
    constructor
    · rintro ⟨c, h, hl⟩
      obtain rfl := Option.some.inj h
      exact ⟨b.values.length, by rw [Option.map_some, ← hl]⟩
    · rintro ⟨n, h⟩
      obtain ⟨h1, h2⟩ := Prod.mk.inj (Option.some.inj h)
      exact ⟨b, rfl, h1.trans h2.symm⟩

theorem Paired.lengths_eq {m : DataMap α} {id : DataId} (h : m.Paired id) :
    m.lengths id = some ((m.valuesOf id).length, (m.valuesOf id).length) := by
  obtain ⟨b, hb, hl⟩ := h
  rw [lengths, hb, valuesOf_eq hb, Option.map_some, ← hl]

theorem length_valuesOf (m : DataMap α) (id : DataId) :
    (m.valuesOf id).length = ((m.lengths id).map Prod.fst).getD 0 := by
  rw [valuesOf, lengths]
  cases m.find? id <;> rfl

theorem Paired.congr {m m' : DataMap α} {id : DataId} (h : m.Paired id)
    (hl : m'.lengths id = m.lengths id) : m'.Paired id := by
  rw [paired_iff, hl]
  exact paired_iff.1 h

/-- Replacing a block by one of the same lengths changes no length. -/
theorem lengths_insert {m : DataMap α} {id : DataId} {b b' : Block α} (hb : m.find? id = some b)
    (hv : b'.values.length = b.values.length) (ho : b'.old.length = b.old.length) (j : DataId) :
    DataMap.lengths (m.insert id b') j = m.lengths j := by
  rw [lengths, OrderedMap.find?_insert, lengths]
  split
  next hj =>
    rw [hj, hb, Option.map_some, Option.map_some, hv, ho]
  next => rfl

/-! ## The checks -/

theorem require_ok_iff {m : DataMap α} {id : DataId} {b : Block α} :
    m.require id = .ok b ↔ m.find? id = some b := by
  unfold require
  cases m.find? id with
  | none => exact ⟨fun h => (nomatch h), fun h => nomatch h⟩
  | some c =>
    exact ⟨fun h => congrArg some (Except.ok.inj h), fun h => congrArg _ (Option.some.inj h)⟩

theorem requireAll_ok_iff {m : DataMap α} {ids : List DataId} :
    m.requireAll ids = .ok () ↔ ∀ id ∈ ids, m.contains id := by
  induction ids with
  | nil => exact ⟨fun _ _ h => absurd h List.not_mem_nil, fun _ => rfl⟩
  | cons id ids ih =>
    rw [List.forall_mem_cons, ← ih, requireAll, OrderedMap.contains, require]
    cases hid : m.find? id with
    | none => exact ⟨fun h => (nomatch h), fun h => nomatch h.1⟩
    | some b => exact ⟨fun h => ⟨rfl, h⟩, fun h => h.2⟩

theorem checkSizes_ok_iff {m : DataMap α} {ids : List DataId} :
    m.checkSizes ids = .ok () ↔ ∀ id ∈ ids, m.Paired id := by
  induction ids with
  | nil => exact ⟨fun _ _ h => absurd h List.not_mem_nil, fun _ => rfl⟩
  | cons id ids ih =>
    rw [List.forall_mem_cons, ← ih]
    constructor
    · intro h
      obtain ⟨b, hb, h⟩ := bind_ok h
      obtain ⟨⟨⟩, hs, h⟩ := bind_ok h
      exact ⟨⟨b, require_ok_iff.1 hb, b.checkSizes_ok_iff.1 hs⟩, h⟩
    · rintro ⟨⟨b, hb, hs⟩, h⟩
      rw [checkSizes, require_ok_iff.2 hb]
      show b.checkSizes id >>= _ = _
      rw [b.checkSizes_ok_iff.2 hs]
      exact h

theorem stack_ok_iff {m : DataMap α} {ids : List DataId} {values old : Vec α} :
    m.stack ids = .ok (values, old) ↔
      (∀ id ∈ ids, m.Paired id) ∧ values = m.stacked ids ∧ old = m.stackedOld ids := by
  induction ids generalizing values old with
  | nil =>
    constructor
    · intro h
      obtain ⟨rfl, rfl⟩ := Prod.mk.inj (Except.ok.inj h)
      exact ⟨fun _ h => absurd h List.not_mem_nil, rfl, rfl⟩
    · rintro ⟨-, rfl, rfl⟩
      rfl
  | cons id ids ih =>
    rw [List.forall_mem_cons]
    constructor
    · intro h
      obtain ⟨b, hb, h⟩ := bind_ok h
      obtain ⟨⟨⟩, hs, h⟩ := bind_ok h
      obtain ⟨⟨v, o⟩, hvo, h⟩ := bind_ok h
      obtain ⟨rfl, rfl⟩ := Prod.mk.inj (Except.ok.inj h)
      obtain ⟨hall, rfl, rfl⟩ := ih.1 hvo
      have hf := require_ok_iff.1 hb
      refine ⟨⟨⟨b, hf, b.checkSizes_ok_iff.1 hs⟩, hall⟩, ?_, ?_⟩
      · rw [← valuesOf_eq hf]
        rfl
      · rw [← oldOf_eq hf]
        rfl
    · rintro ⟨⟨⟨b, hb, hs⟩, hall⟩, rfl, rfl⟩
      rw [stack, require_ok_iff.2 hb]
      show b.checkSizes id >>= _ = _
      rw [b.checkSizes_ok_iff.2 hs]
      show m.stack ids >>= _ = _
      rw [ih.2 ⟨hall, rfl, rfl⟩]
      show Except.ok (b.values ++ m.stacked ids, b.old ++ m.stackedOld ids) = _
      rw [← valuesOf_eq hb, ← oldOf_eq hb]
      rfl

/-- Where all blocks are present, the check fails on the iterates of one of them. -/
theorem checkSizes_error {m : DataMap α} {fault : Fault α} {ids : List DataId}
    (hall : ∀ id ∈ ids, m.contains id) (h : m.checkSizes ids = .error fault) :
    ∃ id b, m.find? id = some b ∧ b.checkSizes id = .error fault := by
  induction ids with
  | nil => cases h
  | cons id ids ih =>
    obtain ⟨hid, hall⟩ := List.forall_mem_cons.1 hall
    obtain ⟨b, hb⟩ := Option.isSome_iff_exists.1 hid
    rw [checkSizes, require_ok_iff.2 hb] at h
    change b.checkSizes id >>= _ = _ at h
    cases hcheck : b.checkSizes id with
    | error fault' =>
      rw [hcheck] at h
      exact ⟨id, b, hb, hcheck.trans h⟩
    | ok _ =>
      rw [hcheck] at h
      exact ih hall h

/-- Stacking checks the iterates. -/
theorem checkSizes_eq_map_stack (m : DataMap α) (ids : List DataId) :
    m.checkSizes ids = (fun _ => ()) <$> m.stack ids := by
  induction ids with
  | nil => rfl
  | cons id ids ih =>
    rw [checkSizes, stack, map_bind]
    refine bind_congr fun b => ?_
    rw [map_bind]
    refine bind_congr fun _ => ?_
    rw [ih, map_bind, map_eq_pure_bind]
    rfl

/-! ## Rewriting blocks -/

/-- A change of single blocks that succeeds on paired ones and keeps their length. -/
def Lengthwise (f : Block α → Except (Violation α) (Block α)) : Prop :=
  ∀ b, b.values.length = b.old.length → ∃ b', f b = .ok b' ∧ b'.values.length = b.values.length ∧
    b'.old.length = b.old.length

theorem modify_total {f : Block α → Except (Violation α) (Block α)} (hf : Lengthwise f)
    {m : DataMap α} {id : DataId} (h : m.Paired id) :
    ∃ m', m.modify id f = .ok m' ∧ ∀ j, m'.lengths j = m.lengths j := by
  obtain ⟨b, hb, hl⟩ := h
  obtain ⟨b', hb', hv, ho⟩ := hf b hl
  refine ⟨m.insert id b', ?_, lengths_insert hb hv ho⟩
  rw [modify, hb]
  show f b >>= _ = _
  rw [hb']
  rfl

theorem modifyAll_total {f : Block α → Except (Violation α) (Block α)} (hf : Lengthwise f) :
    ∀ (ids : List DataId) {m : DataMap α}, (∀ id ∈ ids, m.Paired id) →
      ∃ m', m.modifyAll f ids = .ok m' ∧ ∀ j, m'.lengths j = m.lengths j := by
  intro ids
  induction ids with
  | nil => intro m _; exact ⟨m, rfl, fun _ => rfl⟩
  | cons id ids ih =>
    intro m h
    obtain ⟨m₁, h₁, hl₁⟩ := modify_total hf (h id List.mem_cons_self)
    obtain ⟨m', h', hl'⟩ := ih fun j hj => (h j (List.mem_cons_of_mem _ hj)).congr (hl₁ j)
    refine ⟨m', ?_, fun j => (hl' j).trans (hl₁ j)⟩
    rw [modifyAll, h₁]
    exact h'

theorem lengthwise_relax [Scalar α] (ω : α) : Lengthwise (Block.relax ω) := by
  intro b hb
  have hres : b.residual = .ok (Vec.sub b.values b.old) := Vec.minus_ok_iff.2 ⟨hb, rfl⟩
  obtain ⟨v, hv, hl⟩ := Vec.plusScaled_total (w := b.old) (v := Vec.sub b.values b.old)
    (Vec.length_sub hb) ω
  refine ⟨{ b with values := v }, ?_, hl.trans hb.symm, rfl⟩
  rw [Block.relax, hres]
  show b.old.plusScaled ω _ >>= _ = _
  rw [hv]
  rfl

theorem lengthwise_store : Lengthwise (Block.store (α := α)) := by
  intro b hb
  refine ⟨{ b with old := b.values }, ?_, rfl, hb⟩
  rw [Block.store, Vec.overwrite, if_pos hb.symm]
  rfl

/-- Pieces of a stacked vector that is long enough for them. -/
theorem unstack_total : ∀ (ids : List DataId) {m : DataMap α} {v : Vec α},
    (∀ id ∈ ids, m.Paired id) → (m.stacked ids).length ≤ v.length →
      ∃ m', m.unstack v ids = .ok m' ∧ ∀ j, m'.lengths j = m.lengths j := by
  intro ids
  induction ids with
  | nil => intro m v _ _; exact ⟨m, rfl, fun _ => rfl⟩
  | cons id ids ih =>
    intro m v h hl
    obtain ⟨b, hb, hpair⟩ := h id List.mem_cons_self
    rw [stacked, List.flatMap_cons, List.length_append, valuesOf_eq hb] at hl
    have hsize : b.size ≤ v.length := Nat.le_trans (Nat.le_add_right _ _) hl
    have hkeep : ∀ j, lengths (m.insert id { b with values := v.take b.size }) j = m.lengths j :=
      lengths_insert hb (List.length_take_of_le hsize) rfl
    obtain ⟨m', h', hl'⟩ := ih (v := v.drop b.size)
      (fun j hj => (h j (List.mem_cons_of_mem _ hj)).congr (hkeep j)) (by
        rw [length_stacked, List.length_drop, List.map_congr_left fun j _ => by
          rw [length_valuesOf, hkeep, ← length_valuesOf], ← length_stacked]
        exact Nat.le_sub_of_add_le' hl)
    refine ⟨m', ?_, fun j => (hl' j).trans (hkeep j)⟩
    rw [unstack, hb]
    dsimp only
    rw [if_pos hsize]
    exact h'

/-! ## What rewriting leaves -/

theorem valuesOf_congr {m m' : DataMap α} {id : DataId} (h : m'.find? id = m.find? id) :
    m'.valuesOf id = m.valuesOf id := congrArg (fun o => (o.map Block.values).getD []) h

/-- A block that was changed was there, and only it is different. -/
theorem modify_ok {f : Block α → Except (Violation α) (Block α)} {m m' : DataMap α} {id : DataId}
    (h : m.modify id f = .ok m') : ∃ b b', m.find? id = some b ∧ f b = .ok b' ∧
      ∀ j, m'.find? j = if j = id then some b' else m.find? j := by
  unfold modify at h
  split at h
  next b hb =>
    obtain ⟨b', hb', h⟩ := bind_ok h
    obtain rfl := Except.ok.inj h
    exact ⟨b, b', hb, hb', fun j => OrderedMap.find?_insert m id j b'⟩
  next => cases h

/-- The blocks that are not asked for stay as they are. -/
theorem find?_unstack : ∀ {ids : List DataId} {m m' : DataMap α} {v : Vec α},
    m.unstack v ids = .ok m' → ∀ j ∉ ids, m'.find? j = m.find? j := by
  intro ids
  induction ids with
  | nil =>
    intro m m' v h j _
    rw [Except.ok.inj h]
  | cons id ids ih =>
    intro m m' v h j hj
    rw [List.mem_cons, not_or] at hj
    unfold unstack at h
    split at h
    next => cases h
    next b hb =>
      split at h
      next =>
        rw [ih h j hj.2, OrderedMap.find?_insert, if_neg hj.1]
      next => cases h

/-- The blocks hold the pieces of the vector. -/
theorem stacked_unstack : ∀ {ids : List DataId} {m m' : DataMap α} {v : Vec α}, ids.Nodup →
    (m.stacked ids).length = v.length → m.unstack v ids = .ok m' → m'.stacked ids = v := by
  intro ids
  induction ids with
  | nil => intro m m' v _ hl _; exact (List.length_eq_zero_iff.1 hl.symm).symm
  | cons id ids ih =>
    intro m m' v hnodup hl h
    obtain ⟨hid, hids⟩ := List.nodup_cons.1 hnodup
    unfold unstack at h
    split at h
    next => cases h
    next b hb =>
      split at h
      next hsize =>
        -- the other blocks are rewritten after this one, and none of them is this one
        have hself : m'.valuesOf id = v.take b.size := by
          have hfind := find?_unstack h id hid
          rw [OrderedMap.find?_insert, if_pos rfl] at hfind
          exact valuesOf_eq hfind
        have hothers : stacked (m.insert id { b with values := v.take b.size }) ids =
            m.stacked ids := by
          refine congrArg List.flatten (List.map_congr_left fun j hj => valuesOf_congr ?_)
          rw [OrderedMap.find?_insert, if_neg (ne_of_mem_of_not_mem hj hid)]
        rw [stacked, List.flatMap_cons, List.length_append, valuesOf_eq hb] at hl
        have hrest := ih hids (by
          rw [hothers, List.length_drop, ← hl]
          exact (Nat.add_sub_cancel_left _ _).symm) h
        rw [stacked, List.flatMap_cons, hself]
        refine Eq.trans (congrArg (v.take b.size ++ ·) hrest) (List.take_append_drop b.size v)
      next => cases h

theorem oldOf_congr {m m' : DataMap α} {id : DataId} (h : m'.find? id = m.find? id) :
    m'.oldOf id = m.oldOf id := congrArg (fun o => (o.map Block.old).getD []) h

/-- One block is stored: no values change, and where they were stored before they still are. -/
theorem modify_store {m m' : DataMap α} {id : DataId} (h : m.modify id Block.store = .ok m') :
    (∀ j, m'.valuesOf j = m.valuesOf j) ∧
      ∀ j, j = id ∨ m.oldOf j = m.valuesOf j → m'.oldOf j = m'.valuesOf j := by
  obtain ⟨b, b', hb, hs, hfind⟩ := modify_ok h
  have hb' : b'.values = b.values ∧ b'.old = b.values := by
    obtain ⟨old, ho, hs⟩ := bind_ok hs
    obtain rfl := Except.ok.inj hs
    unfold Vec.overwrite at ho
    split at ho
    next => exact ⟨rfl, (Except.ok.inj ho).symm⟩
    next => cases ho
  have hself : m'.find? id = some b' := (hfind id).trans (if_pos rfl)
  refine ⟨fun j => ?_, fun j hj => ?_⟩
  · by_cases hji : j = id
    · rw [hji, valuesOf_eq hself, valuesOf_eq hb, hb'.1]
    · exact valuesOf_congr ((hfind j).trans (if_neg hji))
  · by_cases hji : j = id
    · rw [hji, valuesOf_eq hself, oldOf_eq hself, hb'.1, hb'.2]
    · have hkeep := (hfind j).trans (if_neg hji)
      rw [valuesOf_congr hkeep, oldOf_congr hkeep]
      exact hj.resolve_left hji

/-- Storing changes no values, and the blocks that are asked for keep theirs as the previous ones.
-/
theorem store_ok : ∀ {ids : List DataId} {m m' : DataMap α}, m.store ids = .ok m' →
    (∀ j, m'.valuesOf j = m.valuesOf j) ∧
      ∀ j, j ∈ ids ∨ m.oldOf j = m.valuesOf j → m'.oldOf j = m'.valuesOf j := by
  intro ids
  induction ids with
  | nil =>
    intro m m' h
    obtain rfl := Except.ok.inj h
    exact ⟨fun _ => rfl, fun j hj => hj.resolve_left List.not_mem_nil⟩
  | cons id ids ih =>
    intro m m' h
    obtain ⟨m₁, h₁, h⟩ := bind_ok h
    obtain ⟨hv₁, ho₁⟩ := modify_store h₁
    obtain ⟨hv, ho⟩ := ih h
    refine ⟨fun j => (hv j).trans (hv₁ j), fun j hj => ho j ?_⟩
    -- a block is stored now, is stored later, or has been all along
    rcases hj with hj | hj
    · rcases List.mem_cons.1 hj with hj | hj
      · exact .inr (ho₁ j (.inl hj))
      · exact .inl hj
    · exact .inr (ho₁ j (.inr hj))

end DataMap

end Cosimulation
