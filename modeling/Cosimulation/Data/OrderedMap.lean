/-!
# Maps in ascending order

A map from natural numbers to values, as the list of its entries in ascending order. The order is
part of the type, so that two maps with the same entries are equal, and every walk over a map meets
the entries in the same order.

What a map says of a key after a change is stated by `find?_insert`, `find?_erase` and
`find?_mapValues`.
-/

namespace Cosimulation

/-- Entries by key, ascending. -/
structure OrderedMap (β : Type) where
  entries : List (Nat × β)
  ascending : (entries.map Prod.fst).Pairwise (· < ·)

namespace OrderedMap

variable {β : Type}

/-- The map without entries. -/
def empty : OrderedMap β := ⟨[], .nil⟩

/-- The keys, ascending. -/
def keys (m : OrderedMap β) : List Nat := m.entries.map Prod.fst

/-- The value of a key. -/
def find? (m : OrderedMap β) (k : Nat) : Option β := m.entries.lookup k

/-- Whether a key has a value. -/
def contains (m : OrderedMap β) (k : Nat) : Bool := (m.find? k).isSome

/-- Puts an entry at its place in an ascending list, or in the place of the entry with its key. -/
def place (k : Nat) (b : β) : List (Nat × β) → List (Nat × β)
  | [] => [(k, b)]
  | e :: es =>
    if k < e.1 then (k, b) :: e :: es
    else if k = e.1 then (k, b) :: es
    else e :: place k b es

theorem mem_place {k j : Nat} {b : β} {es : List (Nat × β)}
    (h : j ∈ (place k b es).map Prod.fst) : j = k ∨ j ∈ es.map Prod.fst := by
  induction es with
  | nil => exact .inl (List.mem_singleton.1 h)
  | cons e es ih =>
    simp only [place] at h
    split at h
    next => exact List.mem_cons.1 h
    next =>
      split at h
      next => exact (List.mem_cons.1 h).imp_right (List.mem_cons_of_mem _)
      next =>
        rcases List.mem_cons.1 h with rfl | h
        · exact .inr List.mem_cons_self
        · exact (ih h).imp_right (List.mem_cons_of_mem _)

theorem place_ascending {k : Nat} {b : β} {es : List (Nat × β)}
    (h : (es.map Prod.fst).Pairwise (· < ·)) :
    ((place k b es).map Prod.fst).Pairwise (· < ·) := by
  induction es with
  | nil => simp [place]
  | cons e es ih =>
    have he := List.pairwise_cons.1 h
    simp only [place]
    split
    next hlt =>
      refine List.pairwise_cons.2 ⟨fun j hj => ?_, h⟩
      rcases List.mem_cons.1 hj with rfl | hj
      · exact hlt
      · exact Nat.lt_trans hlt (he.1 j hj)
    next hlt =>
      split
      next heq => exact List.pairwise_cons.2 ⟨fun j hj => heq ▸ he.1 j hj, he.2⟩
      next hne =>
        refine List.pairwise_cons.2 ⟨fun j hj => ?_, ih he.2⟩
        rcases mem_place hj with rfl | hj
        · exact Nat.lt_of_le_of_ne (Nat.le_of_not_lt hlt) (fun heq => hne heq.symm)
        · exact he.1 j hj

/-- Inserts a value, replacing the one its key may have. -/
def insert (m : OrderedMap β) (k : Nat) (b : β) : OrderedMap β :=
  ⟨place k b m.entries, place_ascending m.ascending⟩

/-- Removes the value of a key. -/
def erase (m : OrderedMap β) (k : Nat) : OrderedMap β :=
  ⟨m.entries.filter fun e => e.1 != k, m.ascending.sublist (List.filter_sublist.map _)⟩

/-- Changes every value. -/
def mapValues (f : β → β) (m : OrderedMap β) : OrderedMap β :=
  ⟨m.entries.map fun e => (e.1, f e.2), by
    have h : Prod.fst ∘ (fun e : Nat × β => (e.1, f e.2)) = Prod.fst := rfl
    rw [List.map_map, h]
    exact m.ascending⟩

/-- The map of a list of entries; a later value replaces an earlier one of its key. -/
def ofList (entries : List (Nat × β)) : OrderedMap β :=
  entries.foldl (fun m e => m.insert e.1 e.2) empty

/-! ## Lookup -/

/-- Looking up a key stops at the first entry that has it. -/
theorem lookup_cons_eq_ite (e : Nat × β) (es : List (Nat × β)) (j : Nat) :
    (e :: es).lookup j = if j = e.1 then some e.2 else es.lookup j := by
  rw [List.lookup_cons]
  by_cases h : j = e.1
  · rw [if_pos h, beq_iff_eq.2 h]
  · rw [if_neg h, beq_eq_false_iff_ne.2 h]

theorem isSome_lookup_iff (es : List (Nat × β)) (k : Nat) :
    (es.lookup k).isSome ↔ k ∈ es.map Prod.fst := by
  induction es with
  | nil => exact ⟨fun h => (nomatch h), fun h => nomatch h⟩
  | cons e es ih =>
    rw [lookup_cons_eq_ite, List.map_cons, List.mem_cons, ← ih]
    by_cases h : k = e.1
    · rw [if_pos h]
      exact ⟨fun _ => .inl h, fun _ => rfl⟩
    · rw [if_neg h]
      exact ⟨.inr, fun h' => h'.resolve_left h⟩

theorem contains_iff_mem_keys {m : OrderedMap β} {k : Nat} : m.contains k ↔ k ∈ m.keys :=
  isSome_lookup_iff m.entries k

theorem nodup_keys (m : OrderedMap β) : m.keys.Nodup := m.ascending.imp Nat.ne_of_lt

/-- What a list says of a key after an entry was put at its place. -/
theorem lookup_place (k j : Nat) (b : β) (es : List (Nat × β)) :
    (place k b es).lookup j = if j = k then some b else es.lookup j := by
  induction es with
  | nil => exact lookup_cons_eq_ite (k, b) [] j
  | cons e es ih =>
    simp only [place]
    split
    next => rw [lookup_cons_eq_ite]
    next =>
      split
      next heq =>
        rw [lookup_cons_eq_ite, lookup_cons_eq_ite e, ← heq]
        split <;> rfl
      next hne =>
        rw [lookup_cons_eq_ite, lookup_cons_eq_ite e, ih]
        split
        next hj => rw [if_neg fun hk => hne (hk.symm.trans hj)]
        next => rfl

@[simp]
theorem find?_insert (m : OrderedMap β) (k j : Nat) (b : β) :
    (m.insert k b).find? j = if j = k then some b else m.find? j :=
  lookup_place k j b m.entries

/-- What a list says of a key after another key was removed. -/
theorem lookup_filter_ne (k j : Nat) (es : List (Nat × β)) :
    (es.filter fun e => e.1 != k).lookup j = if j = k then none else es.lookup j := by
  induction es with
  | nil => simp
  | cons e es ih =>
    rw [List.filter_cons, lookup_cons_eq_ite]
    split
    next he =>
      rw [lookup_cons_eq_ite, ih]
      split
      next hj => rw [if_neg fun hk => bne_iff_ne.1 he (hj.symm.trans hk)]
      next => rfl
    next he =>
      have hk : e.1 = k := by simpa using he
      rw [ih, hk]
      split <;> rfl

@[simp]
theorem find?_erase (m : OrderedMap β) (k j : Nat) :
    (m.erase k).find? j = if j = k then none else m.find? j :=
  lookup_filter_ne k j m.entries

/-- The entry of a key is what is found under it. -/
theorem lookup_of_mem {es : List (Nat × β)} (h : (es.map Prod.fst).Nodup) {e : Nat × β}
    (he : e ∈ es) : es.lookup e.1 = some e.2 := by
  induction es with
  | nil => cases he
  | cons d es ih =>
    obtain ⟨hd, hes⟩ := List.pairwise_cons.1 h
    rw [lookup_cons_eq_ite]
    rcases List.mem_cons.1 he with rfl | he
    · rw [if_pos rfl]
    · rw [if_neg (Ne.symm (hd e.1 (List.mem_map_of_mem he))), ih hes he]

theorem find?_of_mem {m : OrderedMap β} {e : Nat × β} (he : e ∈ m.entries) :
    m.find? e.1 = some e.2 :=
  lookup_of_mem (m.ascending.imp Nat.ne_of_lt) he

@[simp]
theorem find?_empty (k : Nat) : (empty : OrderedMap β).find? k = none := rfl

/-- What a list says of a key after every value was changed. -/
theorem lookup_map (f : β → β) (k : Nat) (es : List (Nat × β)) :
    (es.map fun e => (e.1, f e.2)).lookup k = (es.lookup k).map f := by
  induction es with
  | nil => rfl
  | cons e es ih =>
    rw [List.map_cons, lookup_cons_eq_ite, lookup_cons_eq_ite, ih]
    split <;> rfl

@[simp]
theorem find?_mapValues (f : β → β) (m : OrderedMap β) (k : Nat) :
    (m.mapValues f).find? k = (m.find? k).map f :=
  lookup_map f k m.entries

end OrderedMap

end Cosimulation
