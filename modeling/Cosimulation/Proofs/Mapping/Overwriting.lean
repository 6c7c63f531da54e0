import Cosimulation.Proofs.Mapping.Transfer
import Cosimulation.Proofs.Mesh.Fields

/-!
# Transfer in place

A transfer reads one field and writes another one, which may be on the same mesh or be the same
field. `overwrite` is how it runs on memory: once the checks have passed, the output field is set to
zero, and then one element of the table after the other adds its share to it. What it has written
stays written, also if it fails afterwards. The input is a copy that was made before.

`overwrite_eq` says that nothing of this shows. If the table refers to vertices that are there, then
after the checks every step succeeds, so that a transfer that fails has written nothing; and what
the loop leaves in the field are the values that `outputValues` computes from the input, whatever
was there before. `transfer_exact` states what these values are and that nothing else is changed.
-/

namespace Cosimulation

section
variable {α : Type}

/-! ## Changes to a field -/

/-- Replacing the values of a field that is there leaves the others as they are. -/
theorem Mesh.setValues_eq_append {id : DataId} {f : Field α} (values : Vec α) :
    ∀ {fs : List (Field α)}, (fs.find? fun g => g.id == id) = some f →
      ∃ front back, fs = front ++ f :: back ∧ (∀ g ∈ front, g.id ≠ id) ∧ f.id = id ∧
        Mesh.setValues id values fs = front ++ { f with values } :: back := by
  intro fs
  induction fs with
  | nil => exact fun h => nomatch h
  | cons g fs ih =>
    intro h
    rw [Mesh.setValues]
    by_cases hg : g.id = id
    · rw [List.find?_cons_of_pos (by simpa using hg)] at h
      obtain rfl := Option.some.inj h
      exact ⟨[], fs, rfl, fun g' hg' => absurd hg' List.not_mem_nil, hg, if_pos hg⟩
    · rw [List.find?_cons_of_neg (by simpa using hg)] at h
      obtain ⟨front, back, rfl, hfront, hid, hset⟩ := ih h
      exact ⟨g :: front, back, rfl, List.forall_mem_cons.2 ⟨hg, hfront⟩, hid, by
        rw [if_neg hg, hset, List.cons_append]⟩

theorem Mesh.setValues_setValues {id : DataId} {v w : Vec α} : ∀ {fs : List (Field α)},
    Mesh.setValues id w (Mesh.setValues id v fs) = Mesh.setValues id w fs := by
  intro fs
  induction fs with
  | nil => rfl
  | cons f fs ih =>
    by_cases hf : f.id = id
    · simp [Mesh.setValues, hf]
    · simp [Mesh.setValues, hf, ih]

theorem Mesh.withValues_withValues (m : Mesh α) (id : DataId) (v w : Vec α) :
    (m.withValues id v).withValues id w = m.withValues id w := by
  simp only [Mesh.withValues, Mesh.setValues_setValues]

theorem Participant.setMesh_setMesh (p : Participant α) (ref : MeshRef) (m m' : Mesh α) :
    (p.setMesh ref m).setMesh ref m' = p.setMesh ref m' := by
  simp [Participant.setMesh]

/-- The participants are the same but for the values of one field of one mesh. -/
structure Participant.OnlyValues (p p' : Participant α) (ref : MeshRef) (id : DataId)
    (values : Vec α) : Prop where
  cache : p'.cache = p.cache
  elsewhere : ∀ r, r ≠ ref → p'.mesh r = p.mesh r
  there : ∃ m front field back, p.mesh ref = .ok m ∧ m.fields = front ++ field :: back ∧
    (∀ g ∈ front, g.id ≠ id) ∧ field.id = id ∧
    p'.mesh ref = .ok { m with fields := front ++ { field with values } :: back }

theorem Participant.onlyValues {p : Participant α} {ref : MeshRef} {id : DataId} {m : Mesh α}
    {field : Field α} (hm : p.mesh ref = .ok m) (hfield : m.field id = .ok field)
    (values : Vec α) : p.OnlyValues (p.setMesh ref (m.withValues id values)) ref id values where
  cache := rfl
  elsewhere r hr := by
    unfold Participant.mesh
    rw [Participant.setMesh, List.getElem?_set_ne (Ne.symm hr)]
  there := by
    unfold Mesh.field at hfield
    split at hfield
    next f hf =>
      obtain ⟨front, back, hfields, hfront, hid, hset⟩ := Mesh.setValues_eq_append values hf
      refine ⟨m, front, f, back, hm, hfields, hfront, hid, ?_⟩
      rw [Participant.mesh_setMesh hm, Mesh.withValues, hset]
    next => cases hfield

end

/-- The vertices of the output and of the input mesh that an element connects, by the position of
its row and the vertex that it refers to. -/
def Constraint.connects : Constraint → (row vertex : Nat) → Nat × Nat
  | .consistent, row, vertex => (row, vertex)
  | .conservative, row, vertex => (vertex, row)

namespace Mapping

section
variable {α β γ : Type}

/-! ## Running in place -/

/-- A computation that changes the participant as it goes. What it has changed stays changed if it
fails. -/
abbrev InPlace (α β : Type) := ExceptT (Failure α) (StateM (Participant α)) β

namespace InPlace

/-- The outcome of a computation on a participant, and what it leaves. -/
def on (x : InPlace α β) (p : Participant α) : Except (Failure α) β × Participant α :=
  (ExceptT.run x).run p

theorem on_bind (x : InPlace α β) (f : β → InPlace α γ) (p : Participant α) :
    InPlace.on (x >>= f) p = match x.on p with
      | (.ok b, p') => (f b).on p'
      | (.error e, p') => (.error e, p') := by
  show InPlace.on (ExceptT.mk (ExceptT.bindCont f (x.on p).1)) (x.on p).2 = _
  rcases x.on p with ⟨e | b, p'⟩ <;> rfl

/-- A computation that changes nothing. -/
def ofExcept (x : Except (Failure α) β) : InPlace α β := liftM x

theorem on_get (p : Participant α) : InPlace.on get p = (.ok p, p) := rfl

theorem on_set (p p' : Participant α) : InPlace.on (set p') p = (.ok (), p') := rfl

theorem on_ofExcept (x : Except (Failure α) β) (p : Participant α) :
    (ofExcept x).on p = (x, p) := rfl

/-- A loop succeeds if every step does, and its steps come one after the other. -/
theorem on_forM (state : Vec α → Participant α) {step : Vec α → β → Vec α} {size : Nat}
    {body : β → InPlace α Unit} (hsize : ∀ v x, (step v x).length = v.length) {xs : List β} :
    (∀ v, v.length = size → ∀ x ∈ xs, (body x).on (state v) = (.ok (), state (step v x))) →
    ∀ v, v.length = size → InPlace.on (forM xs body) (state v) =
       (.ok (), state (xs.foldl step v)) := by
  induction xs with
  | nil => exact fun _ v _ => rfl
  | cons x xs ih =>
    intro hbody v hv
    rw [List.forM_cons, on_bind, hbody v hv x List.mem_cons_self, List.foldl_cons]
    exact ih (fun w hw y hy => hbody w hw y (List.mem_cons_of_mem _ hy)) _ ((hsize v x).trans hv)

end InPlace

/-- Changes the values of a field where they are. -/
def changeValues (ref : MeshRef) (id : DataId) (f : Vec α → Except (Violation α) (Vec α)) :
    InPlace α Unit := do
  let p ← get
  let mesh ← .ofExcept ((p.mesh ref).mapError .violation)
  let field ← .ofExcept ((mesh.field id).mapError .fault)
  let values ← .ofExcept ((f field.values).mapError .violation)
  set (p.setMesh ref (mesh.withValues id values))

theorem changeValues_on {p : Participant α} {ref : MeshRef} {id : DataId} {m : Mesh α}
    {field : Field α} {f : Vec α → Except (Violation α) (Vec α)} {w : Vec α}
    (hm : p.mesh ref = .ok m) (hfield : m.field id = .ok field) (hw : f field.values = .ok w) :
    (changeValues ref id f).on p = (.ok (), p.setMesh ref (m.withValues id w)) := by
  simp only [changeValues, InPlace.on_bind, InPlace.on_get, InPlace.on_set, InPlace.on_ofExcept, hm,
    hfield, hw, mapError_ok]

/-- The scalar at a position, which has to be there. -/
def scalarAt (v : Vec α) (j : Nat) : Except (Violation α) α :=
  match v[j]? with
  | some x => .ok x
  | none => .error .bounds

variable [Scalar α]

/-- Adds to the scalar at a position, which has to be there. -/
def addAt (j : Nat) (x : α) (v : Vec α) : Except (Violation α) (Vec α) :=
  if j < v.length then .ok (v.modify j (· + x)) else .error .bounds

/-- Adds one component of the share of an element: to the component at the output vertex that it
connects, that at the input vertex with its weight. -/
def addComponent (constraint : Constraint) (plan : Plan α) (outputId : DataId) (row : Nat)
    (e : Element α) (c : Nat) : InPlace α Unit := do
  let (v, w) := constraint.connects row e.vertex
  let x ← .ofExcept ((scalarAt plan.source.values (w * plan.source.dimension + c)).mapError
    .violation)
  changeValues plan.outputRef outputId (addAt (v * plan.source.dimension + c) (e.weight * x))

/-- Overwrites a field of the output mesh in place. -/
def overwrite (m : Mapping α) (inputId outputId : DataId) : InPlace α Unit := do
  let plan ← .ofExcept (m.plan (← get) inputId outputId)
  changeValues plan.outputRef outputId fun v => .ok (v.map fun _ => 0)
  forM plan.table.zipIdx fun (row, i) =>
    forM row fun e =>
      forM (List.range plan.source.dimension) (addComponent m.config.constraint plan outputId i e)

/-! ## What the loop computes -/

/-- Adds the share of an element to the components at a vertex. -/
def addShare (source : Vec α) (dimension : Nat) (v w : Nat) (weight : α) (out : Vec α) : Vec α :=
  (List.range dimension).foldl
    (fun out c => out.modify (v * dimension + c) (· + weight * component source dimension w c)) out

/-- Adds the shares of all elements of a table. -/
def addShares (constraint : Constraint) (table : Table α) (source : Vec α) (dimension : Nat)
    (out : Vec α) : Vec α :=
  table.zipIdx.foldl
    (fun out (row, i) => row.foldl
      (fun out e => addShare source dimension (constraint.connects i e.vertex).1
        (constraint.connects i e.vertex).2 e.weight out) out) out

end

section
variable {α β : Type}

/-- If every step of a loop changes a scalar on its own, so does the loop. -/
theorem getElem?_foldl {f : Vec α → β → Vec α} {g : α → β → α} {j : Nat} : ∀ {xs : List β},
    (∀ v, ∀ x ∈ xs, (f v x)[j]? = v[j]?.map fun y => g y x) →
    ∀ v : Vec α, (xs.foldl f v)[j]? = v[j]?.map fun y => xs.foldl g y := by
  intro xs
  induction xs with
  | nil => exact fun _ v => Option.map_id'.symm
  | cons x xs ih =>
    intro h v
    rw [List.foldl_cons, ih (fun w y hy => h w y (List.mem_cons_of_mem _ hy)),
      h v x List.mem_cons_self, Option.map_map]
    rfl

theorem length_foldl {f : Vec α → β → Vec α} (h : ∀ v x, (f v x).length = v.length)
    (xs : List β) (v : Vec α) : (xs.foldl f v).length = v.length := by
  induction xs generalizing v with
  | nil => rfl
  | cons x xs ih => rw [List.foldl_cons, ih, h]

theorem foldl_skip {key : β → Nat} {k : Nat} {g : α → β → α} {xs : List β}
    (h : ∀ x ∈ xs, key x ≠ k) (y : α) :
    xs.foldl (fun y x => if key x = k then g y x else y) y = y := by
  induction xs with
  | nil => rfl
  | cons x xs ih =>
    rw [List.foldl_cons, if_neg (h x List.mem_cons_self)]
    exact ih fun x' hx' => h x' (List.mem_cons_of_mem _ hx')

/-- A loop over different keys that acts on one of them only. -/
theorem foldl_single (key : β → Nat) {g : α → β → α} {x : β} : ∀ {xs : List β},
    (xs.map key).Nodup → x ∈ xs → ∀ y,
    xs.foldl (fun y x' => if key x' = key x then g y x' else y) y = g y x := by
  intro xs
  induction xs with
  | nil => exact fun _ hx => absurd hx List.not_mem_nil
  | cons z xs ih =>
    intro hkeys hx y
    rw [List.map_cons, List.nodup_cons] at hkeys
    rw [List.foldl_cons]
    rcases List.mem_cons.1 hx with rfl | hx
    · rw [if_pos rfl]
      exact foldl_skip (fun x' hx' heq => hkeys.1 (List.mem_map.2 ⟨x', hx', heq⟩)) _
    · rw [if_neg fun heq => hkeys.1 (List.mem_map.2 ⟨x, hx, heq.symm⟩)]
      exact ih hkeys.2 hx y

end

section
variable {α : Type} [Scalar α] {source out : Vec α} {dimension v w u c : Nat} {weight : α}

theorem length_addShare : (addShare source dimension v w weight out).length = out.length :=
  length_foldl (fun _ _ => List.length_modify ..) _ _

/-- The share of an element goes to its own vertex, component by component. -/
theorem getElem?_addShare (hc : c < dimension) :
    (addShare source dimension v w weight out)[u * dimension + c]? =
      out[u * dimension + c]?.map fun y =>
        if v = u then y + weight * component source dimension w c else y := by
  have hstep : ∀ out : Vec α, ∀ c' ∈ List.range dimension,
      (out.modify (v * dimension + c')
        (· + weight * component source dimension w c'))[u * dimension + c]? =
        out[u * dimension + c]?.map fun y => if c' = c then
          (if v = u then y + weight * component source dimension w c' else y) else y := by
    intro out c' hc'
    rw [List.getElem?_modify, Option.map_eq_map]
    congr 1
    funext y
    simp only [Mesh.place_inj (List.mem_range.1 hc') hc, ite_and]
  rw [addShare, getElem?_foldl hstep]
  congr 1
  funext y
  exact foldl_single id (by rw [List.map_id]; exact List.nodup_range)
    (List.mem_range.2 hc) y

/-- What the loop leaves at a component of a vertex: of every element that connects the vertex, the
share is added, in the order of the table. -/
theorem getElem?_addShares {constraint : Constraint} {table : Table α} (hc : c < dimension) :
    (addShares constraint table source dimension out)[u * dimension + c]? =
      out[u * dimension + c]?.map fun y => table.zipIdx.foldl
        (fun y (row, i) => row.foldl
          (fun y e => if (constraint.connects i e.vertex).1 = u then
            y + e.weight * component source dimension (constraint.connects i e.vertex).2 c else y)
          y) y := by
  refine getElem?_foldl (fun v x _ => ?_) out
  obtain ⟨row, i⟩ := x
  refine getElem?_foldl (fun v e _ => ?_) v
  exact getElem?_addShare hc

theorem length_addShares {constraint : Constraint} {table : Table α} :
    (addShares constraint table source dimension out).length = out.length :=
  length_foldl (fun _ _ => length_foldl (fun _ _ => length_addShare) _ _) _ _

/-- In a consistent mapping, the elements that connect a vertex are those of its row. -/
theorem foldl_connects_consistent {table : Table α} (hu : u < table.length) :
    table.zipIdx.foldl
      (fun y (row, i) => row.foldl
        (fun y e => if (Constraint.consistent.connects i e.vertex).1 = u then y + e.weight *
          component source dimension (Constraint.consistent.connects i e.vertex).2 c else y)
        y) 0 = gathered table[u] source dimension c := by
  have hrow : (fun (y : α) (x : Row α × Nat) => x.1.foldl (fun y e => if x.2 = u then
      y + e.weight * component source dimension e.vertex c else y) y) =
      fun y x => if x.2 = u then
        x.1.foldl (fun y e => y + e.weight * component source dimension e.vertex c) y else y := by
    funext y x
    by_cases hx : x.2 = u <;> simp [hx]
  have hmem : (table[u], u) ∈ table.zipIdx :=
    List.mk_mem_zipIdx_iff_getElem?.2 (List.getElem?_eq_getElem hu)
  have hkeys : (table.zipIdx.map Prod.snd).Nodup := by
    rw [List.zipIdx_map_snd]
    exact List.nodup_range'
  exact (congrArg (fun f => table.zipIdx.foldl f 0) hrow).trans (foldl_single Prod.snd hkeys hmem 0)

theorem length_outputValues {constraint : Constraint} {table : Table α}
    (htable : constraint = .consistent → table.length = n) :
    (outputValues constraint table source dimension n).length = n * dimension := by
  cases constraint with
  | consistent => rw [length_consistent, htable rfl]
  | conservative => exact length_conservative

/-- The loop computes the values on the output mesh. -/
theorem addShares_zeros {constraint : Constraint} {table : Table α}
    (htable : constraint = .consistent → table.length = n) :
    addShares constraint table source dimension (List.replicate (n * dimension) 0) =
      outputValues constraint table source dimension n := by
  refine List.ext_getElem? fun j => ?_
  rcases lt_or_ge j (n * dimension) with hj | hj
  · obtain ⟨u, c, hu, hc, rfl⟩ : ∃ u c, u < n ∧ c < dimension ∧ j = u * dimension + c := by
      have hpos : 0 < dimension := Nat.pos_of_mul_pos_left (Nat.zero_lt_of_lt hj)
      exact ⟨j / dimension, j % dimension, Nat.div_lt_of_lt_mul (by rwa [Nat.mul_comm]),
        Nat.mod_lt _ hpos, (Nat.div_add_mod' j dimension).symm⟩
    rw [getElem?_addShares hc, List.getElem?_replicate, if_pos hj, Option.map_some]
    cases constraint with
    | consistent =>
      have hu : u < table.length := (htable rfl).symm ▸ hu
      rw [foldl_connects_consistent hu]
      exact (getElem?_arranged (f := fun row => gathered row source dimension) hc hu).symm
    | conservative =>
      have hu : u < (List.range n).length := by rwa [List.length_range]
      refine Eq.trans ?_ (getElem?_arranged hc hu).symm
      rw [List.getElem_range]
      rfl
  · rw [List.getElem?_eq_none (by rw [length_addShares, List.length_replicate]; exact hj),
      List.getElem?_eq_none ((length_outputValues htable).trans_le hj)]

theorem addAt_eq {j : Nat} (hj : j < out.length) (x : α) :
    addAt j x out = .ok (out.modify j (· + x)) := if_pos hj

theorem scalarAt_eq {j : Nat} (hj : j < source.length) :
    scalarAt source j = .ok (source.getD j 0) := by
  rw [scalarAt, List.getElem?_eq_getElem hj, List.getD_eq_getElem?_getD,
    List.getElem?_eq_getElem hj]
  rfl

end

/-! ## The transfer in place -/

section
variable {α : Type} {map : Mapping α} {p : Participant α} {inputId outputId : DataId}
  {input : Mesh α} {target : Field α} {plan : Plan α}

/-- A table is found to refer to vertices of the meshes that are attached. -/
def RefersWithin (map : Mapping α) (p : Participant α) : Prop :=
  ∀ input output table, map.Attached p input output → map.table = some table →
    ∀ row ∈ table, ∀ e ∈ row,
      e.vertex < (map.config.constraint.target input output).vertices.length

/-- The participant while a field of a mesh holds some values. -/
def holding (p : Participant α) (ref : MeshRef) (m : Mesh α) (id : DataId) (values : Vec α) :
    Participant α :=
  p.setMesh ref (m.withValues id values)

theorem changeValues_holding {ref : MeshRef} {m : Mesh α} {id : DataId} {field : Field α}
    {f : Vec α → Except (Violation α) (Vec α)} {v w : Vec α} (hm : p.mesh ref = .ok m)
    (hfield : m.field id = .ok field) (hw : f v = .ok w) :
    (changeValues ref id f).on (holding p ref m id v) = (.ok (), holding p ref m id w) := by
  have hheld : (holding p ref m id v).mesh ref = .ok (m.withValues id v) :=
    Participant.mesh_setMesh hm
  rw [changeValues_on hheld (Mesh.field_withValues hfield) hw, holding, holding,
    Participant.setMesh_setMesh, Mesh.withValues_withValues]

theorem RefersWithin.of_fits (hrefers : map.RefersWithin p)
    (h : Fits plan map p inputId outputId input target) : ∀ row ∈ plan.table, ∀ e ∈ row,
      e.vertex < (map.config.constraint.target input plan.output).vertices.length :=
  hrefers input plan.output plan.table h.toAttached h.tableAt

theorem Fits.refers_of_below (h : Fits plan map p inputId outputId input target)
    (hbelow : Table.refersBelow plan.table plan.referred = true) : ∀ row ∈ plan.table, ∀ e ∈ row,
      e.vertex < (map.config.constraint.target input plan.output).vertices.length :=
  Table.refersBelow_iff.1 (h.referred ▸ hbelow)

theorem Fits.rows_eq (h : Fits plan map p inputId outputId input target)
    (hconstraint : map.config.constraint = .consistent) :
    plan.table.length = plan.output.vertices.length := by
  rw [h.length, hconstraint]
  rfl

theorem connects_lt {constraint : Constraint} {i v : Nat}
    (hi : i < (constraint.start input plan.output).vertices.length)
    (hv : v < (constraint.target input plan.output).vertices.length) :
    (constraint.connects i v).1 < plan.output.vertices.length ∧
      (constraint.connects i v).2 < input.vertices.length := by
  cases constraint with
  | consistent => exact ⟨hi, hv⟩
  | conservative => exact ⟨hv, hi⟩

variable [Scalar α]

theorem Fits.addComponent_on (h : Fits plan map p inputId outputId input target) {i c : Nat}
    {e : Element α} (hi : i < plan.table.length)
    (he : e.vertex < (map.config.constraint.target input plan.output).vertices.length)
    (hc : c < plan.source.dimension) {out : Vec α}
    (hout : out.length = plan.output.vertices.length * plan.source.dimension) :
    (addComponent map.config.constraint plan outputId i e c).on
        (holding p plan.outputRef plan.output outputId out) =
      (.ok (), holding p plan.outputRef plan.output outputId
        (out.modify ((map.config.constraint.connects i e.vertex).1 * plan.source.dimension + c)
          (· + e.weight * component plan.source.values plan.source.dimension
            (map.config.constraint.connects i e.vertex).2 c))) := by
  obtain ⟨hv, hw⟩ := connects_lt (h.length ▸ hi) he
  have hread := scalarAt_eq ((Mesh.place_lt hw hc).trans_eq h.sourceComplete.length_eq.symm)
  have hwrite := addAt_eq ((Mesh.place_lt hv hc).trans_eq hout.symm)
  rw [addComponent]
  dsimp only
  rw [InPlace.on_bind, InPlace.on_ofExcept, hread]
  exact changeValues_holding h.placed h.targetAt (hwrite _)

/-- What the loop does for the row at a position. -/
def overwriteRow (constraint : Constraint) (plan : Plan α) (outputId : DataId) (row : Row α)
    (i : Nat) : InPlace α Unit :=
  forM row fun e =>
    forM (List.range plan.source.dimension) (addComponent constraint plan outputId i e)

/-- Adds the shares of the row at a position. -/
def addRow (constraint : Constraint) (source : Vec α) (dimension : Nat) (row : Row α) (i : Nat)
    (out : Vec α) : Vec α :=
  row.foldl (fun out e => addShare source dimension (constraint.connects i e.vertex).1
    (constraint.connects i e.vertex).2 e.weight out) out

theorem length_addRow {constraint : Constraint} {source : Vec α} {dimension : Nat} {row : Row α}
    {i : Nat} {out : Vec α} :
    (addRow constraint source dimension row i out).length = out.length :=
  length_foldl (fun _ _ => length_addShare) _ _

/-- A row that refers to vertices that are there adds its shares. -/
theorem Fits.row_on (h : Fits plan map p inputId outputId input target) {i : Nat} {row : Row α}
    (hi : i < plan.table.length)
    (hrow : ∀ e ∈ row, e.vertex < (map.config.constraint.target input plan.output).vertices.length)
    {out : Vec α} (hout : out.length = plan.output.vertices.length * plan.source.dimension) :
    (overwriteRow map.config.constraint plan outputId row i).on
        (holding p plan.outputRef plan.output outputId out) =
      (.ok (), holding p plan.outputRef plan.output outputId
        (addRow map.config.constraint plan.source.values plan.source.dimension row i out)) := by
  refine InPlace.on_forM _ (fun v e => length_addShare) (fun v hv e he => ?_) out hout
  refine InPlace.on_forM _ (fun v c => List.length_modify ..) (fun v hv c hc => ?_) v hv
  exact h.addComponent_on hi (hrow e he) (List.mem_range.1 hc) hv

/-- Once the checks have passed, the loop runs on zeros. -/
theorem Fits.overwrite_zeros (h : Fits plan map p inputId outputId input target) :
    (map.overwrite inputId outputId).on p =
      InPlace.on (forM plan.table.zipIdx fun (row, i) =>
          overwriteRow map.config.constraint plan outputId row i)
        (holding p plan.outputRef plan.output outputId
          (List.replicate (plan.output.vertices.length * plan.source.dimension) 0)) := by
  have hzeros : target.values.map (fun _ => (0 : α)) =
      List.replicate (plan.output.vertices.length * plan.source.dimension) 0 := by
    rw [List.map_const', h.targetComplete.length_eq, h.dimension]
  have hclear : (changeValues plan.outputRef outputId fun v => .ok (v.map fun _ => 0)).on p =
      (.ok (), holding p plan.outputRef plan.output outputId
        (List.replicate (plan.output.vertices.length * plan.source.dimension) 0)) :=
    hzeros ▸ changeValues_on h.placed h.targetAt rfl
  rw [overwrite, InPlace.on_bind, InPlace.on_get]
  dsimp only
  rw [InPlace.on_bind, InPlace.on_ofExcept, h.plan_eq]
  dsimp only
  rw [InPlace.on_bind, hclear]
  rfl

/-- If everything fits, the loop runs to its end and leaves the values on the output mesh. -/
theorem Fits.overwrite_on (h : Fits plan map p inputId outputId input target)
    (hrefers : ∀ row ∈ plan.table, ∀ e ∈ row,
      e.vertex < (map.config.constraint.target input plan.output).vertices.length) :
    (map.overwrite inputId outputId).on p =
      (.ok (), holding p plan.outputRef plan.output outputId
        (outputValues map.config.constraint plan.table plan.source.values plan.source.dimension
          plan.output.vertices.length)) := by
  rw [h.overwrite_zeros, ← addShares_zeros h.rows_eq]
  refine InPlace.on_forM (holding p plan.outputRef plan.output outputId) (fun v x => length_addRow)
    (fun v hv x hx => ?_) _ List.length_replicate
  have hrow := List.mk_mem_zipIdx_iff_getElem?.1 hx
  exact h.row_on (List.getElem?_eq_some_iff.1 hrow).1
    (hrefers x.1 (List.mem_of_getElem? hrow)) hv

/-- What a computation that yields a new participant comes to in place: if it fails, the participant
is as it was. -/
def settled (p : Participant α) :
    Except (Failure α) (Participant α) → Except (Failure α) Unit × Participant α
  | .ok p' => (.ok (), p')
  | .error e => (.error e, p)

/-- A transfer that cannot be planned has changed nothing. -/
theorem overwrite_unplanned {e : Failure α} (h : map.plan p inputId outputId = .error e) :
    (map.overwrite inputId outputId).on p = (.error e, p) := by
  rw [overwrite, InPlace.on_bind, InPlace.on_get]
  dsimp only
  rw [InPlace.on_bind, InPlace.on_ofExcept, h]

/-- In place, a transfer does the same, and if it fails it has changed nothing. -/
theorem overwrite_eq (hrefers : map.RefersWithin p) (inputId outputId : DataId) :
    (map.overwrite inputId outputId).on p = settled p (map.transfer p inputId outputId) := by
  cases hplan : map.plan p inputId outputId with
  | error e =>
    rw [overwrite_unplanned hplan, transfer, hplan]
    rfl
  | ok plan =>
    obtain ⟨input, target, hfits⟩ := plan_fits hplan
    have hrows := hrefers.of_fits hfits
    rw [hfits.overwrite_on hrows, hfits.transfer_eq hrows]
    rfl

end

/-! ## What is transferred -/

section
variable {α : Type} [Scalar α]

/-- Every component at a vertex of the output mesh is the sum of what the table brings there. -/
structure Sums (constraint : Constraint) (table : Table α) (source : Vec α)
    (dimension outputs : Nat) (out : Vec α) : Prop where
  length : out.length = outputs * dimension
  /-- Of a consistent mapping, by the elements of the row of the vertex. -/
  consistent : constraint = .consistent → table.length = outputs ∧
    ∀ i (hi : i < table.length), ∀ c < dimension, component out dimension i c =
      Vec.sum (table[i].map fun e => e.weight * component source dimension e.vertex c)
  /-- Of a conservative mapping, by the elements of all rows that refer to the vertex. -/
  conservative : constraint = .conservative → ∀ j < outputs, ∀ c < dimension,
    component out dimension j c = Vec.sum (table.zipIdx.flatMap fun (row, i) =>
      (row.filter fun e => e.vertex = j).map fun e => e.weight * component source dimension i c)

theorem sums_outputValues {constraint : Constraint} {table : Table α} {source : Vec α}
    {dimension n : Nat} (htable : constraint = .consistent → table.length = n) :
    Sums constraint table source dimension n
      (outputValues constraint table source dimension n) where
  length := length_outputValues htable
  consistent hconstraint := by
    subst hconstraint
    refine ⟨htable rfl, fun i hi c hc => ?_⟩
    rw [component_consistent hi hc, gathered, Vec.sum, List.foldl_map]
  conservative hconstraint := by
    subst hconstraint
    intro j hj c hc
    rw [component_conservative hj hc, scattered, Vec.sum, List.foldl_flatMap]
    simp only [List.foldl_map, List.foldl_filter, decide_eq_true_eq]

variable {map : Mapping α} {p : Participant α}

/-- By a table that refers to vertices that are there, a transfer succeeds exactly if everything
fits. It then leaves in the output field the sums that the table makes of the input field as it was,
and changes nothing else; in place it does the same, and has changed nothing if it fails. -/
theorem transfer_exact (hrefers : map.RefersWithin p) (inputId outputId : DataId) :
    (map.overwrite inputId outputId).on p = settled p (map.transfer p inputId outputId) ∧
    ((∃ p', map.transfer p inputId outputId = .ok p') ↔
      ∃ plan input target, Fits plan map p inputId outputId input target) ∧
    ∀ p', map.transfer p inputId outputId = .ok p' → ∃ plan input target out,
      Fits plan map p inputId outputId input target ∧
      Sums map.config.constraint plan.table plan.source.values plan.source.dimension
        plan.output.vertices.length out ∧
      p.OnlyValues p' plan.outputRef outputId out := by
  refine ⟨overwrite_eq hrefers inputId outputId, ⟨fun ⟨p', hp'⟩ => ?_, ?_⟩, fun p' hp' => ?_⟩
  · obtain ⟨plan, hplan, -⟩ := bind_ok hp'
    exact ⟨plan, plan_fits hplan⟩
  · rintro ⟨plan, input, target, hfits⟩
    exact ⟨_, hfits.transfer_eq (hrefers.of_fits hfits)⟩
  · obtain ⟨plan, hplan, -⟩ := bind_ok hp'
    obtain ⟨input, target, hfits⟩ := plan_fits hplan
    rw [hfits.transfer_eq (hrefers.of_fits hfits)] at hp'
    obtain rfl := Except.ok.inj hp'
    exact ⟨plan, input, target, _, hfits, sums_outputValues hfits.rows_eq,
      Participant.onlyValues hfits.placed hfits.targetAt _⟩

end

/-- Two vertices with one field. -/
noncomputable def pair : Mesh ℝ where
  id := 0
  name := "pair"
  dimensions := 3
  vertices := [{ id := 0, position := ⟨0, 0, 0⟩ }, { id := 1, position := ⟨1, 0, 0⟩ }]
  fields := [⟨5, "load", 1, [1, -1]⟩]

/-- A mapping of a mesh onto itself. -/
noncomputable def mixing : Mapping ℝ where
  config := {}
  input := some 0
  output := some 0
  table := some [[⟨1, 1⟩], [⟨0, 1⟩, ⟨1, -1⟩]]

theorem mixing_refersWithin : mixing.RefersWithin { meshes := [pair] } := by
  intro input output table hattached htable
  obtain ⟨i, hi, hinput⟩ := hattached.inputAt
  obtain rfl := Option.some.inj hi
  obtain rfl := Except.ok.inj hinput
  obtain rfl := Option.some.inj htable
  have hcount : (mixing.config.constraint.target pair output).vertices.length = 2 := rfl
  rw [hcount]
  simp

theorem mixing_fits : ∃ table source,
    table = [[⟨1, 1⟩], [⟨0, 1⟩, ⟨1, -1⟩]] ∧ source = ⟨5, "load", 1, [1, -1]⟩ ∧
    Fits ⟨table, source, 0, pair, 2⟩ mixing { meshes := [pair] } 5 5 pair source :=
  have hmatching : mixing.Matching { meshes := [pair] } 5 5 pair pair ⟨5, "load", 1, [1, -1]⟩
      ⟨5, "load", 1, [1, -1]⟩ := ⟨⟨⟨0, rfl, rfl⟩, ⟨0, rfl, rfl⟩⟩, rfl, rfl, rfl, rfl, rfl⟩
  ⟨_, _, rfl, rfl, hmatching, rfl, rfl, rfl, rfl, rfl⟩

/-- A field that is mapped onto itself is read as it was before. -/
theorem transfer_exact_mixing :
    ∃ p', mixing.transfer { meshes := [pair] } 5 5 = .ok p' ∧
      (mixing.overwrite 5 5).on { meshes := [pair] } = (.ok (), p') ∧
      p'.mesh 0 = .ok { pair with fields := [⟨5, "load", 1, [-1, 2]⟩] } := by
  obtain ⟨table, source, htable, hsource, hfits⟩ := mixing_fits
  obtain ⟨hplace, hiff, hvalues⟩ := transfer_exact mixing_refersWithin 5 5
  obtain ⟨p', hp'⟩ := hiff.2 ⟨_, _, _, hfits⟩
  refine ⟨p', hp', by rw [hplace, hp']; rfl, ?_⟩
  obtain ⟨plan, input, target, out, hfits', hsums, honly⟩ := hvalues p' hp'
  obtain rfl := Except.ok.inj (hfits.plan_eq.symm.trans hfits'.plan_eq)
  subst htable hsource
  have hout : out = [-1, 2] := by
    obtain ⟨-, hrows⟩ := hsums.consistent rfl
    obtain ⟨x, y, rfl⟩ := List.length_eq_two.1 hsums.length
    have hx : x = -1 := (hrows 0 Nat.two_pos 0 Nat.one_pos).trans (by norm_num [Vec.sum, component])
    have hy : y = 2 := (hrows 1 Nat.one_lt_two 0 Nat.one_pos).trans
      (by norm_num [Vec.sum, component])
    rw [hx, hy]
  obtain ⟨m, front, field, back, hm, hfields, -, -, hmesh⟩ := honly.there
  obtain rfl := Except.ok.inj hm
  cases front with
  | nil =>
    obtain ⟨rfl, rfl⟩ := List.cons.inj hfields
    rw [hmesh, hout]
    rfl
  | cons g front => simp [pair] at hfields

end Mapping

end Cosimulation
