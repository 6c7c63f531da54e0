import Cosimulation.Proofs.Mapping.Tables

/-!
# Transfer by a table

A field on a mesh is read here by vertex and component (`component`), and what a mapping writes is
arranged in the same way (`arranged`).

The weights with which a row refers to the vertices, `Row.weightAt`, make a table into a matrix. A
consistent mapping multiplies each component with this matrix (`gathered_eq_sum`), a conservative
mapping with its transpose (`scattered_eq_sum`). That is all the algebra of a mapping is about: what
holds of a transfer beyond this holds of the matrix.

What a transfer plans fits (`plan_fits`): the fields belong together (`Matching`) and the table has
a row for every vertex (`Fits`). If the rows refer to vertices that are there, it goes through
(`Fits.transfer_eq`, `Matching.yields`).
-/

namespace Cosimulation

/-! ## Fields of a mesh -/

section
variable {α : Type}

theorem Mesh.find?_setValues {id : DataId} {values : Vec α} {f : Field α} : ∀ {fs : List (Field α)},
    (fs.find? fun g => g.id == id) = some f →
      (Mesh.setValues id values fs).find? (fun g => g.id == id) = some { f with values } := by
  intro fs
  induction fs with
  | nil => exact fun h => nomatch h
  | cons g fs ih =>
    intro h
    rw [Mesh.setValues]
    by_cases hg : g.id = id
    · rw [List.find?_cons_of_pos (by simpa using hg)] at h
      obtain rfl := Option.some.inj h
      rw [if_pos hg, List.find?_cons_of_pos (by simpa using hg)]
    · rw [List.find?_cons_of_neg (by simpa using hg)] at h
      rw [if_neg hg, List.find?_cons_of_neg (by simpa using hg), ih h]

/-- A field has the values it was given. -/
theorem Mesh.field_withValues {id : DataId} {values : Vec α} {m : Mesh α} {f : Field α}
    (h : m.field id = .ok f) : (m.withValues id values).field id = .ok { f with values } := by
  unfold Mesh.field at h ⊢
  split at h
  next g hg =>
    obtain rfl := Except.ok.inj h
    rw [Mesh.withValues, Mesh.find?_setValues hg]
  next => cases h

/-- A mesh that was put in a place is found there. -/
theorem Participant.mesh_setMesh {p : Participant α} {ref : MeshRef} {m m' : Mesh α}
    (h : p.mesh ref = .ok m) : (p.setMesh ref m').mesh ref = .ok m' := by
  unfold Participant.mesh at h ⊢
  split at h
  next hget =>
    have hlt := (List.getElem?_eq_some_iff.1 hget).1
    simp [Participant.setMesh, hlt]
  next => cases h

end

namespace Mapping

open Finset

/-! ## Values by vertex and component -/

section
variable {α β : Type} {dimension : Nat} {f : β → Nat → α}

/-- The components of one entry after those of the other. -/
def arranged (dimension : Nat) (f : β → Nat → α) (xs : List β) : Vec α :=
  xs.flatMap fun x => (List.range dimension).map (f x)

theorem arranged_cons (x : β) (xs : List β) :
    arranged dimension f (x :: xs) = (List.range dimension).map (f x) ++ arranged dimension f xs :=
  rfl

@[simp]
theorem length_arranged (xs : List β) :
    (arranged dimension f xs).length = xs.length * dimension := by
  induction xs with
  | nil => simp [arranged]
  | cons x xs ih => simp [arranged_cons, ih, Nat.succ_mul, Nat.add_comm]

theorem getElem?_arranged {c : Nat} (hc : c < dimension) : ∀ {xs : List β} {v : Nat}
    (hv : v < xs.length), (arranged dimension f xs)[v * dimension + c]? = some (f xs[v] c) := by
  intro xs
  induction xs with
  | nil => exact fun hv => absurd hv (Nat.not_lt_zero _)
  | cons x xs ih =>
    intro v hv
    rw [arranged_cons]
    cases v with
    | zero =>
      rw [Nat.zero_mul, Nat.zero_add, List.getElem?_append_left (by simpa using hc)]
      simp [hc]
    | succ v =>
      have hplace : (v + 1) * dimension + c - dimension = v * dimension + c := by
        rw [Nat.succ_mul]
        omega
      rw [List.getElem?_append_right (by simp [Nat.succ_mul]; omega), List.length_map,
        List.length_range, hplace]
      exact ih (Nat.lt_of_succ_lt_succ hv)

theorem component_arranged [Scalar α] {xs : List β} {v c : Nat} (hv : v < xs.length)
    (hc : c < dimension) : component (arranged dimension f xs) dimension v c = f xs[v] c := by
  rw [component, List.getD_eq_getElem?_getD, getElem?_arranged hc hv]
  rfl

end

section
variable {α : Type} [Scalar α] {table : Table α} {values : Vec α} {dimension outputs v c : Nat}

theorem length_consistent :
    (outputValues .consistent table values dimension outputs).length = table.length * dimension :=
  length_arranged table

theorem length_conservative :
    (outputValues .conservative table values dimension outputs).length = outputs * dimension :=
  (length_arranged (List.range outputs)).trans (by rw [List.length_range])

theorem component_consistent (hv : v < table.length) (hc : c < dimension) :
    component (outputValues .consistent table values dimension outputs) dimension v c =
      gathered table[v] values dimension c := component_arranged hv hc

theorem component_conservative (hv : v < outputs) (hc : c < dimension) :
    component (outputValues .conservative table values dimension outputs) dimension v c =
      scattered table values dimension v c := by
  have hv : v < (List.range outputs).length := by rwa [List.length_range]
  refine (component_arranged hv hc).trans ?_
  rw [List.getElem_range]

end

/-- The product of two vectors, by vertex and component. -/
theorem dot_eq_sum {v w : Vec ℝ} {count dimension : Nat} (hv : v.length = count * dimension)
    (hw : w.length = count * dimension) : Vec.dot v w =
      ∑ i ∈ range count, ∑ c ∈ range dimension,
        component v dimension i c * component w dimension i c := by
  have hflat : Vec.dot v w = ∑ j ∈ range (count * dimension), v.getD j 0 * w.getD j 0 := by
    rw [dot_eq_inner hv hw, PiLp.inner_apply, Finset.sum_range]
    exact Finset.sum_congr rfl fun i _ => by
      simp [List.getD_eq_getElem?_getD, mul_comm]
  have hrows (f : Nat → ℝ) : ∀ n, ∑ j ∈ range (n * dimension), f j =
      ∑ i ∈ range n, ∑ c ∈ range dimension, f (i * dimension + c) := by
    intro n
    induction n with
    | zero => simp
    | succ n ih => rw [Nat.succ_mul, sum_range_add, ih, sum_range_succ]
  exact hflat.trans (hrows _ count)

/-! ## The table as a matrix -/

/-- The weight with which a row refers to a vertex. -/
noncomputable def Row.weightAt (row : Row ℝ) (v : Nat) : ℝ :=
  (row.map fun e => if e.vertex = v then e.weight else 0).sum

section
variable {count dimension c : Nat} {row : Row ℝ} {table : Table ℝ} {values : Vec ℝ}

/-- What a row makes of a quantity on the vertices. -/
theorem sum_weightAt (h : ∀ e ∈ row, e.vertex < count) (x : Nat → ℝ) :
    ∑ v ∈ range count, Row.weightAt row v * x v =
      (row.map fun e => e.weight * x e.vertex).sum := by
  induction row with
  | nil => simp [Row.weightAt]
  | cons e row ih =>
    have he : ∑ v ∈ range count, (if e.vertex = v then e.weight else 0) * x v =
        e.weight * x e.vertex := by
      simp [ite_mul, h e List.mem_cons_self]
    calc ∑ v ∈ range count, Row.weightAt (e :: row) v * x v
        = ∑ v ∈ range count, ((if e.vertex = v then e.weight else 0) * x v +
            Row.weightAt row v * x v) := by
          simp only [Row.weightAt, List.map_cons, List.sum_cons, add_mul]
      _ = _ := by
          rw [sum_add_distrib, he, ih fun e' he' => h e' (List.mem_cons_of_mem _ he'),
            List.map_cons, List.sum_cons]

theorem foldl_add {β : Type} (f : β → ℝ) : ∀ (xs : List β) (start : ℝ),
    xs.foldl (fun sum x => sum + f x) start = start + (xs.map f).sum := by
  intro xs
  induction xs with
  | nil => simp
  | cons x xs ih => intro start; simp [ih, add_assoc]

theorem gathered_eq : gathered row values dimension c =
    (row.map fun e => e.weight * component values dimension e.vertex c).sum :=
  (foldl_add _ row 0).trans (zero_add _)

/-- Gathering multiplies with the matrix. -/
theorem gathered_eq_sum (h : ∀ e ∈ row, e.vertex < count) : gathered row values dimension c =
    ∑ v ∈ range count, Row.weightAt row v * component values dimension v c := by
  rw [gathered_eq, sum_weightAt h]

/-- What a row hands out to a vertex. -/
theorem foldl_weightAt (v : Nat) (y start : ℝ) :
    row.foldl (fun sum e => if e.vertex = v then sum + e.weight * y else sum) start =
      start + Row.weightAt row v * y := by
  have hstep : (fun (sum : ℝ) (e : Element ℝ) =>
      if e.vertex = v then sum + e.weight * y else sum) =
        fun sum e => sum + (if e.vertex = v then e.weight else 0) * y := by
    funext sum e
    split <;> simp
  rw [hstep, foldl_add, Row.weightAt, List.sum_map_mul_right]

/-- Scattering multiplies with the transpose. -/
theorem scattered_eq_sum (v : Nat) : scattered table values dimension v c =
    ∑ i : Fin table.length, Row.weightAt table[i] v * component values dimension i c := by
  simp only [scattered, foldl_weightAt]
  rw [foldl_add, zero_add, ← List.sum_ofFn]
  refine congrArg List.sum (List.ext_getElem (by simp) fun i hi _ => ?_)
  simp

end

/-! ## Carrying a field over -/

section
variable {α : Type} {map : Mapping α} {p : Participant α} {inputId outputId : DataId}
  {input output : Mesh α} {source target : Field α}

/-- Two fields that belong together: one on the input mesh and one on the output mesh of a mapping,
of one dimension and as long as the vertices need. -/
structure Matching (map : Mapping α) (p : Participant α) (inputId outputId : DataId)
    (input output : Mesh α) (source target : Field α) : Prop
    extends map.Attached p input output where
  sourceAt : input.field inputId = .ok source
  targetAt : output.field outputId = .ok target
  dimension : target.dimension = source.dimension
  sourceComplete : Mesh.Field.Complete input.vertices.length source
  targetComplete : Mesh.Field.Complete output.vertices.length target

/-- The plan carries one of two fields that belong together over to the other, by a table with a row
for every vertex of the mesh it starts from. -/
structure Fits (plan : Plan α) (map : Mapping α) (p : Participant α) (inputId outputId : DataId)
    (input : Mesh α) (target : Field α) : Prop
    extends map.Matching p inputId outputId input plan.output plan.source target where
  tableAt : map.table = some plan.table
  outputRef : map.output = some plan.outputRef
  placed : p.mesh plan.outputRef = .ok plan.output
  length : plan.table.length = (map.config.constraint.start input plan.output).vertices.length
  referred : plan.referred = (map.config.constraint.target input plan.output).vertices.length

theorem Fits.plan_eq {plan : Plan α} (h : Fits plan map p inputId outputId input target) :
    map.plan p inputId outputId = .ok plan := by
  obtain ⟨i, hi, hinput⟩ := h.inputAt
  have hends : map.ends = .ok (i, plan.outputRef) := by rw [ends, hi, h.outputRef]
  have hsource : scalarCount (α := α) input.vertices.length plan.source.dimension =
      .ok plan.source.values.length := h.sourceComplete
  have htarget : scalarCount (α := α) plan.output.vertices.length plan.source.dimension =
      .ok target.values.length := h.dimension ▸ h.targetComplete
  have hlength := h.length
  have hreferred := h.referred
  simp only [Mapping.plan, hends, hinput, h.placed, h.tableAt, h.sourceAt, h.targetAt,
    h.dimension, hsource, htarget, mapError_ok, ok_bind, expectEntries, ne_eq, not_true_eq_false,
    if_false, if_true]
  cases hconstraint : map.config.constraint with
  | consistent =>
    rw [hconstraint] at hlength hreferred
    simp only [hlength, Constraint.start, if_true, ok_bind]
    exact congrArg Except.ok (congrArg (Plan.mk _ _ _ _) hreferred.symm)
  | conservative =>
    rw [hconstraint] at hlength hreferred
    simp only [hlength, Constraint.start, if_true, ok_bind]
    exact congrArg Except.ok (congrArg (Plan.mk _ _ _ _) hreferred.symm)

theorem expectEntries_ok {id : DataId} {expected found : Nat}
    (h : (expectEntries id expected found : Except (Failure α) Unit) = .ok ()) :
    expected = found := by
  unfold expectEntries at h
  split at h
  next heq => exact heq
  next => cases h

theorem ends_eq_ok {i o : MeshRef} (h : map.ends = .ok (i, o)) :
    map.input = some i ∧ map.output = some o := by
  unfold ends at h
  split at h
  next i' o' hi ho =>
    obtain ⟨rfl, rfl⟩ := Prod.mk.inj (Except.ok.inj h)
    exact ⟨hi, ho⟩
  all_goals cases h

/-- What is planned fits. -/
theorem plan_fits {plan : Plan α} (h : map.plan p inputId outputId = .ok plan) :
    ∃ input target, Fits plan map p inputId outputId input target := by
  obtain ⟨⟨i, o⟩, hends, h⟩ := bind_ok h
  obtain ⟨input, hinput, h⟩ := bind_ok h
  obtain ⟨output, houtput, h⟩ := bind_ok h
  rw [mapError_eq_ok] at hends hinput houtput
  have hrefs := ends_eq_ok hends
  split at h
  next => cases h
  next table htable =>
    obtain ⟨source, hsource, h⟩ := bind_ok h
    obtain ⟨target, htarget, h⟩ := bind_ok h
    rw [mapError_eq_ok] at hsource htarget
    by_cases hdimension : target.dimension = source.dimension
    · replace h := (if_neg (not_not.2 hdimension)).symm.trans h
      obtain ⟨n, hn, h⟩ := bind_ok h
      obtain ⟨⟨⟩, hsourceLength, h⟩ := bind_ok h
      obtain ⟨k, hk, h⟩ := bind_ok h
      obtain ⟨⟨⟩, htargetLength, h⟩ := bind_ok h
      obtain ⟨⟨⟩, hrows, h⟩ := bind_ok h
      rw [mapError_eq_ok] at hn hk
      obtain rfl := Except.ok.inj h
      refine ⟨input, target, ⟨⟨⟨⟨i, hrefs.1, hinput⟩, ⟨o, hrefs.2, houtput⟩⟩, hsource, htarget,
        hdimension, ?_, ?_⟩, htable, hrefs.2, houtput, ?_, ?_⟩⟩
      · rw [Mesh.Field.Complete, hn, expectEntries_ok hsourceLength]
      · rw [Mesh.Field.Complete, hdimension, hk, expectEntries_ok htargetLength]
      · have hcount := expectEntries_ok hrows
        cases hconstraint : map.config.constraint <;> rw [hconstraint] at hcount <;>
          exact hcount.symm
      · cases map.config.constraint <;> rfl
    · replace h := (if_pos hdimension).symm.trans h
      cases h

theorem Table.refersBelow_iff {table : Table α} {count : Nat} :
    Table.refersBelow table count = true ↔ ∀ row ∈ table, ∀ e ∈ row, e.vertex < count := by
  simp only [Table.refersBelow, List.all_eq_true, decide_eq_true_eq]

variable [Scalar α]

/-- What fits is carried over if the rows refer to vertices that are there. -/
theorem Fits.transfer_eq {plan : Plan α} (h : Fits plan map p inputId outputId input target)
    (hrefers : ∀ row ∈ plan.table, ∀ e ∈ row,
      e.vertex < (map.config.constraint.target input plan.output).vertices.length) :
    map.transfer p inputId outputId = .ok (p.setMesh plan.outputRef (plan.output.withValues outputId
      (outputValues map.config.constraint plan.table plan.source.values plan.source.dimension
        plan.output.vertices.length))) := by
  have hbelow : plan.table.refersBelow plan.referred = true :=
    h.referred ▸ Table.refersBelow_iff.2 hrefers
  rw [transfer, h.plan_eq]
  exact if_pos hbelow

/-- A transfer succeeds and leaves these values in the field of the output mesh. -/
def Yields (map : Mapping α) (p : Participant α) (inputId outputId : DataId) (values : Vec α) :
    Prop :=
  ∃ p' o output field, map.transfer p inputId outputId = .ok p' ∧ map.output = some o ∧
    p'.mesh o = .ok output ∧ output.field outputId = .ok field ∧ field.values = values

/-- A transfer goes through if the table has a row for every vertex of the mesh it starts from and
refers to vertices of the other mesh only. -/
theorem Matching.yields (h : map.Matching p inputId outputId input output source target)
    {table : Table α} (htable : map.table = some table)
    (hlength : table.length = (map.config.constraint.start input output).vertices.length)
    (hrefers : ∀ row ∈ table, ∀ e ∈ row,
      e.vertex < (map.config.constraint.target input output).vertices.length) :
    map.Yields p inputId outputId (outputValues map.config.constraint table source.values
      source.dimension output.vertices.length) := by
  obtain ⟨o, ho, houtput⟩ := h.outputAt
  have hfits : Fits ⟨table, source, o, output,
      (map.config.constraint.target input output).vertices.length⟩ map p inputId outputId input
      target := ⟨h, htable, ho, houtput, hlength, rfl⟩
  exact ⟨_, o, _, _, hfits.transfer_eq hrefers, ho, Participant.mesh_setMesh houtput,
    Mesh.field_withValues h.targetAt, rfl⟩

end

end Mapping

end Cosimulation
