import Cosimulation.Proofs.Mapping.Overwriting
import Cosimulation.Proofs.Mesh.Fields

/-!
# A transfer that breaks off

A table keeps referring to vertices that its mesh has lost. The checks before a transfer compare the
lengths of the fields and the number of rows, but not what the rows refer to, so that such a table
can pass them. The loop then runs up to the first element that refers to a vertex that is not there
and ends in a violation, when the output field has already been set to zero and been added to.

`Table.cut` is what the loop has seen of the table by then, and `Fits.overwrite_cut` says that its
sums are what is left in the output field. With this there are four ways in which a transfer can end
(`Outcome`), and no other (`overwrite_outcome`): the checks refuse it, they cannot count the scalars
of a field, everything is written, or it breaks off.
-/

namespace Cosimulation

/-- The scalars of every field can be counted. -/
def Mesh.Countable {α : Type} (m : Mesh α) : Prop :=
  ∀ f ∈ m.fields, m.vertices.length * f.dimension < UInt64.size

namespace Mapping

section
variable {α β : Type}

/-! ## Loops that stop -/

/-- A loop stops at the first step that fails. -/
theorem InPlace.on_forM_stops {body : β → InPlace α Unit} {x : β} {after : List β}
    {e : Failure α} {p₂ : Participant α} : ∀ {before : List β} {p p₁ : Participant α},
    InPlace.on (forM before body) p = (.ok (), p₁) → (body x).on p₁ = (.error e, p₂) →
    InPlace.on (forM (before ++ x :: after) body) p = (.error e, p₂) := by
  intro before
  induction before with
  | nil =>
    intro p p₁ hbefore hx
    obtain rfl : p = p₁ := (Prod.mk.inj hbefore).2
    rw [List.nil_append, List.forM_cons, InPlace.on_bind, hx]
  | cons y ys ih =>
    intro p p₁ hbefore hx
    rw [List.forM_cons, InPlace.on_bind] at hbefore
    rw [List.cons_append, List.forM_cons, InPlace.on_bind]
    rcases hy : (body y).on p with ⟨e' | _, p'⟩
    · rw [hy] at hbefore
      cases (Prod.mk.inj hbefore).1
    · rw [hy] at hbefore
      exact ih hbefore hx

/-- What a list begins with as long as a test holds is followed by what fails it, if anything
does. -/
theorem takeWhile_split {test : β → Bool} : ∀ {xs : List β}, xs.all test = false →
    ∃ x rest, xs = xs.takeWhile test ++ x :: rest ∧ test x = false := by
  intro xs
  induction xs with
  | nil => exact fun h => nomatch h
  | cons y ys ih =>
    intro h
    by_cases hy : test y = true
    · rw [List.all_cons, hy, Bool.true_and] at h
      obtain ⟨x, rest, hys, hx⟩ := ih h
      exact ⟨x, rest, by rw [List.takeWhile_cons_of_pos hy, List.cons_append, ← hys], hx⟩
    · exact ⟨y, ys, by rw [List.takeWhile_cons_of_neg hy, List.nil_append],
        Bool.eq_false_iff.2 hy⟩

theorem changeValues_stops {p : Participant α} {ref : MeshRef} {m : Mesh α} {id : DataId}
    {field : Field α} {f : Vec α → Except (Violation α) (Vec α)} {v : Vec α} {violation}
    (hm : p.mesh ref = .ok m) (hfield : m.field id = .ok field) (hf : f v = .error violation) :
    (changeValues ref id f).on (holding p ref m id v) =
      (.error (.violation violation), holding p ref m id v) := by
  have hheld : (holding p ref m id v).mesh ref = .ok (m.withValues id v) :=
    Participant.mesh_setMesh hm
  simp only [changeValues, InPlace.on_bind, InPlace.on_get, InPlace.on_ofExcept, hheld,
    Mesh.field_withValues hfield, mapError_ok, hf]
  rfl

theorem scalarAt_beyond {v : Vec α} {j : Nat} (h : v.length ≤ j) :
    scalarAt v j = .error .bounds := by
  rw [scalarAt, List.getElem?_eq_none h]

/-! ## Where a table is cut off -/

/-- The table up to the first element that does not refer to one of the first `count` vertices; the
rows after it are empty. -/
def Table.cut (count : Nat) : Table α → Table α
  | [] => []
  | row :: rows =>
    if row.all fun e => e.vertex < count then row :: Table.cut count rows
    else (row.takeWhile fun e => e.vertex < count) :: rows.map fun _ => []

theorem Table.length_cut (count : Nat) (table : Table α) :
    (Table.cut count table).length = table.length := by
  induction table with
  | nil => rfl
  | cons row rows ih =>
    rw [Table.cut]
    split
    · rw [List.length_cons, List.length_cons, ih]
    · rw [List.length_cons, List.length_cons, List.length_map]

end

section
variable {α : Type} [Scalar α] {map : Mapping α} {p : Participant α} {inputId outputId : DataId}
  {input : Mesh α} {target : Field α} {plan : Plan α}

/-! ## A table that refers too far -/

/-- Empty rows add nothing. -/
theorem foldl_addRow_empty {constraint : Constraint} {source : Vec α} {dimension : Nat} :
    ∀ {rows : Table α} {k : Nat} {out : Vec α},
      ((rows.map fun _ => ([] : Row α)).zipIdx k).foldl
        (fun out (row, i) => addRow constraint source dimension row i out) out = out := by
  intro rows
  induction rows with
  | nil => exact fun {_ _} => rfl
  | cons _ rows ih =>
    intro k out
    exact ih

/-- An element that refers to a vertex that is not there stops the transfer before anything of it is
added: what it reads is not there, or the place where it is to be added. -/
theorem Fits.addComponent_stops (h : Fits plan map p inputId outputId input target) {i : Nat}
    {e : Element α} (hi : i < plan.table.length)
    (he : (map.config.constraint.target input plan.output).vertices.length ≤ e.vertex)
    (hpos : 0 < plan.source.dimension) {out : Vec α}
    (hout : out.length = plan.output.vertices.length * plan.source.dimension) :
    (addComponent map.config.constraint plan outputId i e 0).on
        (holding p plan.outputRef plan.output outputId out) =
      (.error (.violation .bounds), holding p plan.outputRef plan.output outputId out) := by
  have hstart : i < (map.config.constraint.start input plan.output).vertices.length := h.length ▸ hi
  have hfrom := h.sourceComplete.length_eq
  have hcase : plan.source.values.length ≤
        (map.config.constraint.connects i e.vertex).2 * plan.source.dimension + 0 ∨
      (map.config.constraint.connects i e.vertex).2 * plan.source.dimension + 0 <
        plan.source.values.length ∧
      out.length ≤ (map.config.constraint.connects i e.vertex).1 * plan.source.dimension + 0 := by
    rw [hfrom, hout]
    cases hconstraint : map.config.constraint with
    | consistent =>
      rw [hconstraint] at he
      exact .inl (Nat.mul_le_mul_right _ he)
    | conservative =>
      rw [hconstraint] at he hstart
      exact .inr ⟨Mesh.place_lt hstart hpos, Nat.mul_le_mul_right _ he⟩
  rw [addComponent]
  dsimp only
  rw [InPlace.on_bind, InPlace.on_ofExcept]
  rcases hcase with hread | ⟨hread, hwrite⟩
  · rw [scalarAt_beyond hread]
    rfl
  · rw [scalarAt_eq hread]
    exact changeValues_stops h.placed h.targetAt (if_neg hwrite.not_gt)

/-- A row that refers too far adds what comes before the first element that does. -/
theorem Fits.row_stops (h : Fits plan map p inputId outputId input target)
    (hpos : 0 < plan.source.dimension) {i : Nat} {row : Row α} (hi : i < plan.table.length)
    (hrow : (row.all fun e => e.vertex < plan.referred) = false) {out : Vec α}
    (hout : out.length = plan.output.vertices.length * plan.source.dimension) :
    (overwriteRow map.config.constraint plan outputId row i).on
        (holding p plan.outputRef plan.output outputId out) =
      (.error (.violation .bounds), holding p plan.outputRef plan.output outputId
        (addRow map.config.constraint plan.source.values plan.source.dimension
          (row.takeWhile fun e => e.vertex < plan.referred) i out)) := by
  obtain ⟨e, rest, hsplit, he⟩ := takeWhile_split hrow
  have hwithin := List.all_eq_true.1 (List.all_takeWhile (l := row)
    (p := fun e => decide (e.vertex < plan.referred)))
  generalize row.takeWhile (fun e => decide (e.vertex < plan.referred)) = seen at *
  have hseen := h.row_on hi (fun e' he' => h.referred ▸ of_decide_eq_true (hwithin e' he')) hout
  have hbeyond := h.referred ▸ Nat.not_lt.1 (of_decide_eq_false he)
  obtain ⟨n, hn⟩ := Nat.exists_eq_succ_of_ne_zero hpos.ne'
  have hrange : List.range plan.source.dimension = [] ++ 0 :: (List.range n).map Nat.succ := by
    rw [hn, List.range_succ_eq_map, List.nil_append]
  rw [hsplit]
  refine InPlace.on_forM_stops hseen ?_
  rw [hrange]
  exact InPlace.on_forM_stops rfl
    (h.addComponent_stops hi hbeyond hpos (length_addRow.trans hout))

/-- The loop stops where the table is cut off. -/
theorem Fits.rows_stop (h : Fits plan map p inputId outputId input target)
    (hpos : 0 < plan.source.dimension) : ∀ {rows : Table α} {k : Nat},
    k + rows.length ≤ plan.table.length → Table.refersBelow rows plan.referred = false →
    ∀ {out : Vec α}, out.length = plan.output.vertices.length * plan.source.dimension →
    InPlace.on (forM (rows.zipIdx k) fun (row, i) =>
        overwriteRow map.config.constraint plan outputId row i)
        (holding p plan.outputRef plan.output outputId out) =
      (.error (.violation .bounds), holding p plan.outputRef plan.output outputId
        (((Table.cut plan.referred rows).zipIdx k).foldl (fun out (row, i) =>
          addRow map.config.constraint plan.source.values plan.source.dimension row i out)
          out)) := by
  intro rows
  induction rows with
  | nil => exact fun _ hbelow => nomatch hbelow
  | cons row rows ih =>
    intro k hk hbelow out hout
    have hi : k < plan.table.length := by
      rw [List.length_cons] at hk
      omega
    rw [List.zipIdx_cons, Table.cut]
    by_cases hrow : (row.all fun e => e.vertex < plan.referred) = true
    · have hrest : Table.refersBelow rows plan.referred = false := by
        rw [Table.refersBelow, List.all_cons, hrow, Bool.true_and] at hbelow
        exact hbelow
      have hfirst := h.row_on hi (fun e he => h.referred ▸ of_decide_eq_true
        (List.all_eq_true.1 hrow e he)) hout
      rw [if_pos hrow, List.forM_cons, InPlace.on_bind, hfirst, List.zipIdx_cons, List.foldl_cons]
      refine ih ?_ hrest (length_addRow.trans hout)
      rw [List.length_cons] at hk
      omega
    · rw [if_neg hrow, List.forM_cons, InPlace.on_bind,
        h.row_stops hpos hi (Bool.eq_false_iff.2 hrow) hout, List.zipIdx_cons, List.foldl_cons]
      exact congrArg (fun v => (_, holding p plan.outputRef plan.output outputId v))
        foldl_addRow_empty.symm

/-- A transfer by a table that refers too far ends in a violation, and leaves the values of the
table that is cut off in the output field. -/
theorem Fits.overwrite_cut (h : Fits plan map p inputId outputId input target)
    (hpos : 0 < plan.source.dimension)
    (hbelow : Table.refersBelow plan.table plan.referred = false) :
    (map.overwrite inputId outputId).on p =
      (.error (.violation .bounds), holding p plan.outputRef plan.output outputId
        (outputValues map.config.constraint (Table.cut plan.referred plan.table) plan.source.values
          plan.source.dimension plan.output.vertices.length)) := by
  have hrows (hconstraint : map.config.constraint = .consistent) :
      (Table.cut plan.referred plan.table).length = plan.output.vertices.length :=
    (Table.length_cut _ _).trans (h.rows_eq hconstraint)
  rw [h.overwrite_zeros, ← addShares_zeros hrows]
  exact h.rows_stop hpos (Nat.zero_add _).le hbelow List.length_replicate

end

/-! ## What the checks refuse -/

section
variable {α ε β γ : Type}

theorem bind_error {x : Except ε β} {f : β → Except ε γ} {e : ε} (h : x >>= f = .error e) :
    x = .error e ∨ ∃ b, x = .ok b ∧ f b = .error e := by
  cases x with
  | error e' => exact .inl (congrArg Except.error (Except.error.inj h))
  | ok b => exact .inr ⟨b, rfl, h⟩

/-- A fault is no violation. -/
theorem mapError_fault_ne {x : Except (Fault α) β} {v : Violation α} :
    x.mapError Failure.fault ≠ .error (.violation v) := by
  cases x <;> exact nofun

variable {map : Mapping α} {p : Participant α} {inputId outputId : DataId}

/-- The meshes that a mapping names are there. -/
structure Placed (map : Mapping α) (p : Participant α) : Prop where
  input : ∀ i, map.input = some i → i < p.meshes.length
  output : ∀ o, map.output = some o → o < p.meshes.length

/-- If a mapping names two meshes, they are attached. -/
theorem Placed.attached (h : map.Placed p) {i o : MeshRef} (hends : map.ends = .ok (i, o)) :
    ∃ input output, map.Attached p input output ∧ p.mesh i = .ok input ∧ p.mesh o = .ok output := by
  obtain ⟨hi, ho⟩ := ends_eq_ok hends
  have hmesh {ref : MeshRef} (href : ref < p.meshes.length) : ∃ m, p.mesh ref = .ok m :=
    ⟨p.meshes[ref], by rw [Participant.mesh, List.getElem?_eq_getElem href]⟩
  obtain ⟨input, hinput⟩ := hmesh (h.input i hi)
  obtain ⟨output, houtput⟩ := hmesh (h.output o ho)
  exact ⟨input, output, ⟨⟨i, hi, hinput⟩, ⟨o, ho, houtput⟩⟩, hinput, houtput⟩

/-- The scalars of a field cannot be counted only if there are too many. -/
theorem scalarCount_broken {m : Mesh α} {f : Field α} {dimension : Nat} {v : Violation α}
    (hf : f ∈ m.fields) (hdimension : f.dimension = dimension)
    (h : ((scalarCount m.vertices.length dimension).mapError Failure.violation :
      Except (Failure α) Nat) = .error (.violation v)) : v = .bounds ∧ ¬ m.Countable := by
  subst hdimension
  unfold scalarCount at h
  split at h
  next => cases h
  next hsize =>
    obtain rfl := Failure.violation.inj (Except.error.inj h)
    exact ⟨rfl, fun hcount => hsize (hcount f hf)⟩

theorem expectEntries_ne {id : DataId} {expected found : Nat} {v : Violation α} :
    (expectEntries id expected found : Except (Failure α) Unit) ≠ .error (.violation v) := by
  unfold expectEntries
  split <;> exact nofun

/-- If the meshes are there, all that a plan can break on is to count scalars. -/
theorem plan_violation (hplaced : map.Placed p) {v : Violation α}
    (h : map.plan p inputId outputId = .error (.violation v)) :
    v = .bounds ∧ ∃ ref m, p.mesh ref = .ok m ∧ ¬ m.Countable := by
  obtain ⟨⟨i, o⟩, hends, h⟩ := (bind_error h).resolve_left mapError_fault_ne
  obtain ⟨input, output, -, hinput, houtput⟩ := hplaced.attached (mapError_eq_ok.1 hends)
  dsimp only at h
  rw [hinput, mapError_ok, ok_bind, houtput, mapError_ok, ok_bind] at h
  split at h
  next => cases Except.error.inj h
  next table htable =>
    obtain ⟨source, hsource, h⟩ := (bind_error h).resolve_left mapError_fault_ne
    obtain ⟨target, htarget, h⟩ := (bind_error h).resolve_left mapError_fault_ne
    rw [mapError_eq_ok] at hsource htarget
    by_cases hdimension : target.dimension = source.dimension
    · replace h := (if_neg (not_not.2 hdimension)).symm.trans h
      rcases bind_error h with hcount | ⟨_, -, h⟩
      · exact (scalarCount_broken (Mesh.mem_fields hsource) rfl hcount).imp_right
          fun hmany => ⟨i, input, hinput, hmany⟩
      obtain ⟨_, -, h⟩ := (bind_error h).resolve_left expectEntries_ne
      rcases bind_error h with hcount | ⟨_, -, h⟩
      · exact (scalarCount_broken (Mesh.mem_fields htarget) hdimension hcount).imp_right
          fun hmany => ⟨o, output, houtput, hmany⟩
      obtain ⟨_, -, h⟩ := (bind_error h).resolve_left expectEntries_ne
      obtain ⟨_, -, h⟩ := (bind_error h).resolve_left expectEntries_ne
      cases h
    · replace h := (if_pos hdimension).symm.trans h
      cases Except.error.inj h

end

/-! ## How a transfer ends -/

section
variable {α : Type} [Scalar α] {map : Mapping α} {p : Participant α}

/-- What a transfer in place comes to, and what it leaves. -/
inductive Outcome (map : Mapping α) (p : Participant α) (inputId outputId : DataId) :
    Except (Failure α) Unit × Participant α → Prop
  /-- The checks refuse it. -/
  | refused (fault : Fault α) (h : map.plan p inputId outputId = .error (.fault fault)) :
    Outcome map p inputId outputId (.error (.fault fault), p)
  /-- A field has more scalars than can be counted. -/
  | uncountable (h : ∃ ref m, p.mesh ref = .ok m ∧ ¬ m.Countable) :
    Outcome map p inputId outputId (.error (.violation .bounds), p)
  /-- Everything is written. -/
  | complete {plan : Plan α} {input : Mesh α} {target : Field α} {out : Vec α}
      (fits : Fits plan map p inputId outputId input target)
      (within : Table.refersBelow plan.table plan.referred = true)
      (sums : Sums map.config.constraint plan.table plan.source.values plan.source.dimension
        plan.output.vertices.length out) :
    Outcome map p inputId outputId (.ok (), holding p plan.outputRef plan.output outputId out)
  /-- The table refers to a vertex that is not there; what comes before has been written. -/
  | torn {plan : Plan α} {input : Mesh α} {target : Field α} {out : Vec α}
      (fits : Fits plan map p inputId outputId input target)
      (beyond : Table.refersBelow plan.table plan.referred = false)
      (sums : Sums map.config.constraint (Table.cut plan.referred plan.table) plan.source.values
        plan.source.dimension plan.output.vertices.length out) :
    Outcome map p inputId outputId
      (.error (.violation .bounds), holding p plan.outputRef plan.output outputId out)

/-- There is no other way for a transfer to end. -/
theorem overwrite_outcome (hplaced : map.Placed p)
    (hdimensioned : ∀ ref m, p.mesh ref = .ok m → m.Dimensioned) (inputId outputId : DataId) :
    Outcome map p inputId outputId ((map.overwrite inputId outputId).on p) := by
  cases hplan : map.plan p inputId outputId with
  | error failure =>
    rw [overwrite_unplanned hplan]
    cases failure with
    | fault fault => exact .refused fault hplan
    | violation v =>
      obtain ⟨rfl, hmany⟩ := plan_violation hplaced hplan
      exact .uncountable hmany
  | ok plan =>
    obtain ⟨input, target, hfits⟩ := plan_fits hplan
    cases hbelow : Table.refersBelow plan.table plan.referred with
    | true =>
      rw [hfits.overwrite_on (hfits.refers_of_below hbelow)]
      exact .complete hfits hbelow (sums_outputValues hfits.rows_eq)
    | false =>
      obtain ⟨i, -, hinput⟩ := hfits.inputAt
      rw [hfits.overwrite_cut ((hdimensioned i input hinput).field hfits.sourceAt) hbelow]
      exact .torn hfits hbelow (sums_outputValues fun hconstraint =>
        (Table.length_cut _ _).trans (hfits.rows_eq hconstraint))

/-- A transfer answers the same, whether it is made in place or not. -/
theorem overwrite_answer (hdimensioned : ∀ ref m, p.mesh ref = .ok m → m.Dimensioned)
    (inputId outputId : DataId) : ((map.overwrite inputId outputId).on p).1 =
      (map.transfer p inputId outputId).map fun _ => () := by
  cases hplan : map.plan p inputId outputId with
  | error failure =>
    rw [overwrite_unplanned hplan, transfer, hplan]
    rfl
  | ok plan =>
    obtain ⟨input, target, hfits⟩ := plan_fits hplan
    cases hbelow : Table.refersBelow plan.table plan.referred with
    | true =>
      have hrows := hfits.refers_of_below hbelow
      rw [hfits.overwrite_on hrows, hfits.transfer_eq hrows]
      rfl
    | false =>
      obtain ⟨i, -, hinput⟩ := hfits.inputAt
      rw [hfits.overwrite_cut ((hdimensioned i input hinput).field hfits.sourceAt) hbelow,
        transfer, hplan, ok_bind, hbelow]
      rfl

end

end Mapping

end Cosimulation
