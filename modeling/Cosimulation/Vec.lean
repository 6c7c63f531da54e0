import Cosimulation.Fault
import Cosimulation.Scalar

/-!
# Vectors as lists

Vectors are lists of scalars. The operations that combine two vectors come in two forms: a plain one
that pairs entries up, for vectors whose lengths agree by construction, and a guarded one that
reports a `Violation` when the lengths differ (`minus`, `plusScaled`, `overwrite`).

Sums run from the left, starting at zero.
-/

namespace Cosimulation

/-- A vector of scalars. -/
abbrev Vec (α : Type) := List α

namespace Vec

variable {α : Type} [Scalar α]

/-- The sum of the entries. -/
def sum (v : Vec α) : α := v.foldl (· + ·) 0

/-- The sum of the products of paired entries. -/
def dot (v w : Vec α) : α := sum (v.zipWith (· * ·) w)

/-- The Euclidean length. -/
def norm (v : Vec α) : α := Scalar.sqrt (dot v v)

/-- Every entry times `a`. -/
def scale (a : α) (v : Vec α) : Vec α := v.map (· * a)

/-- Entrywise sum. -/
def add (v w : Vec α) : Vec α := v.zipWith (· + ·) w

/-- Entrywise difference. -/
def sub (v w : Vec α) : Vec α := v.zipWith (· - ·) w

/-- `a · v + w`. -/
def axpy (a : α) (v w : Vec α) : Vec α := v.zipWith (fun x y => a * x + y) w

/-- The largest entry; zero for an empty vector. An entry replaces those before it unless they are
at least as large, so an undefined one leaves no trace but at the end. -/
def largest : Vec α → α
  | [] => 0
  | x :: xs => xs.foldl (fun m y => if y ≤ m then m else y) x

/-- The smallest entry; zero for an empty vector. An entry replaces those before it unless they are
at least as small. -/
def smallest : Vec α → α
  | [] => 0
  | x :: xs => xs.foldl (fun m y => if m ≤ y then m else y) x

@[simp]
theorem length_scale (a : α) (v : Vec α) : (scale a v).length = v.length := List.length_map _

theorem length_add {v w : Vec α} (h : v.length = w.length) : (add v w).length = w.length := by
  rw [add, List.length_zipWith, h, Nat.min_self]

theorem length_sub {v w : Vec α} (h : v.length = w.length) : (sub v w).length = w.length := by
  rw [sub, List.length_zipWith, h, Nat.min_self]

theorem length_axpy {v w : Vec α} (h : v.length = w.length) (a : α) :
    (axpy a v w).length = w.length := by
  rw [axpy, List.length_zipWith, h, Nat.min_self]

/-! ## Guarded operations -/

/-- `v - w` for vectors of one length. -/
def minus (v w : Vec α) : Except (Violation α) (Vec α) :=
  if v.length = w.length then .ok (sub v w) else .error .bounds

theorem minus_ok_iff {v w u : Vec α} :
    minus v w = .ok u ↔ v.length = w.length ∧ u = sub v w := by
  unfold minus
  split
  next h => exact ⟨fun hu => ⟨h, (Except.ok.inj hu).symm⟩, fun hu => congrArg _ hu.2.symm⟩
  next h => exact ⟨fun hu => (nomatch hu), fun hu => absurd hu.1 h⟩

/-- `w + a · v` for vectors of one length. -/
def plusScaled (w : Vec α) (a : α) (v : Vec α) : Except (Violation α) (Vec α) :=
  if v.length = w.length then .ok (axpy a v w) else .error .bounds

/-- The new content of a vector that keeps its length. -/
def overwrite (old new : Vec α) : Except (Violation α) (Vec α) :=
  if old.length = new.length then .ok new else .error .bounds

theorem plusScaled_ok_iff {w v u : Vec α} {a : α} :
    plusScaled w a v = .ok u ↔ v.length = w.length ∧ u = axpy a v w := by
  unfold plusScaled
  split
  next h => exact ⟨fun hu => ⟨h, (Except.ok.inj hu).symm⟩, fun hu => congrArg _ hu.2.symm⟩
  next h => exact ⟨fun hu => (nomatch hu), fun hu => absurd hu.1 h⟩

theorem plusScaled_total {w v : Vec α} (h : v.length = w.length) (a : α) :
    ∃ u, plusScaled w a v = .ok u ∧ u.length = w.length :=
  ⟨axpy a v w, if_pos h, length_axpy h a⟩

/-- Starting from `w`, adds each vector times its coefficient, as far as both lists go. -/
def plusCombination (w : Vec α) : List α → List (Vec α) → Except (Violation α) (Vec α)
  | a :: as, v :: vs => do
    let w' ← plusScaled w a v
    plusCombination w' as vs
  | _, _ => .ok w

theorem plusCombination_total : ∀ (as : List α) {vs : List (Vec α)} {w : Vec α},
    (∀ v ∈ vs, v.length = w.length) →
      ∃ u, plusCombination w as vs = .ok u ∧ u.length = w.length := by
  intro as
  induction as with
  | nil => intro vs w _; exact ⟨w, rfl, rfl⟩
  | cons a as ih =>
    intro vs w h
    cases vs with
    | nil => exact ⟨w, rfl, rfl⟩
    | cons v vs =>
      obtain ⟨w', hw', hl⟩ := plusScaled_total (h v List.mem_cons_self) a
      obtain ⟨u, hu, hul⟩ := ih (fun x hx => (h x (List.mem_cons_of_mem _ hx)).trans hl.symm)
      refine ⟨u, ?_, hul.trans hl⟩
      rw [plusCombination, hw']
      exact hu

/-! ## Segments

A stacked vector is cut into consecutive segments of given lengths. -/

/-- The consecutive segments of a vector, which has to be long enough for all of them. -/
def segments (v : Vec α) : List Nat → Except (Violation α) (List (Vec α))
  | [] => .ok []
  | n :: ns =>
    if n ≤ v.length then do
      let rest ← segments (v.drop n) ns
      .ok (v.take n :: rest)
    else .error .bounds

/-- A stacked vector that is constant on each segment. -/
def spread (sizes : List Nat) (values : List α) : Vec α :=
  (sizes.zipWith List.replicate values).flatten

end Vec

end Cosimulation
