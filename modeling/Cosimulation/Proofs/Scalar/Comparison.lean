import Cosimulation.Double
import Cosimulation.Proofs.Exact.Arithmetic

/-!
# Comparisons

No law is assumed of the comparisons of scalars, since a comparison with an undefined value is
false. What can be relied on is that they are those of a linear order on the values that compare
with themselves (`LawfulComparison`), and that the order by which results are ranked leaves nothing
out (`Std.TransCmp Scalar.rank`). Both hold of real numbers and of binary floating point.

A floating point number compares by whether it is infinite, finite or zero and its sign, then by
exponent and mantissa, each with the sign of the number (`Double.order`).
-/

namespace Cosimulation

/-- The comparisons of a type of scalars are those of a linear order on the values that compare with
themselves, and false of all others. -/
class LawfulComparison (α : Type) [Scalar α] : Prop where
  le_trans {a b c : α} : a ≤ b → b ≤ c → a ≤ c
  le_total {a b : α} : a ≤ a → b ≤ b → a ≤ b ∨ b ≤ a
  defined {a b : α} : a ≤ b → a ≤ a ∧ b ≤ b
  lt_iff {a b : α} : a < b ↔ a ≤ b ∧ ¬ b ≤ a
  beq_self {a : α} : (a == a) = true ↔ a ≤ a

namespace Scalar

open LawfulComparison

variable {α : Type} [Scalar α] [LawfulComparison α] {a b : α}

theorem smaller_le_left (ha : a ≤ a) : smaller a b ≤ a := by
  unfold smaller
  split
  next hlt => exact (lt_iff.1 hlt).1
  next => rwa [if_pos (beq_self.2 ha)]

theorem smaller_le_right (hb : b ≤ b) : smaller a b ≤ b := by
  unfold smaller
  split
  next => exact hb
  next hlt =>
    split
    next ha =>
      by_contra hle
      exact hlt (lt_iff.2 ⟨(le_total (beq_self.1 ha) hb).resolve_left hle, hle⟩)
    next => exact hb

theorem le_larger_left (ha : a ≤ a) : a ≤ larger a b := by
  unfold larger
  split
  next hlt => exact (lt_iff.1 hlt).1
  next => rwa [if_pos (beq_self.2 ha)]

theorem le_larger_right (hb : b ≤ b) : b ≤ larger a b := by
  unfold larger
  split
  next => exact hb
  next hlt =>
    split
    next ha =>
      by_contra hle
      exact hlt (lt_iff.2 ⟨(le_total (beq_self.1 ha) hb).resolve_right hle, hle⟩)
    next => exact hb

end Scalar

/-! ## Real numbers -/

instance : LawfulComparison ℝ where
  le_trans hab hbc := le_trans hab hbc
  le_total _ _ := le_total _ _
  defined _ := ⟨le_rfl, le_rfl⟩
  lt_iff := lt_iff_le_not_ge
  beq_self := by simp

theorem rank_real (a b : ℝ) : Scalar.rank a b = compare a b := by
  show (if a < b then Ordering.lt else if b < a then .gt else .eq) = compare a b
  rcases lt_trichotomy a b with h | rfl | h
  · rw [if_pos h, compare_lt_iff_lt.2 h]
  · rw [if_neg (lt_irrefl a), if_neg (lt_irrefl a), compare_eq_iff_eq.2 rfl]
  · rw [if_neg h.not_gt, if_pos h, compare_gt_iff_gt.2 h]

instance : Std.TransCmp (Scalar.rank : ℝ → ℝ → Ordering) := by
  rw [show (Scalar.rank : ℝ → ℝ → Ordering) = compare from funext₂ rank_real]
  infer_instance

/-! ## Binary floating point -/

namespace Double

open Float.Model UnpackedFloat

/-- Whether a number is infinite, finite or zero, with its sign. -/
def magnitudeClass : UnpackedFloat → Int
  | .infinity s => s.apply 2
  | .finite s .. => s.apply 1
  | _ => 0

/-- The exponent with the sign of the number. -/
def signedExponent : UnpackedFloat → Int
  | .finite s _ e _ => s.apply e
  | _ => 0

/-- The mantissa with the sign of the number. -/
def signedMantissa : UnpackedFloat → Int
  | .finite s m _ _ => s.apply m
  | _ => 0

/-- The order of floating point numbers. -/
def order : UnpackedFloat → UnpackedFloat → Ordering :=
  compareLex (compareOn magnitudeClass) (compareLex (compareOn signedExponent)
    (compareOn signedMantissa))

instance : Std.TransCmp order := inferInstanceAs (Std.TransCmp (compareLex _ _))

theorem order_self (x : UnpackedFloat) : order x x = .eq := Std.ReflCmp.compare_self

theorem order_swap (x y : UnpackedFloat) : order y x = (order x y).swap := Std.OrientedCmp.eq_swap

theorem compare_natCast (m n : Nat) : compare (m : Int) n = compare m n := by
  grind [Int.compare_eq_ite_lt, Nat.compare_eq_ite_lt]

theorem compare_neg (m n : Int) : compare (-m) (-n) = (compare m n).swap := by
  rw [Int.compare_swap]
  grind [Int.compare_eq_ite_lt]

/-- Numbers compare by the order, and what is no number with nothing. -/
theorem compare_eq (x y : UnpackedFloat) :
    x.compare y = if x.isNaN || y.isNaN then none else some (order x y) := by
  cases x with
  | notANumber => rfl
  | infinity s =>
    cases y with
    | notANumber => cases s <;> rfl
    | infinity t => cases s <;> cases t <;> rfl
    | zero t => cases s <;> rfl
    | finite t m e h => cases s <;> cases t <;> rfl
  | zero s =>
    cases y with
    | notANumber => rfl
    | infinity t => cases t <;> rfl
    | zero t => rfl
    | finite t m e h => cases t <;> rfl
  | finite s m e h =>
    cases y with
    | notANumber => cases s <;> rfl
    | infinity t => cases s <;> cases t <;> rfl
    | zero t => cases s <;> rfl
    | finite t m' e' h' =>
      cases s <;> cases t
      · show some ((compare e e').then (compare m m')).swap =
          some ((compare (-e) (-e')).then (compare (-(m : Int)) (-m')))
        rw [compare_neg, compare_neg, compare_natCast, Ordering.swap_then]
      · rfl
      · rfl
      · show some ((compare e e').then (compare m m')) =
          some ((compare e e').then (compare (m : Int) m'))
        rw [compare_natCast]

/-- The number that the bits encode, taken apart. -/
def unpacked (x : Double) : UnpackedFloat := x.toFloat.toModel.unpack

variable {x y : Double}

theorem le_iff : x ≤ y ↔ x.unpacked.isNaN = false ∧ y.unpacked.isNaN = false ∧
    (order x.unpacked y.unpacked).isLE = true := by
  show decide ((x.unpacked.compare y.unpacked).any (·.isLE) = true) = true ↔ _
  rw [decide_eq_true_iff, compare_eq]
  cases x.unpacked.isNaN <;> cases y.unpacked.isNaN <;> simp

theorem lt_iff_order : x < y ↔ x.unpacked.isNaN = false ∧ y.unpacked.isNaN = false ∧
    order x.unpacked y.unpacked = .lt := by
  show decide ((x.unpacked.compare y.unpacked == some .lt) = true) = true ↔ _
  rw [decide_eq_true_iff, compare_eq]
  cases x.unpacked.isNaN <;> cases y.unpacked.isNaN <;> simp

theorem beq_iff : (x == y) = true ↔ x.unpacked.isNaN = false ∧ y.unpacked.isNaN = false ∧
    order x.unpacked y.unpacked = .eq := by
  show (x.unpacked.compare y.unpacked == some .eq) = true ↔ _
  rw [compare_eq]
  cases x.unpacked.isNaN <;> cases y.unpacked.isNaN <;> simp

theorem self_le_iff : x ≤ x ↔ x.unpacked.isNaN = false := by
  rw [le_iff, order_self]
  simp

instance : LawfulComparison Double where
  le_trans hab hbc := by
    obtain ⟨ha, -, hab⟩ := le_iff.1 hab
    obtain ⟨-, hc, hbc⟩ := le_iff.1 hbc
    exact le_iff.2 ⟨ha, hc, Std.TransCmp.isLE_trans hab hbc⟩
  le_total {a b} ha hb := by
    rw [self_le_iff] at ha hb
    rw [le_iff, le_iff, order_swap a.unpacked b.unpacked]
    cases order a.unpacked b.unpacked <;> simp [ha, hb]
  defined hab := by
    obtain ⟨ha, hb, -⟩ := le_iff.1 hab
    exact ⟨self_le_iff.2 ha, self_le_iff.2 hb⟩
  lt_iff {a b} := by
    rw [lt_iff_order, le_iff, le_iff, order_swap a.unpacked b.unpacked]
    cases order a.unpacked b.unpacked <;> grind [Ordering.swap, Ordering.isLE]
  beq_self {a} := by
    rw [beq_iff, self_le_iff, order_self]
    simp

instance : Std.TransCmp (Scalar.rank : Double → Double → Ordering) :=
  inferInstanceAs (Std.TransCmp (compareOn rankKey))

/-! ## Rounded roots -/

/-- The root of a mantissa before it is rounded, by the integer root of the shifted mantissa. -/
theorem sqrtCore_eq {m root : Nat} {e target : Int} (htarget : min (e.ediv 2)
      (Format.binary64.targetExponent ((totalExponent m e + 1).ediv 2)) = target)
    (hroot : Nat.sqrt (m <<< (e - 2 * target).toNat) = root) :
    sqrtCore .binary64 m e = (root, target,
      let rem := m <<< (e - 2 * target).toNat - root * root
      if rem = 0 then .exact else .inexact (if rem ≤ root then .lt else .gt)) := by
  subst htarget hroot
  rfl

/-- Numbers have the same root if their roots do not differ before they are rounded. -/
theorem sqrt_congr {m m' : Nat} {e e' : Int} {hm : m > 0} {hm' : m' > 0}
    (hx : x.unpacked = .finite .positive m e hm) (hy : y.unpacked = .finite .positive m' e' hm')
    (hcore : sqrtCore .binary64 m e = sqrtCore .binary64 m' e') :
    Scalar.sqrt x = Scalar.sqrt y := by
  have hroot : x.unpacked.sqrt .binary64 = y.unpacked.sqrt .binary64 := by
    rw [hx, hy]
    exact congrArg (fun (m, e, acc) => roundWithAccuracy .binary64 .positive m e acc) hcore
  exact congrArg (fun r => ofFloat ⟨.pack r⟩) hroot

end Double

end Cosimulation
