/-!
# Columns grouped by window

A history keeps its columns in one row, oldest first, and the columns of one time window stand
together. `Windows` says how many columns each window holds, oldest window first and the current
window last.

A finished window that has lost its last column is dropped; the current window stays even when it is
empty.

What the sizes say of the columns is `Windows.Groups`: with one label for each window, ascending,
they spread the labels over the columns. Adding a column to the current window appends its label
(`Groups.push`), removing a column removes one label and at most drops a window (`Groups.erase`),
finishing and beginning a window change no column (`Groups.finish`, `Groups.begin`), and without the
oldest window its columns are gone (`Groups.tail`).
-/

namespace Cosimulation.Acceleration

/-- How many columns each window holds, the current window last. -/
structure Windows where
  sizes : List Nat
  deriving Repr, DecidableEq

namespace Windows

/-- No column, in a current window. -/
def fresh : Windows := ⟨[0]⟩

/-- One more in the last place. -/
def grow : List Nat → List Nat
  | [] => [1]
  | [n] => [n + 1]
  | n :: ns => n :: grow ns

/-- Adds a column to the current window. -/
def push (w : Windows) : Windows := ⟨grow w.sizes⟩

/-- One less in the place to which the column at a position belongs. -/
def shrink : List Nat → Nat → List Nat
  | [], _ => []
  | n :: ns, i =>
    if i < n then
      if n = 1 ∧ ns ≠ [] then ns else (n - 1) :: ns
    else n :: shrink ns (i - n)

/-- Removes the column at a position; nothing happens if there is none. -/
def erase (w : Windows) (i : Nat) : Windows := ⟨shrink w.sizes i⟩

/-- The windows without the current one if that is empty. -/
def finish (w : Windows) : Windows :=
  if w.sizes.getLast? = some 0 then ⟨w.sizes.dropLast⟩ else w

/-- Begins a window. -/
def begin (w : Windows) : Windows := ⟨w.sizes ++ [0]⟩

/-- The number of columns of all windows. -/
def total (w : Windows) : Nat := w.sizes.foldr (· + ·) 0

/-- The label of each column, from one label for each window. -/
def spread (w : Windows) (ws : List Nat) : List Nat :=
  (List.zipWith List.replicate w.sizes ws).flatten

/-- The labels of the columns come from one label for each window, the labels of the windows
ascending. -/
structure Groups (w : Windows) (ws labels : List Nat) : Prop where
  ascending : ws.Pairwise (· < ·)
  length : ws.length = w.sizes.length
  spread : w.spread ws = labels

namespace Groups

variable {w : Windows} {ws labels : List Nat}

theorem fresh (current : Nat) : Groups .fresh [current] [] :=
  ⟨List.pairwise_singleton _ _, rfl, rfl⟩

theorem length_flatten : ∀ {sizes ws : List Nat}, ws.length = sizes.length →
    (List.zipWith List.replicate sizes ws).flatten.length = (Windows.mk sizes).total := by
  intro sizes
  induction sizes with
  | nil => intro ws _; rfl
  | cons n ns ih =>
    intro ws h
    match ws, h with
    | x :: ws, h =>
      rw [List.zipWith_cons_cons, List.flatten_cons, List.length_append, List.length_replicate,
        ih (Nat.succ.inj h)]
      rfl

/-- The windows hold as many columns as there are labels. -/
theorem total_eq (h : w.Groups ws labels) : w.total = labels.length := by
  rw [← h.spread]
  exact (length_flatten h.length).symm

theorem grow_spread : ∀ {sizes ws : List Nat} {current : Nat}, ws.length = sizes.length →
    ws.getLast? = some current →
      (grow sizes).length = sizes.length ∧
      (List.zipWith List.replicate (grow sizes) ws).flatten =
        (List.zipWith List.replicate sizes ws).flatten ++ [current] := by
  intro sizes
  induction sizes with
  | nil =>
    intro ws current hl hc
    rw [List.length_eq_zero_iff.1 hl] at hc
    cases hc
  | cons n ns ih =>
    intro ws current hl hc
    match ns, ws, hl, hc with
    | [], [x], _, hc =>
      obtain rfl : x = current := Option.some.inj hc
      refine ⟨rfl, ?_⟩
      show List.replicate (n + 1) x ++ [] = (List.replicate n x ++ []) ++ [x]
      rw [List.append_nil, List.append_nil, List.replicate_succ']
    | m :: ns, x :: y :: ws, hl, hc =>
      obtain ⟨h1, h2⟩ := @ih (y :: ws) current (Nat.succ.inj hl) hc
      refine ⟨congrArg (· + 1) h1, ?_⟩
      show List.replicate n x ++
        (List.zipWith List.replicate (grow (m :: ns)) (y :: ws)).flatten = _
      rw [h2, ← List.append_assoc]
      rfl

/-- A column of the current window. -/
theorem push {current : Nat} (h : w.Groups ws labels) (hc : ws.getLast? = some current) :
    w.push.Groups ws (labels ++ [current]) := by
  obtain ⟨h1, h2⟩ := grow_spread h.length hc
  exact ⟨h.ascending, h.length.trans h1.symm, h2.trans (congrArg (· ++ [current]) h.spread)⟩

theorem shrink_spread : ∀ {sizes ws : List Nat} {i : Nat}, ws.length = sizes.length →
    i < (List.zipWith List.replicate sizes ws).flatten.length →
      ∃ ws', ws'.Sublist ws ∧ ws'.getLast? = ws.getLast? ∧
        ws'.length = (shrink sizes i).length ∧
        (List.zipWith List.replicate (shrink sizes i) ws').flatten =
          (List.zipWith List.replicate sizes ws).flatten.eraseIdx i := by
  intro sizes
  induction sizes with
  | nil => intro ws i _ hi; exact absurd hi (Nat.not_lt_zero i)
  | cons n ns ih =>
    intro ws i hl hi
    match ws, hl, hi with
    | x :: ws, hl, hi =>
      rw [List.zipWith_cons_cons, List.flatten_cons, List.length_append,
        List.length_replicate] at hi
      rw [shrink, List.zipWith_cons_cons, List.flatten_cons]
      split
      next hin =>
        split
        next hd =>
          -- the only column of a finished window
          obtain ⟨rfl, hne⟩ := hd
          have hws : ws ≠ [] := fun h => hne (List.length_eq_zero_iff.1 (by
            rw [← Nat.succ.inj hl, h]
            rfl))
          refine ⟨ws, List.sublist_cons_self x ws, ?_, Nat.succ.inj hl, ?_⟩
          · rw [List.getLast?_cons_of_ne_nil hws]
          · rw [Nat.lt_one_iff.1 hin]
            rfl
        next =>
          -- the window keeps other columns, or it is the current one
          refine ⟨x :: ws, List.Sublist.refl _, rfl, hl, ?_⟩
          rw [List.zipWith_cons_cons, List.flatten_cons, List.eraseIdx_append_of_lt_length
            (by rwa [List.length_replicate]), List.eraseIdx_replicate, if_pos hin]
      next hin =>
        -- the column belongs to a later window
        obtain ⟨ws', hsub, hlast, hlen, hspread⟩ := ih (i := i - n) (Nat.succ.inj hl) (by omega)
        refine ⟨x :: ws', hsub.cons_cons x, ?_, congrArg (· + 1) hlen, ?_⟩
        · rw [List.getLast?_cons, List.getLast?_cons, hlast]
        · rw [List.zipWith_cons_cons, List.flatten_cons, hspread, List.eraseIdx_append_of_length_le
            (by rw [List.length_replicate]; omega), List.length_replicate]

/-- A column that goes takes its label along. -/
theorem erase (h : w.Groups ws labels) {i : Nat} (hi : i < labels.length) :
    ∃ ws', ws'.getLast? = ws.getLast? ∧ (w.erase i).Groups ws' (labels.eraseIdx i) := by
  obtain ⟨ws', hsub, hlast, hlen, hspread⟩ := shrink_spread h.length (i := i) (by
    rw [show (List.zipWith List.replicate w.sizes ws).flatten = labels from h.spread]
    exact hi)
  exact ⟨ws', hlast, h.ascending.sublist hsub, hlen,
    hspread.trans (congrArg (·.eraseIdx i) h.spread)⟩

/-- Finishing a window drops no column. -/
theorem finish (h : w.Groups ws labels) :
    ∃ ws', ws'.Sublist ws ∧ w.finish.Groups ws' labels := by
  rw [Windows.finish]
  split
  next he =>
    -- the last window is empty, and its label labels nothing
    obtain ⟨sizes, hs⟩ : ∃ sizes, w.sizes = sizes ++ [0] := by
      obtain ⟨sizes, hs⟩ := List.getLast?_eq_some_iff.1 he
      exact ⟨sizes, hs⟩
    have hl := h.length
    rw [hs, List.length_append, List.length_singleton] at hl
    obtain ⟨front, x, rfl⟩ : ∃ front x, ws = front ++ [x] := by
      rcases List.eq_nil_or_concat ws with rfl | ⟨front, x, rfl⟩
      · cases hl
      · exact ⟨front, x, List.concat_eq_append⟩
    have hf : front.length = sizes.length := by
      rw [List.length_append] at hl
      exact Nat.succ.inj hl
    refine ⟨front, List.sublist_append_left front [x],
      h.ascending.sublist (List.sublist_append_left front [x]), ?_, ?_⟩
    · rw [hs, List.dropLast_concat]
      exact hf
    · rw [← h.spread, Windows.spread, Windows.spread, hs, List.dropLast_concat,
        List.zipWith_append hf.symm, List.flatten_append]
      exact (List.append_nil _).symm
  next => exact ⟨ws, List.Sublist.refl ws, h⟩

/-- The window that begins has no column. -/
theorem begin {current : Nat} (h : w.Groups ws labels) (hlt : ∀ x ∈ ws, x < current) :
    w.begin.Groups (ws ++ [current]) labels := by
  refine ⟨?_, ?_, ?_⟩
  · refine List.pairwise_append.2 ⟨h.ascending, List.pairwise_singleton _ _, ?_⟩
    intro x hx y hy
    rw [List.mem_singleton.1 hy]
    exact hlt x hx
  · rw [List.length_append, h.length, Windows.begin, List.length_append]
    rfl
  · show (List.zipWith List.replicate (w.sizes ++ [0]) (ws ++ [current])).flatten = labels
    rw [List.zipWith_append h.length.symm, List.flatten_append]
    exact (List.append_nil _).trans h.spread

/-- Without the oldest window its columns are gone. -/
theorem tail {n : Nat} {sizes : List Nat} (h : (Windows.mk (n :: sizes)).Groups ws labels) :
    ∃ ws', ws'.Sublist ws ∧ (Windows.mk sizes).Groups ws' (labels.drop n) := by
  have hl := h.length
  match ws, hl, h with
  | x :: ws, hl, h =>
    refine ⟨ws, List.sublist_cons_self x ws, h.ascending.sublist (List.sublist_cons_self x ws),
      Nat.succ.inj hl, ?_⟩
    rw [← h.spread, Windows.spread, Windows.spread, List.zipWith_cons_cons, List.flatten_cons,
      List.drop_left' List.length_replicate]

end Groups

end Windows

end Cosimulation.Acceleration
