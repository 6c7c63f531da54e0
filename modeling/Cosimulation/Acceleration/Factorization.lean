import Cosimulation.Vec

/-!
# Incremental orthogonal factorization

A `Factorization` holds the columns it was given, oldest first, as an orthonormal basis and the
coefficients of each column on it. The coefficients of column `j` reach from the first basis vector
to basis vector `j`, where its diagonal entry stands; what is not there reads as zero.

* `insert` orthogonalizes a new column against the basis in two passes and refuses it when almost
  nothing of it is new.
* `delete` removes a column from the coefficients and restores the shape by plane rotations, which
  turn the basis along.
* `solve` gives the coefficients of the combination of columns that comes nearest to the negative of
  a vector.

After `insert` and `delete` the factorization is checked: there have to be as many coefficient
columns and norms as basis vectors, the coefficients have to be upper triangular and the basis
orthonormal. A failed check is a violation.
-/

namespace Cosimulation.Acceleration

/-- An orthonormal basis, the coefficients of each column on it, and the norm each column had. -/
@[ext]
structure Factorization (α : Type) where
  /-- The length of every column. -/
  rows : Nat
  basis : List (Vec α)
  /-- Column `j` has `j + 1` coefficients. -/
  upper : List (List α)
  norms : List α

namespace Factorization

variable {α : Type}

/-- The factorization without columns. -/
def empty (rows : Nat) : Factorization α := ⟨rows, [], [], []⟩

/-- The number of columns. -/
def columns (f : Factorization α) : Nat := f.basis.length

/-- The numbers of rows and of columns that the coefficients fill. -/
def shape (f : Factorization α) : Nat × Nat :=
  ((f.upper.map List.length).foldr max 0, f.upper.length)

variable [Scalar α]

/-- The coefficient of column `j` on basis vector `i`; zero below the diagonal. -/
def entry (f : Factorization α) (i j : Nat) : α := ((f.upper[j]?.getD [])[i]?).getD 0

/-- The diagonal coefficient of column `i`. -/
def diagonal (f : Factorization α) (i : Nat) : α := f.entry i i

/-- The norm with which column `i` came in. -/
def columnNorm (f : Factorization α) (i : Nat) : α := f.norms[i]?.getD 0

/-- The norm of all coefficients taken as one vector. -/
def totalNorm (f : Factorization α) : α := Vec.norm f.upper.flatten

/-- A column of which no more than this share is new is refused. -/
def refusedShare : α := 1e-13

/-- The tolerance of the orthonormality check. -/
def orthonormalTolerance : α := 1e-8

/-! ## Checking -/

/-- The first pair of basis vectors whose product is off, of the vector `q` at position `i` with the
vectors at the positions from `j` up to its own. -/
def firstSkew (q : Vec α) (i : Nat) : (j : Nat) → List (Vec α) → Option (ConfigurationFault α)
  | _, [] => none
  | j, p :: ps =>
    let product := q.dot p
    let expected : α := if i = j then 1 else 0
    if orthonormalTolerance < Scalar.abs (product - expected) then
      some (.notOrthonormal i j product)
    else firstSkew q i (j + 1) ps

/-- The first coefficient of row `i` that stands before the diagonal and is not zero. -/
def firstLower (f : Factorization α) (i : Nat) : Option (ConfigurationFault α) :=
  (List.range i).findSome? fun j => if f.entry i j == 0 then none else some (.notTriangular i j)

/-- Checks the shape, and row by row that the coefficients are upper triangular and the basis
orthonormal, up to the tolerance. -/
def validate (f : Factorization α) : Except (ConfigurationFault α) Unit :=
  if f.shape ≠ (f.columns, f.columns) ∨ f.norms.length ≠ f.columns then
    .error (.factorizationShape f.columns f.shape f.norms.length)
  else
    let fault := f.basis.zipIdx.findSome? fun (q, i) =>
      (f.firstLower i).or (firstSkew q i 0 (f.basis.take (i + 1)))
    match fault with
    | some fault => .error fault
    | none => .ok ()

/-- A factorization that passes its check. -/
def checked (f : Factorization α) : Except (Violation α) (Factorization α) :=
  match f.validate with
  | .ok () => .ok f
  | .error fault => .error (.brokenFactorization (.invalidConfiguration fault))

/-! ## Inserting -/

/-- One pass of orthogonalization: takes out of `u`, basis vector by basis vector, the part along
it. Returns the coefficients of the parts and what is left. -/
def orthogonalize : List (Vec α) → Vec α → List α × Vec α
  | [], u => ([], u)
  | q :: qs, u =>
    let h := q.dot u
    let (hs, rest) := orthogonalize qs (Vec.axpy (-h) q u)
    (h :: hs, rest)

/-- A column split into its coefficients on the basis and the rest, in two passes: the second takes
out what rounding left in the first. -/
def split (basis : List (Vec α)) (v : Vec α) : List α × Vec α :=
  let (first, u) := orthogonalize basis v
  let (second, rest) := orthogonalize basis u
  (first.zipWith (fun a b => 0 + a + b) second, rest)

/-- Appends a column. `none` if numerically nothing of it is new. -/
def insert (f : Factorization α) (v : Vec α) :
    Except (Violation α) (Option (Factorization α)) :=
  if v.length ≠ f.rows then .error .columnLength
  else
    let norm := v.norm
    let (coefficients, rest) := split f.basis v
    let size := rest.norm
    if norm == 0 || size ≤ refusedShare * norm then .ok none
    else do
      let grown : Factorization α :=
        { f with
          basis := f.basis ++ [rest.map (· / size)]
          upper := f.upper ++ [coefficients ++ [size]]
          norms := f.norms ++ [norm] }
      let f' ← grown.checked
      .ok (some f')

/-! ## Deleting -/

/-- The rotation that turns the pair `(a, b)` onto the first axis, as cosine and sine. -/
def rotation (a b : α) : α × α :=
  let size := Scalar.hypot a b
  if size == 0 then (1, 0) else (a / size, b / size)

/-- A coefficient column under a rotation of its first two entries: the first is settled by it, the
others are left. -/
def turn (c s : α) : List α → α × List α
  | x :: y :: rest => (c * x + s * y, (c * y - s * x) :: rest)
  | column => (0, column)

/-- Restores the shape after a deletion. The coefficient columns have one entry too many each: the
first has two, the next three, and so on, on the basis vectors `q :: qs`. Each step rotates the
first two basis vectors so that the surplus entry of the first column vanishes, which settles that
column and the first row. Returns the new basis, one vector shorter, and the settled columns. -/
def retriangulate (q : Vec α) : List (Vec α) → List (List α) → List (Vec α) × List (List α)
  | p :: ps, (a :: b :: _) :: columns =>
    let (c, s) := rotation a b
    let turned := Vec.add (q.scale c) (p.scale s)
    let next := Vec.sub (p.scale c) (q.scale s)
    let (basis, settled) := retriangulate next ps (columns.map fun r => (turn c s r).2)
    (turned :: basis,
      [c * a + s * b] :: (columns.map fun r => (turn c s r).1).zipWith (· :: ·) settled)
  | _, _ => ([], [])

/-- Removes column `i`; the others keep their order. -/
def delete (f : Factorization α) (i : Nat) : Except (Violation α) (Factorization α) :=
  match f.basis.drop i with
  | [] => .error (.columnRange i f.columns)
  | q :: qs =>
    let later := f.upper.drop (i + 1)
    let (turned, settled) := retriangulate q qs (later.map (List.drop i))
    { f with
      basis := f.basis.take i ++ turned
      upper := f.upper.take i ++ List.zipWith (· ++ ·) (later.map (List.take i)) settled
      norms := f.norms.eraseIdx i }.checked

/-! ## Rebuilding and solving -/

/-- Inserts columns one after the other. Returns the positions of the refused ones, counted from
`i`. -/
def insertAll (f : Factorization α) (i : Nat) :
    List (Vec α) → Except (Violation α) (Factorization α × List Nat)
  | [] => .ok (f, [])
  | v :: vs => do
    match ← f.insert v with
    | some f' => insertAll f' (i + 1) vs
    | none =>
      let (f', refused) ← insertAll f (i + 1) vs
      .ok (f', i :: refused)

/-- Starts over with the given columns. Returns the positions of the refused ones, ascending. -/
def rebuild (f : Factorization α) (columns : List (Vec α)) :
    Except (Violation α) (Factorization α × List Nat) :=
  (empty f.rows).insertAll 0 columns

/-- Back substitution with an upper triangular matrix, given by its columns from the last to the
first. `none` if a diagonal entry is zero. -/
def backSubstitute : List (List α) → List α → Option (List α)
  | [], _ => some []
  | column :: earlier, rhs =>
    match column.getLast?, rhs.getLast? with
    | some pivot, some b =>
      if pivot == 0 then none
      else
        let x := b / pivot
        (backSubstitute earlier (Vec.axpy (-x) column.dropLast rhs.dropLast)).map (· ++ [x])
    | _, _ => none

/-- The coefficients `a` for which the columns times `a`, plus the residual, is shortest. `none`
without columns. -/
def solve (f : Factorization α) (residual : Vec α) : Except (Violation α) (Option (List α)) :=
  if f.basis.isEmpty then .ok none
  else if residual.length ≠ f.rows then .error .bounds
  else .ok (backSubstitute f.upper.reverse (f.basis.map fun q => -(q.dot residual)))

end Factorization

end Cosimulation.Acceleration
