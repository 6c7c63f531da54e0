import Cosimulation.Config.Choice
import Cosimulation.Double

/-!
# Values of configuration records

The values a configuration record is made of, and how the fields of a record are read. Reading is
strict about kinds: an integer is accepted where a scalar is wanted, but nothing else stands in for
something else, and a missing value is not the same as an empty one.

A field that is absent takes its default; fields that nobody asks for are ignored.
-/

namespace Cosimulation

/-- A value of a configuration record. -/
inductive Value where
  | null
  | bool (b : Bool)
  | integer (n : Int)
  | scalar (x : Double)
  | text (s : String)
  | list (items : List Value)
  | record (fields : List (String × Value))

namespace Value

/-- The largest number in 32 bits. -/
def max32 : Nat := UInt32.size - 1

/-- The largest number in 64 bits. -/
def max64 : Nat := UInt64.size - 1

/-- A natural number up to a bound. -/
def nat? (bound : Nat) : Value → Option Nat
  | integer (.ofNat n) => if n ≤ bound then some n else none
  | _ => none

/-- A truth value. -/
def bool? : Value → Option Bool
  | bool b => some b
  | _ => none

/-- A scalar; an integer stands for the nearest one. -/
def scalar? : Value → Option Double
  | scalar x => some x
  | integer n => some (.ofFloat (Float.ofInt n))
  | _ => none

/-- A list of values that a reader accepts. -/
def list? {β : Type} (read : Value → Option β) : Value → Option (List β)
  | list items => items.mapM read
  | _ => none

/-- Nothing, or a value that a reader accepts. -/
def optional? {β : Type} (read : Value → Option β) : Value → Option (Option β)
  | null => some none
  | v => (read v).map some

/-- One of the named options. -/
def choice? {κ : Type} [Choice κ] : Value → Option κ
  | text s => Choice.ofName? s
  | _ => none

/-- The fields of a record. -/
def fields? : Value → Option (List (String × Value))
  | record fields => some fields
  | _ => none

/-- A field of a record, read if it is there. -/
def fieldOr {β : Type} (fields : List (String × Value)) (name : String) (default : β)
    (read : Value → Option β) : Option β :=
  match fields.lookup name with
  | some v => read v
  | none => some default

/-- A field that a record must have. -/
def field? {β : Type} (fields : List (String × Value)) (name : String)
    (read : Value → Option β) : Option β := do
  read (← fields.lookup name)

/-! ## Writing -/

/-- A natural number as a value. -/
def ofNat (n : Nat) : Value := integer n

/-- A scalar inside a record. Records have no spelling for what is not a number. -/
def ofScalar (x : Double) : Value := if x.isFinite then scalar x else null

/-- An option by its name. -/
def ofChoice {κ : Type} [Choice κ] (k : κ) : Value := text (Choice.name k)

/-- A value if there is one. -/
def ofOption {β : Type} (write : β → Value) : Option β → Value
  | some b => write b
  | none => null

/-- A list of values. -/
def ofList {β : Type} (write : β → Value) (items : List β) : Value := list (items.map write)

end Value

end Cosimulation
