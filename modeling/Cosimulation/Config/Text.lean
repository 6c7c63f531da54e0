import Cosimulation.Config.Numeral
import Cosimulation.Decimal.Text

/-!
# Records as text

The text form of values: lists in brackets, records in braces, texts in quotes. `Value.parse?` reads
it and `Value.render` writes it. Of two fields with one name the last counts. Scalars are written
with ten significant digits; what is no number is written as a word in quotes.

Reading never goes on for more steps than there are characters, which bounds the recursion.
-/

namespace Cosimulation.Value

/-! ## Texts -/

/-- The value of a hexadecimal digit. -/
def hexDigit? (c : Char) : Option Nat :=
  if c.isDigit then some (c.toNat - 48)
  else if 'a' ≤ c ∧ c ≤ 'f' then some (c.toNat - 87)
  else if 'A' ≤ c ∧ c ≤ 'F' then some (c.toNat - 55)
  else none

/-- The number that hexadecimal digits denote. -/
def hexNumber? (cs : List Char) : Option Nat :=
  cs.foldlM (fun n c => (hexDigit? c).map (16 * n + ·)) 0

/-- The character that a letter after a backslash stands for. -/
def escaped (c : Char) : Char :=
  match c with
  | 'n' => '\n'
  | 't' => '\t'
  | 'r' => '\r'
  | 'b' => '\x08'
  | 'f' => '\x0c'
  | c => c

/-- The character of a high and a low surrogate. -/
def paired (high low : Nat) : Char :=
  Char.ofNat (0x10000 + (high - 0xD800) * 0x400 + (low - 0xDC00))

/-- The characters of a text up to its closing quote, and what follows. A character beyond 16 bits
may be written as two numbers in a row. -/
def readText : (fuel : Nat) → List Char → Option (List Char × List Char)
  | 0, _ => none
  | fuel + 1, cs =>
    match cs with
    | [] => none
    | '"' :: cs => some ([], cs)
    | '\\' :: 'u' :: a :: b :: c :: d :: cs => do
      let n ← hexNumber? [a, b, c, d]
      match decide (0xD800 ≤ n ∧ n < 0xDC00), cs with
      | true, '\\' :: 'u' :: a :: b :: c :: d :: cs =>
        let m ← hexNumber? [a, b, c, d]
        (readText fuel cs).map fun (t, rest) => (paired n m :: t, rest)
      | _, cs => (readText fuel cs).map fun (t, rest) => (Char.ofNat n :: t, rest)
    | '\\' :: c :: cs => (readText fuel cs).map fun (t, rest) => (escaped c :: t, rest)
    | c :: cs => (readText fuel cs).map fun (t, rest) => (c :: t, rest)

/-- A character inside a text. -/
def quoteChar (c : Char) : List Char :=
  if c = '"' then ['\\', '"']
  else if c = '\\' then ['\\', '\\']
  else if c.toNat < 32 then
    ['\\', 'u', '0', '0'] ++ Nat.toDigits 16 (c.toNat / 16) ++ Nat.toDigits 16 (c.toNat % 16)
  else [c]

/-- A text in quotes. -/
def quoted (s : String) : String := String.ofList ('"' :: s.toList.flatMap quoteChar ++ ['"'])

/-! ## Reading -/

/-- What follows the blanks. -/
def skipBlanks (cs : List Char) : List Char := cs.dropWhile Char.isWhitespace

/-- The characters of numerals. -/
def isNumeral (c : Char) : Bool := c.isDigit || ['-', '+', '.', 'e', 'E'].contains c

mutual

/-- A value, and what follows. -/
def read : (fuel : Nat) → List Char → Option (Value × List Char)
  | 0, _ => none
  | fuel + 1, cs =>
    match skipBlanks cs with
    | 'n' :: 'u' :: 'l' :: 'l' :: cs => some (null, cs)
    | 't' :: 'r' :: 'u' :: 'e' :: cs => some (bool true, cs)
    | 'f' :: 'a' :: 'l' :: 's' :: 'e' :: cs => some (bool false, cs)
    | '"' :: cs => (readText (cs.length + 1) cs).map fun (t, cs) => (text (String.ofList t), cs)
    | '[' :: cs =>
      match skipBlanks cs with
      | ']' :: cs => some (list [], cs)
      | cs => (readItems fuel cs).map fun (items, cs) => (list items, cs)
    | '\x7b' :: cs =>
      match skipBlanks cs with
      | '\x7d' :: cs => some (record [], cs)
      | cs => (readFields fuel [] cs).map fun (fields, cs) => (record fields, cs)
    | cs =>
      let numeral := cs.takeWhile isNumeral
      (ofNumeral? numeral).map fun v => (v, cs.drop numeral.length)

/-- The items of a list up to its bracket, and what follows. -/
def readItems : (fuel : Nat) → List Char → Option (List Value × List Char)
  | 0, _ => none
  | fuel + 1, cs => do
    let (v, cs) ← read fuel cs
    match skipBlanks cs with
    | ',' :: cs => (readItems fuel cs).map fun (items, cs) => (v :: items, cs)
    | ']' :: cs => some ([v], cs)
    | _ => none

/-- The fields of a record up to its brace, the last one first, and what follows. -/
def readFields : (fuel : Nat) → List (String × Value) → List Char →
    Option (List (String × Value) × List Char)
  | 0, _, _ => none
  | fuel + 1, fields, cs =>
    match skipBlanks cs with
    | '"' :: cs => do
      let (name, cs) ← readText (cs.length + 1) cs
      match skipBlanks cs with
      | ':' :: cs => do
        let (v, cs) ← read fuel cs
        let fields := (String.ofList name, v) :: fields
        match skipBlanks cs with
        | ',' :: cs => readFields fuel fields cs
        | '\x7d' :: cs => some (fields, cs)
        | _ => none
      | _ => none
    | _ => none

end

/-- The value of a text, if it holds one and nothing else. -/
def parse? (s : String) : Option Value := do
  let cs := s.toList
  match ← read (cs.length + 1) cs with
  | (v, rest) => if (skipBlanks rest).isEmpty then some v else none

/-! ## Writing -/

/-- A scalar as it is written. -/
def renderScalar (x : Double) : String :=
  match Decimal.Reading.ofBits x.bits with
  | .undefined => quoted "nan"
  | .infinite negative => quoted (Decimal.sign negative ++ "inf")
  | .finite .. => (Decimal.significant? x).getD "0"

mutual

/-- A value as text. -/
def render : Value → String
  | null => "null"
  | bool b => if b then "true" else "false"
  | integer n => toString n
  | scalar x => renderScalar x
  | text s => quoted s
  | list items => "[" ++ ",".intercalate (renderItems items) ++ "]"
  | record fields => "\x7b" ++ ",".intercalate (renderFields fields) ++ "\x7d"

/-- The items of a list as texts. -/
def renderItems : List Value → List String
  | [] => []
  | v :: vs => v.render :: renderItems vs

/-- The fields of a record as texts. -/
def renderFields : List (String × Value) → List String
  | [] => []
  | (name, v) :: fields => (quoted name ++ ":" ++ v.render) :: renderFields fields

end

end Cosimulation.Value
