import RecordQuery.Store.Numeral
import RecordQuery.Text.Base64
import RecordQuery.Text.Split
import RecordQuery.Value.Printer

namespace RecordQuery.Store

inductive Cell
  | null
  | int (n : Int)
  | real (x : Double)
  | text (s : String)
  | blob (bytes : List UInt8)
  deriving DecidableEq, Inhabited

/-- Booleans are bound as 0 and 1, unsigned integers above the signed range as doubles. -/
def Cell.ofValue : Value → Cell
  | .null => .null
  | .bool b => .int (if b then 1 else 0)
  | .int n => if n ≤ Text.maxInt64 then .int n else .real (.ofInt n)
  | .float x => .real x
  | .text s => .text s
  | v => .text v.json

/-- An infinite double has no value; a blob is its text or base64. -/
def Cell.value : Cell → Value
  | .null => .null
  | .int n => .int n
  | .real x => if x.isFinite then .float x else .null
  | .text s => .text s
  | .blob bytes => .text (Text.ofBytes bytes)

inductive Affinity
  | integer | text | blob | real | numeric
  deriving DecidableEq

def Affinity.ofType (type : String) : Affinity :=
  let type := type.map Char.toUpper
  let has := fun words : List String => words.any fun word => Text.occurs word type
  if has ["INT"] then .integer
  else if has ["CHAR", "CLOB", "TEXT"] then .text
  else if type.isEmpty || has ["BLOB"] then .blob
  else if has ["REAL", "FLOA", "DOUB"] then .real
  else .numeric

namespace Cell

def numeric? (s : String) : Option Cell :=
  let cs := ((s.toList.dropWhile isBlank).reverse.dropWhile isBlank).reverse
  match Text.int64? cs with
  | some n => some (.int n)
  | none =>
    let (negative, digits) := match cs with
      | '-' :: rest => (true, rest)
      | '+' :: rest => (false, rest)
      | rest => (false, rest)
    match Decimal.Literal.readOpen? digits with
    | some (literal, []) => some (.real (literal.extended negative))
    | _ => none

def ofReal (x : Double) : Cell :=
  let n := x.toInt64
  if (Double.ofInt n).same x && Text.minInt64 < n && n < Text.maxInt64 then .int n else .real x

def asNumber : Cell → Cell
  | .text s =>
    match numeric? s with
    | some (.real x) => ofReal x
    | some c => c
    | none => .text s
  | .real x => ofReal x
  | c => c

def asText : Cell → Cell
  | .int n => .text (toString n)
  | .real x => .text (Numeral.text x)
  | c => c

def stored (α : Affinity) (c : Cell) : Cell :=
  match α with
  | .blob => c
  | .text => c.asText
  | .integer | .numeric => c.asNumber
  | .real =>
    match c.asNumber with
    | .int n => .real (.ofInt n)
    | c => c

/-- A value meets a column: numerals become numbers for a numeric one, numbers text for text. -/
def compared (α : Affinity) (c : Cell) : Cell :=
  match α with
  | .blob => c
  | .text => c.asText
  | _ =>
    match c with
    | .text s => (numeric? s).getD (.text s)
    | c => c

def ratio (x : Double) : Int × Nat :=
  let (n, d) := Double.scaled x.mantissa 1 (-x.exponent)
  (if x.negative then -n else n, d)

def compareIntReal (n : Int) (x : Double) : Ordering :=
  let (num, den) := ratio x
  compare (n * den) num

def compareBytes : List UInt8 → List UInt8 → Ordering
  | [], [] => .eq
  | [], _ :: _ => .lt
  | _ :: _, [] => .gt
  | a :: as, b :: bs => (compare a.toNat b.toNat).then (compareBytes as bs)

def rank : Cell → Nat
  | .null => 0
  | .int _ | .real _ => 1
  | .text _ => 2
  | .blob _ => 3

def order : Cell → Cell → Ordering
  | .int a, .int b => compare a b
  | .real a, .real b => if a.same b then .eq else compare a.order b.order
  | .int a, .real b => compareIntReal a b
  | .real a, .int b => (compareIntReal b a).swap
  | .text a, .text b => compare a b
  | .blob a, .blob b => compareBytes a b
  | a, b => compare a.rank b.rank

def equals (a b : Cell) : Bool := a != .null && b != .null && order a b == .eq

end Cell

end RecordQuery.Store
