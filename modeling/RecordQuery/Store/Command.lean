import RecordQuery.Store.Cell
import RecordQuery.Store.Token

namespace RecordQuery.Store

inductive Expression
  | cell (c : Cell)
  | param (index : Nat)

structure ColumnSpec where
  name : String
  type : String
  required : Bool
  primary : Bool

inductive Definition
  | column (c : ColumnSpec)
  | primaryKey (columns : List String)

structure Match where
  column : String
  value : Expression

structure OrderBy where
  column : String
  descending : Bool

inductive Command
  | create (table : String) (unlessExists : Bool) (definitions : List Definition)
  | insert (table : String) (columns : List String) (rows : List (List Expression))
  | update (table : String) (changes : List (String × Expression)) (condition : Option Match)
  | delete (table : String) (condition : Option Match)
  /-- No columns stand for all of them. -/
  | selectFrom (table : String) (columns : List String) (condition : Option Match)
    (order : Option OrderBy)
  | selectValues (values : List (Expression × String))
  | nothing

namespace Command

abbrev Reading (α : Type) := List Token → Option (α × List Token)

def keyword? (word : String) : Reading Unit
  | t :: rest => if t.isKeyword word then some ((), rest) else none
  | [] => none

def keywords? : List String → Reading Unit
  | [], ts => some ((), ts)
  | word :: more, ts => (keyword? word ts).bind fun (_, ts) => keywords? more ts

def mark? (c : Char) : Reading Unit
  | t :: rest => if t = .mark c then some ((), rest) else none
  | [] => none

def name? : Reading String
  | t :: rest => t.name?.map fun s => (s, rest)
  | [] => none

def separated? (item? : Reading α) : Nat → Reading (List α)
  | 0, _ => none
  | fuel + 1, ts => do
    let (a, ts) ← item? ts
    match mark? ',' ts with
    | some (_, ts) =>
      let (more, ts) ← separated? item? fuel ts
      return (a :: more, ts)
    | none => return ([a], ts)

def commaList? (item? : Reading α) : Reading (List α) := fun ts =>
  separated? item? ts.length ts

def parenthesized? (item? : Reading α) : Reading α := fun ts => do
  let (_, ts) ← mark? '(' ts
  let (a, ts) ← item? ts
  let (_, ts) ← mark? ')' ts
  return (a, ts)

def optionally? (item? : Reading α) : Reading (Option α) := fun ts =>
  match item? ts with
  | some (a, ts) => some (some a, ts)
  | none => some (none, ts)

def numberCell (negative : Bool) (l : Decimal.Literal) : Cell :=
  let n : Int := if negative then -l.natural else l.natural
  if l.isInteger && Text.minInt64 ≤ n && n ≤ Text.maxInt64 then .int n
  else .real (l.extended negative)

def expression? : Reading Expression
  | .param i :: rest => some (.param i, rest)
  | .text s :: rest => some (.cell (.text s), rest)
  | .blob bytes :: rest => some (.cell (.blob bytes), rest)
  | .number l :: rest => some (.cell (numberCell false l), rest)
  | .mark '-' :: .number l :: rest => some (.cell (numberCell true l), rest)
  | .mark '+' :: .number l :: rest => some (.cell (numberCell false l), rest)
  | t :: rest => if t.isKeyword "NULL" then some (.cell .null, rest) else none
  | [] => none

def constraints? : ColumnSpec → List String → List Token → Option (ColumnSpec × List Token)
  | c, words, .word a :: .word b :: rest =>
    if a.map Char.toUpper = "PRIMARY" ∧ b.map Char.toUpper = "KEY" then
      constraints? { c with primary := true } words rest
    else if a.map Char.toUpper = "NOT" ∧ b.map Char.toUpper = "NULL" then
      constraints? { c with required := true } words rest
    else if c.primary || c.required then none
    else constraints? c (words ++ [a]) (.word b :: rest)
  | c, words, .word a :: rest =>
    if c.primary || c.required then none
    else some ({ c with type := " ".intercalate (words ++ [a]) }, rest)
  | c, words, ts => some ({ c with type := " ".intercalate words }, ts)

def definition? : Reading Definition := fun ts =>
  match keywords? ["PRIMARY", "KEY"] ts with
  | some (_, ts) => (parenthesized? (commaList? name?) ts).map fun (cs, ts) => (.primaryKey cs, ts)
  | none => do
    let (name, ts) ← name? ts
    let (c, ts) ← constraints? ⟨name, "", false, false⟩ [] ts
    return (.column c, ts)

def condition? : Reading Match := fun ts => do
  let (_, ts) ← keyword? "WHERE" ts
  let (column, ts) ← name? ts
  let (_, ts) ← mark? '=' ts
  let (value, ts) ← expression? ts
  return (⟨column, value⟩, ts)

def order? : Reading OrderBy := fun ts => do
  let (_, ts) ← keywords? ["ORDER", "BY"] ts
  let (column, ts) ← name? ts
  match keyword? "DESC" ts with
  | some (_, ts) => return (⟨column, true⟩, ts)
  | none =>
    let (_, ts) ← optionally? (keyword? "ASC") ts
    return (⟨column, false⟩, ts)

def isColumn : Definition → Bool
  | .column _ => true
  | .primaryKey _ => false

def definitions? : Reading (List Definition) := fun ts => do
  let (ds, ts) ← parenthesized? (commaList? definition?) ts
  if (ds.takeWhile isColumn).isEmpty || (ds.dropWhile isColumn).any isColumn then none
  return (ds, ts)

def create? : Reading Command := fun ts => do
  let (_, ts) ← keywords? ["CREATE", "TABLE"] ts
  let (unlessExists, ts) ← optionally? (keywords? ["IF", "NOT", "EXISTS"]) ts
  let (table, ts) ← name? ts
  let (definitions, ts) ← definitions? ts
  return (.create table unlessExists.isSome definitions, ts)

def insert? : Reading Command := fun ts => do
  let (_, ts) ← keywords? ["INSERT", "INTO"] ts
  let (table, ts) ← name? ts
  let (columns, ts) ← parenthesized? (commaList? name?) ts
  let (_, ts) ← keyword? "VALUES" ts
  let (rows, ts) ← commaList? (parenthesized? (commaList? expression?)) ts
  return (.insert table columns rows, ts)

def change? : Reading (String × Expression) := fun ts => do
  let (column, ts) ← name? ts
  let (_, ts) ← mark? '=' ts
  let (value, ts) ← expression? ts
  return ((column, value), ts)

def update? : Reading Command := fun ts => do
  let (_, ts) ← keyword? "UPDATE" ts
  let (table, ts) ← name? ts
  let (_, ts) ← keyword? "SET" ts
  let (changes, ts) ← commaList? change? ts
  let (condition, ts) ← optionally? condition? ts
  return (.update table changes condition, ts)

def delete? : Reading Command := fun ts => do
  let (_, ts) ← keywords? ["DELETE", "FROM"] ts
  let (table, ts) ← name? ts
  let (condition, ts) ← optionally? condition? ts
  return (.delete table condition, ts)

def allColumns? : Reading (List String) := fun ts => (mark? '*' ts).map fun (_, ts) => ([], ts)

def selectFrom? : Reading Command := fun ts => do
  let (_, ts) ← keyword? "SELECT" ts
  let (columns, ts) ← (allColumns? ts).or (commaList? name? ts)
  let (_, ts) ← keyword? "FROM" ts
  let (table, ts) ← name? ts
  let (condition, ts) ← optionally? condition? ts
  let (order, ts) ← optionally? order? ts
  return (.selectFrom table columns condition order, ts)

def namedValue? : Reading (Expression × String) := fun ts => do
  let (value, ts) ← expression? ts
  let (_, ts) ← keyword? "AS" ts
  let (name, ts) ← name? ts
  return ((value, name), ts)

def selectValues? : Reading Command := fun ts => do
  let (_, ts) ← keyword? "SELECT" ts
  let (values, ts) ← commaList? namedValue? ts
  return (.selectValues values, ts)

def nothing? : Reading Command := fun ts => some (.nothing, ts)

def command? : Reading Command := fun ts =>
  [create?, insert?, update?, delete?, selectFrom?, selectValues?, nothing?].findSome? (· ts)

def ofText? (sql : String) : Option Command := do
  let ts ← Token.ofText? sql
  let (command, rest) ← command? ts
  if rest.all (· == .mark ';') then some command else none

end Command

end RecordQuery.Store
