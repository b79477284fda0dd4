import RecordQuery.Store.Numeral
import RecordQuery.Value.Reader

namespace RecordQuery.Store

inductive Token
  | word (s : String)
  | quoted (s : String)
  | text (s : String)
  | blob (bytes : List UInt8)
  | number (l : Decimal.Literal)
  | param (index : Nat)
  | mark (c : Char)
  deriving DecidableEq

namespace Token

/-- Drops the blanks at the start, the first of which is no vertical tab. -/
def skip : List Char → List Char
  | [] => []
  | c :: rest => if isBlank c && c.toNat != 11 then rest.dropWhile isBlank else c :: rest

def isWordStart (c : Char) : Bool := c.isAlpha || c == '_' || 127 < c.toNat

def isWordChar (c : Char) : Bool := isWordStart c || c.isDigit || c == '$'

def untilQuote? (q : Char) : List Char → Option (List Char × List Char)
  | [] => none
  | [c] => if c = q then some ([], []) else none
  | c :: d :: rest =>
    if c = q then
      if d = q then (untilQuote? q rest).map fun (cs, rest) => (q :: cs, rest)
      else some ([], d :: rest)
    else (untilQuote? q (d :: rest)).map fun (cs, rest) => (c :: cs, rest)

def bytes? : List Char → Option (List UInt8)
  | [] => some []
  | [_] => none
  | a :: b :: rest => do
    let high ← Value.Reader.hexValue? a
    let low ← Value.Reader.hexValue? b
    return (high * 16 + low).toUInt8 :: (← bytes? rest)

def isMark (c : Char) : Bool := "(),=*-+;.".toList.contains c

def next? (index : Nat) : List Char → Option (Token × List Char)
  | [] => none
  | c :: rest =>
    if c = '\x27' then (untilQuote? c rest).map fun (cs, rest) => (.text (String.ofList cs), rest)
    else if c = '\x22' || c = '\x60' then
      (untilQuote? c rest).map fun (cs, rest) => (.quoted (String.ofList cs), rest)
    else if c = '?' then some (.param index, rest)
    else if (c = 'x' || c = 'X') && rest.head? = some '\x27' then do
      let (cs, rest) ← untilQuote? '\x27' (rest.drop 1)
      return (.blob (← bytes? cs), rest)
    else if isWordStart c then
      some (.word (String.ofList ((c :: rest).takeWhile isWordChar)),
        (c :: rest).dropWhile isWordChar)
    else if c.isDigit || (c = '.' && rest.head?.any Char.isDigit) then do
      let (l, rest) ← Decimal.Literal.readOpen? (c :: rest)
      if rest.head?.any isWordChar then none else some (.number l, rest)
    else if isMark c then some (.mark c, rest)
    else none

def scan? : Nat → Nat → List Char → Option (List Token)
  | 0, _, cs => if (skip cs).isEmpty then some [] else none
  | fuel + 1, index, cs =>
    match skip cs with
    | [] => some []
    | cs => do
      let (t, rest) ← next? index cs
      let index := match t with
        | .param _ => index + 1
        | _ => index
      return t :: (← scan? fuel index rest)

def ofText? (sql : String) : Option (List Token) := scan? sql.length 0 sql.toList

def isKeyword (keyword : String) : Token → Bool
  | .word s => s.map Char.toUpper == keyword
  | _ => false

def reserved : List String := [
  "ADD", "ALL", "ALTER", "AND", "AS", "AUTOINCREMENT", "BETWEEN", "CASE", "CHECK", "COLLATE",
  "COMMIT", "CONSTRAINT", "CREATE", "DEFAULT", "DEFERRABLE", "DELETE", "DISTINCT", "DROP", "ELSE",
  "ESCAPE", "EXCEPT", "EXISTS", "FOREIGN", "FROM", "GROUP", "HAVING", "IN", "INDEX", "INSERT",
  "INTERSECT", "INTO", "IS", "ISNULL", "JOIN", "LIMIT", "NOT", "NOTHING", "NOTNULL", "NULL", "ON",
  "OR", "ORDER", "PRIMARY", "REFERENCES", "RETURNING", "SELECT", "SET", "TABLE", "THEN", "TO",
  "TRANSACTION", "UNION", "UNIQUE", "UPDATE", "USING", "VALUES", "WHEN", "WHERE"]

def name? : Token → Option String
  | .word s => if reserved.contains (s.map Char.toUpper) then none else some s
  | .quoted s => some s
  | _ => none

end Token

end RecordQuery.Store
