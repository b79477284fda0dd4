import RecordQuery.Dialect
import RecordQuery.Sql.Condition

/-!
Statements ready for a database. Every `?` outside quoted text becomes the dialect's placeholder,
numbered from one; quoted text is copied.
-/

namespace RecordQuery

structure Statement where
  sql : String
  params : List Value

namespace Statement

def isQuote (c : Char) : Bool := c == '\x27' || c == '\x22' || c == '\x60'

/-- Writes the placeholders, given the quote that is open and the number of the last one. -/
def place (δ : Dialect) : Option Char → Nat → List Char → List Char
  | _, _, [] => []
  | some q, n, c :: rest => c :: place δ (if c = q then none else some q) n rest
  | none, n, c :: rest =>
    if isQuote c then c :: place δ (some c) n rest
    else if c = '?' then (δ.placeholder (n + 1)).toList ++ place δ none (n + 1) rest
    else c :: place δ none n rest

def ofFragment (δ : Dialect) (φ : Fragment) : Statement :=
  ⟨String.ofList (place δ none 0 φ.sql.toList), φ.values⟩

end Statement

end RecordQuery
