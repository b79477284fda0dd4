namespace RecordQuery

inductive Dialect
  | mysql
  | postgres
  | sqlite
  deriving DecidableEq, Inhabited

namespace Dialect

/-- Any other name stands for `sqlite`. -/
def ofName (name : String) : Dialect :=
  let name := name.map Char.toLower
  if name = "mysql" ∨ name = "mariadb" then .mysql
  else if name = "postgres" ∨ name = "postgresql" ∨ name = "pg" then .postgres
  else .sqlite

def name : Dialect → String
  | .mysql => "mysql"
  | .postgres => "postgres"
  | .sqlite => "sqlite"

def quoteChar : Dialect → Char
  | .mysql => '\x60'
  | _ => '\x22'

def double (q : Char) : List Char → List Char
  | [] => []
  | c :: rest => if c = q then q :: q :: double q rest else c :: double q rest

def quote (δ : Dialect) (identifier : String) : String :=
  String.ofList (δ.quoteChar :: (double δ.quoteChar identifier.toList ++ [δ.quoteChar]))

theorem toList_quote (δ : Dialect) (identifier : String) :
    (δ.quote identifier).toList
      = δ.quoteChar :: (double δ.quoteChar identifier.toList ++ [δ.quoteChar]) := by
  simp [quote]

def placeholder (δ : Dialect) (index : Nat) : String :=
  match δ with
  | .postgres => "$" ++ toString index
  | _ => "?"

def convert (δ : Dialect) (column : String) (charset : Option String) : String :=
  match δ with
  | .mysql => "CONVERT(" ++ column ++ " USING " ++ charset.getD "utf8" ++ ")"
  | _ => column

def groupConcat (δ : Dialect) (column : String) : String :=
  match δ with
  | .postgres => "STRING_AGG(CAST(" ++ column ++ " AS TEXT), ',')"
  | _ => "GROUP_CONCAT(" ++ column ++ ")"

def sum (_ : Dialect) (expression : String) : String := "SUM(" ++ expression ++ ")"

def count (_ : Dialect) (column : String) : String := "COUNT(" ++ column ++ ")"

def random : Dialect → String
  | .mysql => "RAND()"
  | _ => "RANDOM()"

end Dialect

end RecordQuery
