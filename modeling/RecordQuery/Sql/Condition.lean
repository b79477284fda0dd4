import RecordQuery.Value.Printer

namespace RecordQuery

/-- SQL text with `?` markers and the values bound to them, in order. -/
structure Fragment where
  sql : String
  values : List Value

namespace Fragment

def empty : Fragment := ⟨"", []⟩

def ofSql (sql : String) : Fragment := ⟨sql, []⟩

def append (a b : Fragment) : Fragment := ⟨a.sql ++ b.sql, a.values ++ b.values⟩

instance : Append Fragment := ⟨append⟩

@[simp] theorem sql_append (a b : Fragment) : (a ++ b).sql = a.sql ++ b.sql := rfl

@[simp] theorem values_append (a b : Fragment) : (a ++ b).values = a.values ++ b.values := rfl

def concat : List Fragment → Fragment
  | [] => empty
  | a :: rest => a ++ concat rest

def joinWith (sep : String) : List Fragment → Fragment
  | [] => empty
  | [a] => a
  | a :: rest => a ++ ofSql sep ++ joinWith sep rest

end Fragment

inductive Comparison
  | eq | ne | lt | le | gt | ge | like | notLike | isIn | notIn | isNull | isNotNull
  deriving DecidableEq

def Comparison.sql : Comparison → String
  | .eq => "="
  | .ne => "<>"
  | .lt => "<"
  | .le => "<="
  | .gt => ">"
  | .ge => ">="
  | .like => "LIKE"
  | .notLike => "NOT LIKE"
  | .isIn => "IN"
  | .notIn => "NOT IN"
  | .isNull => "IS NULL"
  | .isNotNull => "IS NOT NULL"

inductive Connective
  | and | or
  deriving DecidableEq

def Connective.sql : Connective → String
  | .and => "AND"
  | .or => "OR"

inductive Condition
  | compare (column : String) (op : Comparison) (value : Option Value)
  | group (op : Connective) (conditions : List Condition)
  | raw (sql : String) (values : List Value)
  | constant (b : Bool)
  deriving Inhabited

namespace Condition

def eq (column : String) (value : Value) : Condition := .compare column .eq (some value)

def isNull (column : String) : Condition := .compare column .isNull none

def columnsEq (left right : String) : Condition := .raw (left ++ " = " ++ right) []

def combine (op : Connective) : List Condition → Condition
  | [c] => c
  | conditions => .group op conditions

def all (conditions : List Condition) : Condition := combine .and conditions

def andAlso : Condition → Condition → Condition
  | .group .and conditions, c => .group .and (conditions ++ [c])
  | existing, c => .group .and [existing, c]

/-- Lists and records are bound as their JSON text. -/
def bound (v : Value) : Value := if v.isComposite then .text v.json else v

def members : Option Value → List Value
  | some (.list items) => items
  | some .null | none => []
  | some v => [v]

def constantSql : Bool → String
  | true => "1 = 1"
  | false => "1 = 0"

def markers (n : Nat) : String := ", ".intercalate (List.replicate n "?")

def compareFragment (column : String) (op : Comparison) (value : Option Value) : Fragment :=
  match op with
  | .isNull | .isNotNull => .ofSql (column ++ " " ++ op.sql)
  | .isIn | .notIn =>
    match members value with
    | [] => .ofSql (constantSql (op = .notIn))
    | items =>
      ⟨column ++ " " ++ op.sql ++ " (" ++ markers items.length ++ ")", items.map bound⟩
  | _ =>
    match value with
    | none | some .null => .ofSql (column ++ " " ++ op.sql ++ " NULL")
    | some v => ⟨column ++ " " ++ op.sql ++ " ?", [bound v]⟩

mutual

def fragment : Condition → Fragment
  | .compare column op value => compareFragment column op value
  | .group _ [] => .ofSql (constantSql true)
  | .group op (c :: rest) =>
    .ofSql "(" ++ Fragment.joinWith (" " ++ op.sql ++ " ") (fragment c :: fragments rest)
      ++ .ofSql ")"
  | .raw sql values => ⟨sql, values.map bound⟩
  | .constant b => .ofSql (constantSql b)

def fragments : List Condition → List Fragment
  | [] => []
  | c :: rest => fragment c :: fragments rest

end

end Condition

end RecordQuery
