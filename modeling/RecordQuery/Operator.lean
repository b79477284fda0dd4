import RecordQuery.Error
import RecordQuery.Operator.Like
import RecordQuery.Sql.Condition
import RecordQuery.Text.Uppercase

namespace RecordQuery

inductive Operator
  | equal | notEqual | lessEqual | greaterEqual | lessThan | greaterThan
  | like | ilike | ilikeStart | between | isIn | notIn | isNull | isNotNull
  | has
  deriving DecidableEq

inductive Predicate
  | combined (c : Condition)
  | standing (c : Condition)

def Predicate.condition : Predicate → Condition
  | .combined c => c
  | .standing c => c

/-- Conditions under the connective, and conditions of the statement. -/
structure Predicates where
  expression : List Condition
  statement : List Condition

namespace Predicates

def empty : Predicates := ⟨[], []⟩

def push (p : Predicates) : Predicate → Predicates
  | .combined c => { p with expression := p.expression ++ [c] }
  | .standing c => { p with statement := p.statement ++ [c] }

def isEmpty (p : Predicates) : Bool := p.expression.isEmpty && p.statement.isEmpty

def conditions (p : Predicates) : List Condition := p.expression ++ p.statement

end Predicates

namespace Operator

def all : List Operator :=
  [.equal, .notEqual, .lessEqual, .greaterEqual, .lessThan, .greaterThan, .like, .ilike,
    .ilikeStart, .between, .isIn, .notIn, .isNull, .isNotNull, .has]

def name : Operator → String
  | .equal => "EQUAL"
  | .notEqual => "NOT_EQUAL"
  | .lessEqual => "LESS_EQUAL"
  | .greaterEqual => "GREATER_EQUAL"
  | .lessThan => "LESS_THAN"
  | .greaterThan => "GREATER_THAN"
  | .like => "LIKE"
  | .ilike => "ILIKE"
  | .ilikeStart => "ILIKE_START"
  | .between => "BETWEEN"
  | .isIn => "IN"
  | .notIn => "NOT_IN"
  | .isNull => "IS_NULL"
  | .isNotNull => "IS_NOT_NULL"
  | .has => "HAS"

def ofName? (name : String) : Option Operator := all.find? (·.name == name)

def takesValue : Operator → Bool
  | .isNull | .isNotNull => false
  | _ => true

def scalar (value : Value) (parameter : String) : Except Error Value :=
  if value.isComposite then .error (.invalidValue parameter .scalarExpected) else .ok value

def textOf (value : Value) (parameter : String) : Except Error String :=
  match value with
  | .text s => .ok s
  | .bool true => .ok "true"
  | .bool false => .ok "false"
  | .int n => .ok (toString n)
  | .float x => .ok x.text
  | _ => .error (.invalidValue parameter .textExpected)

/-- Equality with null asks whether the column is null. -/
def compared (op : Comparison) (column : String) (value : Value) (parameter : String) :
    Except Error Predicate :=
  match op, value with
  | .eq, .null => .ok (.combined (.isNull column))
  | .ne, .null => .ok (.combined (.compare column .isNotNull none))
  | op, value => (scalar value parameter).map fun v => .combined (.compare column op (some v))

def patterned (subject : String) (pattern : List Char) : Predicate :=
  .combined (.raw (subject ++ " LIKE ? ESCAPE '*'") [.text (String.ofList pattern)])

def listed (op : Comparison) (column : String) (value : Value) : Predicate :=
  match Condition.members (some value) with
  | [] => .combined (.constant (op = .notIn))
  | items => .combined (.compare column op (some (.list items)))

def predicate (op : Operator) (column : String) (value : Value) (parameter : String) :
    Except Error Predicate :=
  match op with
  | .equal => compared .eq column value parameter
  | .notEqual => compared .ne column value parameter
  | .lessEqual => compared .le column value parameter
  | .greaterEqual => compared .ge column value parameter
  | .lessThan => compared .lt column value parameter
  | .greaterThan => compared .gt column value parameter
  | .isNull => .ok (.combined (.isNull column))
  | .isNotNull => .ok (.combined (.compare column .isNotNull none))
  | .like => (textOf value parameter).map fun s => patterned column (Like.containing s.toList)
  | .ilike =>
    (textOf value parameter).map fun s =>
      patterned ("UPPER(" ++ column ++ ")") (Like.containing (Text.upper s).toList)
  | .ilikeStart =>
    (textOf value parameter).map fun s =>
      patterned ("UPPER(" ++ column ++ ")") (Like.starting (Text.upper s).toList)
  | .between =>
    match value with
    | .list [low, high] => .ok (.standing (.raw (column ++ " BETWEEN ? AND ?") [low, high]))
    | _ => .error (.invalidValue parameter .boundsExpected)
  | .isIn => .ok (listed .isIn column value)
  | .notIn => .ok (listed .notIn column value)
  | .has => .error (.unsupportedOperator op.name)

end Operator

end RecordQuery
