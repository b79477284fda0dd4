import RecordQuery.Compilation
import RecordQuery.Text.Printable
import RecordQuery.Value.Printer

namespace RecordQuery.Inspect

def hexDigits (n : Nat) : List Char := Nat.toDigits 16 n

def escape (c : Char) : List Char :=
  if c.toNat = 0 then ['\\', '0']
  else if c = '\t' then ['\\', 't']
  else if c = '\r' then ['\\', 'r']
  else if c = '\n' then ['\\', 'n']
  else if c = '\x22' then ['\\', '\x22']
  else if c = '\\' then ['\\', '\\']
  else if Text.isPrintable c then [c]
  else ['\\', 'u', '\x7b'] ++ hexDigits c.toNat ++ ['\x7d']

def quoted (s : String) : String := "\"" ++ String.ofList (s.toList.flatMap escape) ++ "\""

def bracketed (items : List String) : String := "[" ++ ", ".intercalate items ++ "]"

def parts (name : String) (fields : List (String × String)) : String :=
  name ++ " \x7b " ++ ", ".intercalate (fields.map fun (k, v) => k ++ ": " ++ v) ++ " \x7d"

def wrapped (name inner : String) : String := name ++ "(" ++ inner ++ ")"

def optional (f : α → String) : Option α → String
  | none => "None"
  | some a => wrapped "Some" (f a)

mutual

def value : Value → String
  | .null => "Null"
  | .bool b => wrapped "Bool" (toString b)
  | .int n => wrapped "Number" (toString n)
  | .float x => wrapped "Number" x.text
  | .text s => wrapped "String" (quoted s)
  | .list items => "Array " ++ bracketed (values items)
  | .record fields => "Object \x7b" ++ ", ".intercalate (fieldTexts fields) ++ "\x7d"

def values : List Value → List String
  | [] => []
  | v :: rest => value v :: values rest

def fieldTexts : List (String × Value) → List String
  | [] => []
  | (k, v) :: rest => (quoted k ++ ": " ++ value v) :: fieldTexts rest

end

def operator : Operator → String
  | .equal => "Equal"
  | .notEqual => "NotEqual"
  | .lessEqual => "LessEqual"
  | .greaterEqual => "GreaterEqual"
  | .lessThan => "LessThan"
  | .greaterThan => "GreaterThan"
  | .like => "Like"
  | .ilike => "Ilike"
  | .ilikeStart => "IlikeStart"
  | .between => "Between"
  | .isIn => "In"
  | .notIn => "NotIn"
  | .isNull => "IsNull"
  | .isNotNull => "IsNotNull"
  | .has => "Has"

def joinType : JoinType → String
  | .inner => "Inner"
  | .left => "Left"

def function : ColumnFunction → String
  | .count => "Count"
  | .sum => "Sum"
  | .groupConcat => "GroupConcat"
  | .convert charset => parts "Convert" [("charset", optional quoted charset)]

def scopedCriterion (k : ScopedCriterion) : String :=
  parts "ScopedCriterion" [("criterion", quoted k.criterion), ("parameter", quoted k.parameter),
    ("path", quoted k.path), ("operator", operator k.operator)]

def fieldLeaf (leaf : FieldLeaf) : String :=
  parts "FieldLeaf" [("alias", quoted leaf.label), ("function", optional function leaf.function),
    ("join", joinType leaf.join), ("criteria", optional scopedCriterion leaf.criterion)]

def sortField (t : SortField) : String :=
  parts "SortField" [("path", quoted t.path),
    ("direction", if t.direction = .asc then "Asc" else "Desc"), ("raw", toString t.raw)]

def sort : SortSpec → String
  | .random => "Random"
  | .fields terms => wrapped "Fields" (bracketed (terms.map sortField))

def staticValue : StaticValue → String
  | .fixed v => wrapped "Fixed" (value v)
  | .computed _ => "Computed(..)"

def criterion (c : Criterion) : String :=
  parts "Criterion" [("parameter", quoted c.parameter), ("path", quoted c.path),
    ("operator", operator c.operator), ("value", optional staticValue c.value)]

def criteriaSpec (spec : CriteriaSpec) : String :=
  parts "CriteriaSpec" [("combinator", if spec.connective = .and then "And" else "Or"),
    ("items", bracketed (spec.items.map criterion))]

def nestedCriteria (k : NestedCriteria) : String :=
  parts "NestedCriteria" [("name", quoted k.name), ("spec", criteriaSpec k.spec)]

def entry (path leaf : String) : String := "(" ++ quoted path ++ ", " ++ leaf ++ ")"

def projectionParts (entries : List String) (middlewares : Nat) : String :=
  parts "Projection" [("fields", bracketed entries), ("middlewares", toString middlewares)]

def nestedList (options : NestedOptions) (inner : String) : String :=
  parts "NestedList" [("output_key", quoted options.outputKey), ("projection", inner),
    ("sort", optional sort options.sort), ("criteria", optional nestedCriteria options.criteria),
    ("join", joinType options.join)]

def entries : Projection → List String
  | .done _ => []
  | .column path label rest => entry path (wrapped "Column" (quoted label)) :: entries rest
  | .field path leaf rest => entry path (wrapped "Field" (fieldLeaf leaf)) :: entries rest
  | .list path options inner rest =>
    let inner := projectionParts (entries inner) inner.middlewares.length
    entry path (wrapped "List" (nestedList options inner)) :: entries rest

def projection (p : Projection) : String := projectionParts (entries p) p.middlewares.length

def compiledHead (c : CompiledQuery) : String := "CompiledQuery \x7b entity: " ++ quoted c.entity

def compiledTail (c : CompiledQuery) : String :=
  ", dependencies: " ++ bracketed (c.dependencies.map quoted) ++ ", middlewares: "
    ++ toString c.middlewares.length ++ ", grouped: " ++ toString c.grouped ++ " \x7d"

end RecordQuery.Inspect
