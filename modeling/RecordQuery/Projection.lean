import RecordQuery.Criteria
import RecordQuery.Record.Handler
import RecordQuery.Sql.Select

namespace RecordQuery

inductive ColumnFunction
  | count
  | sum
  | groupConcat
  | convert (charset : Option String)
  deriving DecidableEq

namespace ColumnFunction

def isAggregate : ColumnFunction → Bool
  | .convert _ => false
  | _ => true

def sql (δ : Dialect) (column : String) : ColumnFunction → String
  | .count => δ.count column
  | .sum => δ.sum column
  | .groupConcat => δ.groupConcat column
  | .convert charset => δ.convert column charset

def resultType (type : SqlType) : ColumnFunction → Option SqlType
  | .count => some .bigInt
  | .groupConcat => none
  | .sum | .convert _ => some type

end ColumnFunction

structure ScopedCriterion where
  criterion : String
  parameter : String
  path : String
  operator : Operator
  deriving DecidableEq

structure FieldLeaf where
  label : String
  function : Option ColumnFunction
  join : JoinType
  criterion : Option ScopedCriterion
  deriving DecidableEq

structure SortField where
  path : String
  direction : Direction
  raw : Bool
  deriving DecidableEq

inductive SortSpec
  | random
  | fields (terms : List SortField)
  deriving DecidableEq

namespace SortSpec

/-- A term after a random order replaces it. -/
def push (s : SortSpec) (t : SortField) : SortSpec :=
  match s with
  | .random => .fields [t]
  | .fields terms => .fields (terms ++ [t])

def single (path : String) (direction : Direction) : SortSpec := .fields [⟨path, direction, false⟩]

end SortSpec

structure NestedCriteria where
  name : String
  spec : CriteriaSpec

structure NestedOptions where
  outputKey : String
  sort : Option SortSpec
  criteria : Option NestedCriteria
  join : JoinType

/-- Leaves in order, ending in the middlewares that run on every record. -/
inductive Projection
  | done (middlewares : List Middleware)
  | column (path label : String) (rest : Projection)
  | field (path : String) (leaf : FieldLeaf) (rest : Projection)
  | list (path : String) (options : NestedOptions) (inner rest : Projection)

inductive Leaf
  | column (label : String)
  | field (leaf : FieldLeaf)
  | list (options : NestedOptions) (inner : Projection)

namespace Projection

def middlewares : Projection → List Middleware
  | .done middlewares => middlewares
  | .column _ _ rest => rest.middlewares
  | .field _ _ rest => rest.middlewares
  | .list _ _ _ rest => rest.middlewares

def leaves : Projection → List (String × Leaf)
  | .done _ => []
  | .column path label rest => (path, .column label) :: rest.leaves
  | .field path leaf rest => (path, .field leaf) :: rest.leaves
  | .list path options inner rest => (path, .list options inner) :: rest.leaves

def ofLeaves (middlewares : List Middleware) : List (String × Leaf) → Projection
  | [] => .done middlewares
  | (path, .column label) :: rest => .column path label (ofLeaves middlewares rest)
  | (path, .field leaf) :: rest => .field path leaf (ofLeaves middlewares rest)
  | (path, .list options inner) :: rest => .list path options inner (ofLeaves middlewares rest)

def depth : Projection → Nat
  | .done _ => 0
  | .column _ _ rest => rest.depth
  | .field _ _ rest => rest.depth
  | .list _ _ inner rest => max (inner.depth + 1) rest.depth

@[simp] theorem leaves_ofLeaves (middlewares : List Middleware) (leaves : List (String × Leaf)) :
    (ofLeaves middlewares leaves).leaves = leaves := by
  induction leaves with
  | nil => rfl
  | cons leaf rest ih =>
    obtain ⟨path, leaf⟩ := leaf; cases leaf <;> simp [ofLeaves, Projection.leaves, ih]

end Projection

end RecordQuery
