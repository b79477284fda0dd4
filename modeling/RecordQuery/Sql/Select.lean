import RecordQuery.Error
import RecordQuery.Sql.Statement

namespace RecordQuery

inductive Direction
  | asc | desc
  deriving DecidableEq

def Direction.sql : Direction → String
  | .asc => "ASC"
  | .desc => "DESC"

inductive JoinType
  | inner | left
  deriving DecidableEq

def JoinType.sql : JoinType → String
  | .inner => "INNER JOIN"
  | .left => "LEFT JOIN"

structure Field where
  expression : String
  label : Option String

structure Join where
  type : JoinType
  table : String
  tableAlias : String
  on : Condition

/-- A term without direction is an expression such as a random order. -/
structure OrderTerm where
  expression : String
  direction : Option Direction

structure Source where
  table : String
  tableAlias : String
  joins : List Join
  filter : Option Condition
  groupBy : List String
  having : Option Condition

structure Select where
  source : Source
  fields : List Field
  orderBy : List OrderTerm
  limit : Option Nat
  offset : Option Nat

def Field.sql (δ : Dialect) (f : Field) : String :=
  match f.label with
  | some label => f.expression ++ " AS " ++ δ.quote label
  | none => f.expression

def Join.fragment (δ : Dialect) (j : Join) : Fragment :=
  .ofSql (" " ++ j.type.sql ++ " " ++ δ.quote j.table ++ " AS " ++ j.tableAlias ++ " ON ")
    ++ j.on.fragment

def OrderTerm.sql (t : OrderTerm) : String :=
  match t.direction with
  | some direction => t.expression ++ " " ++ direction.sql
  | none => t.expression

namespace Source

def ofTable (table tableAlias : String) : Source := ⟨table, tableAlias, [], none, [], none⟩

def conjoin (existing : Option Condition) (c : Condition) : Option Condition :=
  match existing with
  | some e => some (e.andAlso c)
  | none => some c

def join (s : Source) (j : Join) : Source := { s with joins := s.joins ++ [j] }

def addFilter (s : Source) (c : Condition) : Source := { s with filter := conjoin s.filter c }

def addHaving (s : Source) (c : Condition) : Source := { s with having := conjoin s.having c }

def group (s : Source) (expression : String) : Source :=
  if expression ∈ s.groupBy then s else { s with groupBy := s.groupBy ++ [expression] }

def clause (keyword : String) : Option Condition → Fragment
  | some c => .ofSql keyword ++ c.fragment
  | none => .empty

def fragment (δ : Dialect) (s : Source) : Fragment :=
  .ofSql (" FROM " ++ δ.quote s.table ++ " AS " ++ s.tableAlias)
    ++ Fragment.concat (s.joins.map (Join.fragment δ))
    ++ clause " WHERE " s.filter
    ++ (if s.groupBy.isEmpty then .empty
      else .ofSql (" GROUP BY " ++ ", ".intercalate s.groupBy))
    ++ clause " HAVING " s.having

end Source

namespace Select

def ofSource (s : Source) : Select := ⟨s, [], [], none, none⟩

def ofTable (table tableAlias : String) : Select := ofSource (.ofTable table tableAlias)

def field (q : Select) (expression : String) (label : Option String) : Select :=
  { q with fields := q.fields ++ [⟨expression, label⟩] }

def order (q : Select) (term : OrderTerm) : Select := { q with orderBy := q.orderBy ++ [term] }

def tail (q : Select) : String :=
  (if q.orderBy.isEmpty then "" else " ORDER BY " ++ ", ".intercalate (q.orderBy.map OrderTerm.sql))
    ++ (match q.limit with
      | some n => " LIMIT " ++ toString n
      | none => "")
    ++ (match q.offset with
      | some n => " OFFSET " ++ toString n
      | none => "")

def fieldList (δ : Dialect) (q : Select) : String :=
  ", ".intercalate (q.fields.map (Field.sql δ))

def fragment (δ : Dialect) (q : Select) : Except Error Fragment :=
  if q.fields.isEmpty then .error (.schema (.noFields q.source.table))
  else .ok (.ofSql ("SELECT " ++ q.fieldList δ) ++ q.source.fragment δ ++ .ofSql q.tail)

def statement (δ : Dialect) (q : Select) : Except Error Statement :=
  (q.fragment δ).map (Statement.ofFragment δ)

end Select

end RecordQuery
