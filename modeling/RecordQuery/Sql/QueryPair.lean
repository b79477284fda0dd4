import RecordQuery.Sql.Page
import RecordQuery.Sql.Select

/-!
A row statement and a count statement over one source. Only the row statement has a field list, an
order and a page; the count statement counts a constant, so a grouped query counts its groups.
-/

namespace RecordQuery

structure QueryPair where
  source : Source
  fields : List Field
  orderBy : List OrderTerm
  page : Option Page

namespace QueryPair

def ofTable (table tableAlias : String) : QueryPair := ⟨.ofTable table tableAlias, [], [], none⟩

def field (q : QueryPair) (expression label : String) : QueryPair :=
  { q with fields := q.fields ++ [⟨expression, some label⟩] }

def order (q : QueryPair) (term : OrderTerm) : QueryPair :=
  { q with orderBy := q.orderBy ++ [term] }

def join (q : QueryPair) (j : Join) : QueryPair := { q with source := q.source.join j }

def addFilter (q : QueryPair) (c : Condition) : QueryPair :=
  { q with source := q.source.addFilter c }

def addHaving (q : QueryPair) (c : Condition) : QueryPair :=
  { q with source := q.source.addHaving c }

def group (q : QueryPair) (expression : String) : QueryPair :=
  { q with source := q.source.group expression }

def setPage (q : QueryPair) (p : Page) : QueryPair := { q with page := some p }

def rows (q : QueryPair) : Select :=
  ⟨q.source, q.fields, q.orderBy, q.page.map Page.size, q.page.map Page.offset⟩

def counted (q : QueryPair) : Select := (Select.ofSource q.source).field "0" none

def rowStatement (δ : Dialect) (q : QueryPair) : Except Error Statement := q.rows.statement δ

/-- The row statement cut to one row; the offset stays. -/
def firstStatement (δ : Dialect) (q : QueryPair) : Except Error Statement :=
  { q.rows with limit := some 1 }.statement δ

theorem foldl_join (js : List Join) (q : QueryPair) :
    js.foldl join q = { q with source := { q.source with joins := q.source.joins ++ js } } := by
  induction js generalizing q with
  | nil => simp
  | cons j js ih =>
    rw [List.foldl_cons, ih]
    simp [join, Source.join]

def countColumn : String := "count"

def countStatement (δ : Dialect) (q : QueryPair) : Except Error Statement :=
  (q.counted.fragment δ).map fun inner =>
    .ofFragment δ (.ofSql ("SELECT COUNT(*) AS " ++ δ.quote countColumn ++ " FROM (") ++ inner
      ++ .ofSql ") AS c")

end QueryPair

end RecordQuery
