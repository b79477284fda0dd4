import RecordQuery.Store.Visit

namespace RecordQuery.Store

abbrev Database := List StoredTable

inductive Answer
  | rows (rows : List Record)
  | affected (count : Nat)

namespace Database

def table (db : Database) (name : String) : Except Error StoredTable :=
  match db.find? (sameName name ·.name) with
  | some t => .ok t
  | none => .error .storage

def replace (db : Database) (t : StoredTable) : Database :=
  db.map fun other => if sameName other.name t.name then t else other

def isReserved (name : String) : Bool :=
  "sqlite_".toList.isPrefixOf (name.toList.map Char.toLower)

def isListed (name : String) : Bool :=
  !("sqlite".toList.isPrefixOf (name.toList.map Char.toLower) && 6 < name.length)

def tableNames (db : Database) : List String :=
  ((db.map StoredTable.name).filter isListed).mergeSort fun a b => !(b < a)

def evaluate (params : List Value) : Expression → Cell
  | .cell c => c
  | .param i => (params[i]?.map Cell.ofValue).getD .null

def hasRepeats : List String → Bool
  | [] => false
  | name :: rest => rest.any (sameName name) || hasRepeats rest

def specs (definitions : List Definition) : List ColumnSpec :=
  definitions.filterMap fun
    | .column c => some c
    | .primaryKey _ => none

def keys (definitions : List Definition) : List (List String) :=
  definitions.filterMap fun
    | .column c => if c.primary then some [c.name] else none
    | .primaryKey columns => some columns

def newTable (name : String) (definitions : List Definition) : Except Error StoredTable := do
  let columns := specs definitions
  if hasRepeats (columns.map ColumnSpec.name) || isReserved name then
    throw .storage
  match keys definitions with
  | [] => return ⟨name, columns, [], []⟩
  | [key] =>
    if key.all fun k => columns.any (sameName k ·.name) then return ⟨name, columns, key, []⟩
    else throw .storage
  | _ => throw .storage

def create (db : Database) (name : String) (unlessExists : Bool) (definitions : List Definition) :
    Except Error Database :=
  if db.any (sameName name ·.name) then if unlessExists then .ok db else .error .storage
  else (newTable name definitions).map fun t => db ++ [t]

def arrange (t : StoredTable) (positions : List Nat) (cells : List Cell) : List Cell :=
  (List.range t.columns.length).map fun i =>
    match (positions.zip cells).find? (·.1 == i) with
    | some (_, c) => c.stored (t.affinity i)
    | none => .null

def insert (db : Database) (params : List Value) (name : String) (columns : List String)
    (rows : List (List Expression)) : Except Error Database := do
  let t ← db.table name
  let positions ← columns.mapM t.position
  let t ← rows.foldlM (fun t row =>
    if row.length = columns.length then
      t.addRow (arrange t positions (row.map (evaluate params)))
    else .error .storage) t
  return db.replace t

def selects (t : StoredTable) (params : List Value) :
    Option Match → Except Error (List Cell → Bool)
  | none => .ok fun _ => true
  | some m => do
    let i ← t.position m.column
    let value := evaluate params m.value
    if t.rowNumber? = some i then
      return fun row => StoredTable.cellAt row i == value.asNumber
    return fun row => (StoredTable.cellAt row i).equals (value.compared (t.affinity i))

def setCells (t : StoredTable) (changes : List (Nat × Cell)) (row : List Cell) : List Cell :=
  changes.foldl (fun row (i, c) => row.set i (c.stored (t.affinity i))) row

/-- Changes rows one by one, each against the rows before and after it. -/
def updateRows (t : StoredTable) (changed : List Cell → Bool) (change : List Cell → List Cell) :
    List (List Cell) → List (List Cell) → Except Error (List (List Cell))
  | done, [] => .ok done
  | done, row :: rest =>
    if changed row then
      if t.accepts (done ++ rest) (change row) then
        updateRows t changed change (done ++ [change row]) rest
      else .error .storage
    else updateRows t changed change (done ++ [row]) rest

def update (db : Database) (params : List Value) (name : String)
    (changes : List (String × Expression)) (condition : Option Match) :
    Except Error (Database × Nat) := do
  let t ← db.table name
  let changes ← changes.mapM fun (column, value) => do
    return (← t.position column, evaluate params value)
  let changed ← selects t params condition
  let rows ← updateRows t changed (setCells t changes) [] t.rows
  return (db.replace { t with rows }, t.rows.countP changed)

def delete (db : Database) (params : List Value) (name : String) (condition : Option Match) :
    Except Error (Database × Nat) := do
  let t ← db.table name
  let deleted ← selects t params condition
  return (db.replace { t with rows := t.rows.filter (!deleted ·) }, t.rows.countP deleted)

/-- A repeated name keeps its first place and its last value. -/
def recordOf (names : List String) (cells : List Cell) : Record :=
  Fields.ofList (names.zip (cells.map Cell.value))

def selectFrom (db : Database) (params : List Value) (name : String) (columns : List String)
    (condition : Option Match) (order : Option OrderBy) : Except Error (List Record) := do
  let t ← db.table name
  let positions ← if columns.isEmpty then pure (List.range t.columns.length)
    else columns.mapM t.position
  let selected ← selects t params condition
  let fixed ← condition.mapM (t.position ·.column)
  let order ← order.mapM fun o => do
    return (← t.position o.column, o.descending)
  let used := positions ++ fixed.toList ++ (order.map Prod.fst).toList
  let names := positions.map fun i => (t.columns[i]?.map ColumnSpec.name).getD ""
  return ((t.visited used fixed order).filter selected).map fun row =>
    recordOf names (positions.map (StoredTable.cellAt row))

def perform (db : Database) (params : List Value) : Command → Except Error (Database × Answer)
  | .create name unlessExists definitions =>
    (db.create name unlessExists definitions).map fun db => (db, .affected 0)
  | .insert name columns rows =>
    (db.insert params name columns rows).map fun db => (db, .affected rows.length)
  | .update name changes condition =>
    (db.update params name changes condition).map fun (db, n) => (db, .affected n)
  | .delete name condition =>
    (db.delete params name condition).map fun (db, n) => (db, .affected n)
  | .selectFrom name columns condition order =>
    (db.selectFrom params name columns condition order).map fun rows => (db, .rows rows)
  | .selectValues values =>
    .ok (db, .rows [recordOf (values.map Prod.snd) (values.map (evaluate params ·.1))])
  | .nothing => .ok (db, .affected 0)

def run (db : Database) (sql : String) (params : List Value) : Except Error (Database × Answer) :=
  match Command.ofText? sql with
  | some command => db.perform params command
  | none => .error .storage

end Database

end RecordQuery.Store
