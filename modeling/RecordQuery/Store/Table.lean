import RecordQuery.Error
import RecordQuery.Store.Command

/-!
Tables in memory: columns, a key, rows. A key of one column of type INTEGER numbers the rows; any
other key has an index, a list of the rows in the order of their keys.
-/

namespace RecordQuery.Store

structure StoredTable where
  name : String
  columns : List ColumnSpec
  primaryKey : List String
  rows : List (List Cell)

def sameName (a b : String) : Bool := a.map Char.toLower == b.map Char.toLower

namespace StoredTable

def position (t : StoredTable) (column : String) : Except Error Nat :=
  match t.columns.findIdx? (sameName column ·.name) with
  | some i => .ok i
  | none => .error .storage

def affinity (t : StoredTable) (i : Nat) : Affinity :=
  match t.columns[i]? with
  | some c => .ofType c.type
  | none => .blob

def keyPositions (t : StoredTable) : List Nat :=
  t.primaryKey.filterMap fun column => t.columns.findIdx? (sameName column ·.name)

def rowNumber? (t : StoredTable) : Option Nat :=
  match t.keyPositions with
  | [i] => if t.columns[i]?.any fun c => c.type.map Char.toUpper = "INTEGER" then some i else none
  | _ => none

def indexed (t : StoredTable) : List Nat := if t.rowNumber?.isSome then [] else t.keyPositions

def cellAt (row : List Cell) (i : Nat) : Cell := row[i]?.getD .null

def keyOf (t : StoredTable) (row : List Cell) : List Cell := t.keyPositions.map (cellAt row)

/-- Two rows have one key; a null is like no other cell. -/
def sameKey (t : StoredTable) (a b : List Cell) : Bool :=
  !t.keyPositions.isEmpty && (t.keyOf a).length == (t.keyOf b).length
    && ((t.keyOf a).zip (t.keyOf b)).all fun (x, y) => x.equals y

def nextNumber? (rows : List (List Cell)) (i : Nat) : Option Int :=
  let numbers := rows.filterMap fun row =>
    match cellAt row i with
    | .int n => some n
    | _ => none
  match numbers with
  | [] => some 1
  | n :: rest => some (rest.foldl max n + 1) |>.filter (· ≤ Text.maxInt64)

def numbered? (t : StoredTable) (row : List Cell) : Option (List Cell) :=
  match t.rowNumber? with
  | some i =>
    if cellAt row i = .null then (nextNumber? t.rows i).map fun n => row.set i (.int n)
    else some row
  | none => some row

def isNumbered (t : StoredTable) (row : List Cell) : Bool :=
  match t.rowNumber? with
  | some i =>
    match cellAt row i with
    | .int _ => true
    | _ => false
  | none => true

def accepts (t : StoredTable) (others : List (List Cell)) (row : List Cell) : Bool :=
  t.isNumbered row && (t.columns.zip row).all (fun (c, cell) => !(c.required && cell == .null))
    && others.all fun other => !t.sameKey other row

def addRow (t : StoredTable) (row : List Cell) : Except Error StoredTable :=
  match t.numbered? row with
  | some row =>
    if t.accepts t.rows row then .ok { t with rows := t.rows ++ [row] } else .error .storage
  | none => .error .storage

end StoredTable

end RecordQuery.Store
