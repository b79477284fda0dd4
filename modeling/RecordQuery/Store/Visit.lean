import RecordQuery.Store.Table

/-!
The order in which a query visits the rows of a table. Without use for the index that is the order
of their numbers, else of their insertion. The index serves a query that fixes the first key column
or asks for the order of the next one, and a query that the index answers alone if it is narrower
than the table; such a query visits the rows in the order of their keys.
-/

namespace RecordQuery.Store

def ColumnSpec.width (c : ColumnSpec) : Nat :=
  match Affinity.ofType c.type with
  | .text => if Text.occurs "CHAR" (c.type.map Char.toUpper) then 1 else 5
  | .blob => if c.type.isEmpty then 1 else 5
  | _ => 1

def leadingBits (n : Nat) : Nat :=
  let scale := Nat.pow 2 (n.log2 - 3)
  n / scale * scale

namespace StoredTable

def width (columns : List ColumnSpec) : Nat := columns.foldl (fun n c => n + c.width) 1

def rowWidth (t : StoredTable) : Nat := width t.columns

def indexWidth (t : StoredTable) : Nat := width (t.indexed.filterMap fun i => t.columns[i]?)

def indexSuffices (t : StoredTable) (used : List Nat) : Bool :=
  used.all t.indexed.contains && leadingBits t.indexWidth < leadingBits t.rowWidth

def compareKeys : List Cell → List Cell → Ordering
  | a :: as, b :: bs => (a.order b).then (compareKeys as bs)
  | _, _ => .eq

def byNumber (t : StoredTable) : List (List Cell) :=
  match t.rowNumber? with
  | some i => t.rows.mergeSort fun a b => (cellAt a i).order (cellAt b i) != .gt
  | none => t.rows

def byKey (t : StoredTable) : List (List Cell) :=
  t.rows.mergeSort fun a b => compareKeys (t.keyOf a) (t.keyOf b) != .gt

def sortedBy (i : Nat) (descending : Bool) (rows : List (List Cell)) : List (List Cell) :=
  rows.mergeSort fun a b =>
    let ordering := (cellAt a i).order (cellAt b i)
    if descending then ordering != .lt else ordering != .gt

def visited (t : StoredTable) (used : List Nat) (fixed : Option Nat) (order : Option (Nat × Bool)) :
    List (List Cell) :=
  let keyed := fixed.isSome && fixed == t.indexed.head?
  let next := if keyed then t.indexed[1]? else t.indexed.head?
  match order with
  | some (i, descending) =>
    if next = some i then if descending then t.byKey.reverse else t.byKey
    else sortedBy i descending (if keyed || t.indexSuffices used then t.byKey else t.byNumber)
  | none => if keyed || t.indexSuffices used then t.byKey else t.byNumber

end StoredTable

end RecordQuery.Store
