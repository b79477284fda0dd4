import RecordQuery.Path
import RecordQuery.Text.Blank
import RecordQuery.Value

namespace RecordQuery

structure EntityIndex where
  entries : Fields Value

namespace EntityIndex

def idText? : Value → Option String
  | .text s => some s
  | v => v.numeral?

def ofEntries (entries : List (String × Value)) : EntityIndex := ⟨Fields.ofList entries⟩

def entry? (r : Record) : Option (String × Value) := do
  let id ← idText? (← r.get? Path.idSegment)
  return (id, .record r)

def ofRecords (records : List Record) : EntityIndex := ofEntries (records.filterMap entry?)

def get? (index : EntityIndex) (id : String) : Option Value := Fields.get? id index.entries

def size (index : EntityIndex) : Nat := index.entries.length

def idsOf : Value → List String
  | .text s => ((Text.split ',' s).map Text.trim).filter (· != "")
  | v => v.numeral?.toList

/-- Each id becomes its record, an unknown one null. -/
def lookup (index : EntityIndex) (v : Value) : Value :=
  .list ((idsOf v).map fun id => (index.get? id).getD .null)

end EntityIndex

end RecordQuery
