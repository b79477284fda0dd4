import RecordQuery.Record.Coerce
import RecordQuery.Record.EntityIndex

namespace RecordQuery

abbrev Middleware := Record → Record

inductive Handler
  | coerce (label : String) (type : SqlType)
  | unflatten (label : String) (type : Option SqlType)
  | denormalize (label : String) (dependency : Nat)
  deriving DecidableEq

namespace Record

/-- Puts a value at the end of a path; a value in the way that is no record is replaced. -/
def plant (v : Value) : List String → Record → Record
  | [], r => r
  | [leaf], r => r.insert leaf v
  | segment :: rest, r =>
    match r.get? segment with
    | some (.record inner) => r.insert segment (.record (plant v rest inner))
    | _ => r.insert segment (.record (plant v rest []))

def unflatten (label : String) (type : Option SqlType) (r : Record) : Record :=
  match r.get? label with
  | none => r
  | some v =>
    plant (match type with
      | some τ => v.coerce τ
      | none => v) (Path.segments label) (r.swapRemove label)

def update (label : String) (f : Value → Value) (r : Record) : Record :=
  match r.get? label with
  | none => r
  | some v => r.insert label (f v)

end Record

namespace Handler

def isDotted (label : String) : Bool := label.toList.contains '.'

def forColumn? (label : String) (type : Option SqlType) : Option Handler :=
  if isDotted label then some (.unflatten label type)
  else (type.filter SqlType.needsCoercion).map (.coerce label)

def apply (dependencies : List EntityIndex) (r : Record) : Handler → Record
  | .coerce label type => r.update label (Value.coerce type)
  | .unflatten label type => r.unflatten label type
  | .denormalize label dependency =>
    match dependencies[dependency]? with
    | some index => r.update label index.lookup
    | none => r

def applyAll (dependencies : List EntityIndex) (handlers : List Handler) (r : Record) : Record :=
  handlers.foldl (apply dependencies) r

end Handler

namespace Middleware

def runAll (middlewares : List Middleware) (r : Record) : Record :=
  middlewares.foldl (fun r f => f r) r

def set (key : String) (v : Value) : Middleware := Fields.insert key v

def count (key into : String) : Middleware := fun r =>
  r.insert into (match r.get? key with
    | some (.list items) => .int items.length
    | _ => .null)

def copy (key into : String) : Middleware := fun r => r.insert into ((r.get? key).getD .null)

end Middleware

end RecordQuery
