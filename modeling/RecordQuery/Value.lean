import RecordQuery.Decimal.Shortest
import RecordQuery.Fields

/-!
The values of requests, parameters and rows. Numbers are integers of 64 bits, signed or unsigned,
or doubles; `1` and `1.0` are different values. Records keep their fields in order.
-/

namespace RecordQuery

inductive Value
  | null
  | bool (b : Bool)
  | int (n : Int)
  | float (x : Double)
  | text (s : String)
  | list (items : List Value)
  | record (fields : List (String × Value))
  deriving Inhabited

abbrev Record := Fields Value

namespace Value

def isNull : Value → Bool
  | .null => true
  | _ => false

def isComposite : Value → Bool
  | .list _ | .record _ => true
  | _ => false

def fields? : Value → Option Record
  | .record fields => some fields
  | _ => none

def items? : Value → Option (List Value)
  | .list items => some items
  | _ => none

def text? : Value → Option String
  | .text s => some s
  | _ => none

def bool? : Value → Option Bool
  | .bool b => some b
  | _ => none

def int? : Value → Option Int
  | .int n => some n
  | _ => none

def float? : Value → Option Double
  | .int n => some (.ofInt n)
  | .float x => some x
  | _ => none

def numeral? : Value → Option String
  | .int n => some (toString n)
  | .float x => some x.text
  | _ => none

def field? (key : String) (v : Value) : Option Value := v.fields?.bind (Fields.get? key)

mutual

/-- Equality that ignores the order of fields and tells integers from doubles. -/
def same : Value → Value → Bool
  | .null, .null => true
  | .bool a, .bool b => a == b
  | .int a, .int b => a == b
  | .float a, .float b => a.same b
  | .text a, .text b => a == b
  | .list a, .list b => sameItems a b
  | .record a, .record b => a.length == b.length && sameFields a b
  | _, _ => false

def sameItems : List Value → List Value → Bool
  | [], [] => true
  | a :: as, b :: bs => same a b && sameItems as bs
  | _, _ => false

def sameFields : List (String × Value) → List (String × Value) → Bool
  | [], _ => true
  | (k, a) :: as, bs =>
    (match Fields.get? k bs with
      | some b => same a b
      | none => false) && sameFields as bs

end

end Value

end RecordQuery
