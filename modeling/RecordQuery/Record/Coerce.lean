import RecordQuery.Schema.Entity
import RecordQuery.Text.Blank
import RecordQuery.Text.Numeral
import RecordQuery.Text.Split
import RecordQuery.Value

namespace RecordQuery

def SqlType.isInteger : SqlType → Bool
  | .bigInt | .integer | .smallInt => true
  | _ => false

def SqlType.needsCoercion (τ : SqlType) : Bool := τ.isInteger || τ = .boolean

namespace Coerce

def wholeDigits? (cs : List Char) : Option (List Char) :=
  match Text.cutFirst? '.' cs with
  | none => some cs
  | some (whole, fraction) => if fraction.all (· == '0') then some whole else none

def integer? (text : String) : Option Int :=
  (wholeDigits? (Text.trimChars text.toList)).bind fun digits =>
    (Text.int64? digits).or (Text.uint64? digits)

def boolean? (text : String) : Option Bool :=
  if text ∈ ["1", "true", "TRUE", "t"] then some true
  else if text ∈ ["0", "false", "FALSE", "f"] then some false
  else none

end Coerce

def Value.coerce (τ : SqlType) (v : Value) : Value :=
  if τ.isInteger then
    match v with
    | .text s => ((Coerce.integer? s).map Value.int).getD v
    | _ => v
  else if τ = .boolean then
    match v with
    | .int n => .bool (n != 0)
    | .float x => .bool (!x.isZero)
    | .text s => ((Coerce.boolean? s).map Value.bool).getD v
    | _ => v
  else v

end RecordQuery
