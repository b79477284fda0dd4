import RecordQuery.Text.Blank
import RecordQuery.Text.Numeral
import RecordQuery.Value

namespace RecordQuery.Record

/-- The integer of a number, cut and clamped to 64 bits, or of a numeral. -/
def int64? (key : String) (r : Record) : Option Int :=
  match r.get? key with
  | some (.int n) => some (if n ≤ Text.maxInt64 then n else (Double.ofInt n).toInt64)
  | some (.float x) => some x.toInt64
  | some (.text s) => Text.int64? (Text.trimChars s.toList)
  | _ => none

def double? (key : String) (r : Record) : Option Double := (r.get? key).bind Value.float?

def bool? (key : String) (r : Record) : Option Bool := (r.get? key).bind Value.bool?

def text? (key : String) (r : Record) : Option String := (r.get? key).bind Value.text?

def intWithin? (low high : Int) (v : Value) : Option Int :=
  v.int?.filter fun n => low ≤ n && n ≤ high

def ints? (key : String) (r : Record) : Option (List Int) :=
  ((r.get? key).bind Value.items?).bind (List.mapM (intWithin? Text.minInt64 Text.maxInt64))

end RecordQuery.Record
