import RecordQuery.Error
import RecordQuery.Text.Numeral

namespace RecordQuery

structure Page where
  number : Nat
  size : Nat
  deriving DecidableEq

namespace Page

/-- Both parameters are positive and the offset fits a signed 64-bit integer. -/
def of? (number size : Int) : Except Error Page :=
  if size ≤ 0 then .error (.invalidPage (.size size))
  else if number ≤ 0 then .error (.invalidPage (.number number))
  else if Text.maxInt64 < (number - 1) * size then
    .error (.invalidPage (.outOfRange number size))
  else .ok ⟨number.toNat, size.toNat⟩

def offset (p : Page) : Nat := (p.number - 1) * p.size

def pages (p : Page) (count : Nat) : Nat := (count + p.size - 1) / p.size

end Page

end RecordQuery
