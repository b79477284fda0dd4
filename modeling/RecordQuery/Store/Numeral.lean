import RecordQuery.Decimal.Literal
import RecordQuery.Decimal.Shortest

namespace RecordQuery.Store

def isBlank (c : Char) : Bool := c == ' ' || (9 ≤ c.toNat && c.toNat ≤ 13)

namespace Numeral

def layout : Decimal.Layout := ⟨-3, 15, true, 2⟩

def fifteenDigits (x : Double) : Decimal :=
  let (n, e) := (Extended.ofDouble x).eighteenDigits
  let surplus := n.repr.length - 15
  let tenth := n / Nat.pow 10 (surplus - 1)
  Decimal.strip 20 ⟨if tenth % 10 < 5 then tenth / 10 else tenth / 10 + 1, e + surplus⟩

def text (x : Double) : String :=
  if x.isZero then "0.0"
  else
    let magnitude := if x.isFinite then (fifteenDigits x).lay layout else "Inf"
    if x.negative then "-" ++ magnitude else magnitude

end Numeral

end RecordQuery.Store
