namespace RecordQuery

/-- The magnitude numbered `code`, counted upwards from zero. -/
structure Double where
  negative : Bool
  code : Nat
  deriving DecidableEq, Inhabited

namespace Double

def binade : Nat := 4503599627370496

def infinity : Nat := 2047 * binade

def zero : Double := ⟨false, 0⟩

def neg (x : Double) : Double := { x with negative := !x.negative }

def isFinite (x : Double) : Bool := x.code < infinity

def isZero (x : Double) : Bool := x.code == 0

def mantissa (x : Double) : Nat :=
  if x.code < binade then x.code else binade + x.code % binade

def exponent (x : Double) : Int :=
  if x.code < binade then -1074 else (x.code / binade : Nat) - 1075

def divToEven (num den : Nat) : Nat :=
  let q := num / den
  let r := num % den
  if 2 * r < den then q
  else if den < 2 * r then q + 1
  else if q % 2 = 0 then q else q + 1

def scaled (num den : Nat) (e : Int) : Nat × Nat :=
  if e < 0 then (num * Nat.pow 2 (-e).toNat, den) else (num, den * Nat.pow 2 e.toNat)

/-- The nearest double of `num / den`, infinite when the ratio is out of range. -/
def ofRatio (negative : Bool) (num den : Nat) : Double :=
  if num = 0 then ⟨negative, 0⟩
  else
    let guess : Int := (Nat.log2 num : Int) - Nat.log2 den - 52
    let (n, d) := scaled num den guess
    let e := max (if n / d < binade then guess - 1 else guess) (-1074)
    let (n, d) := scaled num den e
    ⟨negative, min ((e + 1074).toNat * binade + divToEven n d) infinity⟩

def ofInt (n : Int) : Double := ofRatio (n < 0) n.natAbs 1

def powerOfTen (k : Nat) : Double := ofRatio false (Nat.pow 10 k) 1

def mul (x y : Double) : Double :=
  let negative := x.negative != y.negative
  if x.isFinite && y.isFinite then
    let (n, d) := scaled (x.mantissa * y.mantissa) 1 (-(x.exponent + y.exponent))
    ofRatio negative n d
  else ⟨negative, infinity⟩

def div (x y : Double) : Double :=
  let negative := x.negative != y.negative
  if x.isFinite && y.isFinite then
    let (n, d) := scaled x.mantissa y.mantissa (y.exponent - x.exponent)
    ofRatio negative n d
  else ⟨negative, infinity⟩

def same (x y : Double) : Bool := x == y || (x.isZero && y.isZero)

def order (x : Double) : Int := if x.negative then -x.code else x.code

def wholeMagnitude (x : Double) : Nat :=
  let (n, d) := scaled x.mantissa 1 (-x.exponent)
  n / d

def toInt64 (x : Double) : Int :=
  if x.negative then -(min x.wholeMagnitude 9223372036854775808 : Nat)
  else (min x.wholeMagnitude 9223372036854775807 : Nat)

end Double

end RecordQuery
