import RecordQuery.Decimal.Double

/-!
The shortest decimal that reads back as a given double, and its text. The reals that round to a
double form an interval; the digits are the first grid point found in it, from one digit upwards.
-/

namespace RecordQuery

structure Decimal where
  digits : Nat
  exponent : Int
  deriving DecidableEq

namespace Decimal

def compareScaled (a : Nat) (i : Int) (b : Nat) (j : Int) : Ordering :=
  compare (a * Nat.pow 10 i.toNat * Nat.pow 2 (-j).toNat)
    (b * Nat.pow 2 j.toNat * Nat.pow 10 (-i).toNat)

/-- The gap to the value below is half the gap to the value above. -/
def narrowBelow (x : Double) : Bool := x.code % Double.binade == 0 && Double.binade < x.code

def readsBackAs (d : Decimal) (x : Double) : Bool :=
  let low := if narrowBelow x then 4 * x.mantissa - 1 else 4 * x.mantissa - 2
  let high := 4 * x.mantissa + 2
  let ends := x.mantissa % 2 == 0
  let below := compareScaled d.digits d.exponent low (x.exponent - 2)
  let above := compareScaled d.digits d.exponent high (x.exponent - 2)
  (below == .gt || (ends && below == .eq)) && (above == .lt || (ends && above == .eq))

def neighbours (x : Double) (e : Int) : Decimal × Decimal :=
  let (n, d) := Double.scaled x.mantissa 1 (-x.exponent)
  let below := if e < 0 then n * Nat.pow 10 (-e).toNat / d else n / (d * Nat.pow 10 e.toNat)
  (⟨below, e⟩, ⟨below + 1, e⟩)

def compareMiddle (x : Double) (below : Decimal) : Ordering :=
  (compareScaled (2 * below.digits + 1) below.exponent (2 * x.mantissa) x.exponent).swap

/-- The neighbour that reads back; of two the nearer one, and the even one at equal distance. -/
def onGrid? (x : Double) (e : Int) : Option Decimal :=
  let (below, above) := neighbours x e
  match below.digits != 0 && below.readsBackAs x, above.readsBackAs x with
  | false, false => none
  | true, false => some below
  | false, true => some above
  | true, true =>
    match compareMiddle x below with
    | .lt => some below
    | .gt => some above
    | .eq => some (if below.digits % 2 = 0 then below else above)

def strip : Nat → Decimal → Decimal
  | 0, d => d
  | fuel + 1, d =>
    if d.digits ≠ 0 ∧ d.digits % 10 = 0 then strip fuel ⟨d.digits / 10, d.exponent + 1⟩ else d

def scaleFrom (x : Double) : Nat → Int → Int
  | 0, k => k
  | fuel + 1, k =>
    if compareScaled 1 k x.mantissa x.exponent == .gt then k else scaleFrom x fuel (k + 1)

def scale (x : Double) : Int :=
  let bits : Int := Nat.log2 x.mantissa + x.exponent
  scaleFrom x 4 (bits * 30103 / 100000 - 1)

def exact (x : Double) : Decimal :=
  if x.exponent < 0 then ⟨x.mantissa * Nat.pow 5 (-x.exponent).toNat, x.exponent⟩
  else ⟨x.mantissa * Nat.pow 2 x.exponent.toNat, 0⟩

def shortest (x : Double) : Decimal :=
  let found := (List.range 17).findSome? fun n => onGrid? x (scale x - (n + 1 : Nat))
  strip 20 (found.getD (exact x))

structure Layout where
  least : Int
  most : Int
  /-- A single digit before an exponent has a point and a zero after it. -/
  pointed : Bool
  width : Nat

def Layout.plain : Layout := ⟨-4, 16, false, 1⟩

def zeros (n : Nat) : String := String.ofList (List.replicate n '0')

def lay (layout : Layout) (d : Decimal) : String :=
  let text := d.digits.repr
  let chars := text.toList
  let point : Int := chars.length + d.exponent
  if 0 ≤ d.exponent ∧ point ≤ layout.most then text ++ zeros d.exponent.toNat ++ ".0"
  else if 0 < point ∧ point ≤ layout.most then
    String.ofList (chars.take point.toNat) ++ "." ++ String.ofList (chars.drop point.toNat)
  else if layout.least ≤ point ∧ point ≤ 0 then "0." ++ zeros (-point).toNat ++ text
  else
    let fraction := match chars with
      | [] | [_] => if layout.pointed then text ++ ".0" else text
      | c :: rest => String.ofList (c :: '.' :: rest)
    let exponent := (point - 1).natAbs.repr
    fraction ++ (if point ≤ 0 then "e-" else "e+") ++ zeros (layout.width - exponent.length)
      ++ exponent

end Decimal

def Double.text (x : Double) : String :=
  let magnitude := if x.isZero then "0.0" else (Decimal.shortest x).lay .plain
  if x.negative then "-" ++ magnitude else magnitude

end RecordQuery
