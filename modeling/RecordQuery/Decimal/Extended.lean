import RecordQuery.Decimal.Double

/-!
Magnitudes of 64 significant bits, whose exponent has no bounds. Scaling by a power of ten goes by
hundreds of powers, then tens, then ones, and rounds to 64 bits at every step.
-/

namespace RecordQuery

structure Extended where
  mantissa : Nat
  exponent : Int
  deriving DecidableEq

namespace Extended

def halfRange : Nat := 9223372036854775808

def ofRatio (num den : Nat) : Extended :=
  if num = 0 then ⟨0, 0⟩
  else
    let guess : Int := (Nat.log2 num : Int) - Nat.log2 den - 63
    let (n, d) := Double.scaled num den guess
    let e := if n / d < halfRange then guess - 1 else guess
    let (n, d) := Double.scaled num den e
    ⟨Double.divToEven n d, e⟩

def ofNat (n : Nat) : Extended := ofRatio n 1

def ofDouble (x : Double) : Extended := ⟨x.mantissa, x.exponent⟩

def powerOfTen (k : Int) : Extended :=
  if 0 ≤ k then ofNat (Nat.pow 10 k.toNat) else ofRatio 1 (Nat.pow 10 (-k).toNat)

def mul (x y : Extended) : Extended :=
  let product := ofNat (x.mantissa * y.mantissa)
  ⟨product.mantissa, product.exponent + x.exponent + y.exponent⟩

def ratio (x : Extended) : Nat × Nat := Double.scaled x.mantissa 1 (-x.exponent)

def lt (x y : Extended) : Bool :=
  let (a, b) := x.ratio
  let (c, d) := y.ratio
  a * d < c * b

def floor (x : Extended) : Nat := x.ratio.1 / x.ratio.2

def mulPower (k : Int) (times : Nat) (x : Extended) : Extended :=
  let power := powerOfTen k
  times.repeat (·.mul power) x

def shift (e : Int) (x : Extended) : Extended :=
  let n := e.natAbs
  ((x.mulPower (100 * e.sign) (n / 100)).mulPower (10 * e.sign) (n % 100 / 10)).mulPower e.sign
    (n % 10)

def raise (limit power : Extended) (k : Int) : Nat → Extended × Int → Extended × Int
  | 0, x => x
  | fuel + 1, (x, e) =>
    if x.lt limit then raise limit power k fuel (x.mul power, e - k) else (x, e)

def reduce (limit power : Extended) (k : Int) : Nat → Extended × Int → Extended × Int
  | 0, x => x
  | fuel + 1, (x, e) =>
    if x.lt limit then (x, e) else reduce limit power k fuel (x.mul power, e + k)

/-- Scales a double to an integer part of eighteen or nineteen digits, and the power of ten taken
away. No double needs more than twelve steps of a kind. -/
def eighteenDigits (x : Extended) : Nat × Int :=
  let up := fun (k limit : Int) => raise (powerOfTen limit) (powerOfTen k) k 12
  let down := fun (k limit : Int) => reduce (powerOfTen limit) (powerOfTen (-k)) k 12
  let (y, e) :=
    if x.lt (powerOfTen 19) then up 1 17 (up 10 7 (up 100 (-97) (x, 0)))
    else down 1 19 (down 10 29 (down 100 119 (x, 0)))
  (y.floor, e)

def greatest : Extended := ⟨9007199254740991, 971⟩

def toDouble (negative : Bool) (x : Extended) : Double :=
  if x.mantissa = 0 ∨ x.exponent < -1300 then ⟨negative, 0⟩
  else if 1100 < x.exponent ∨ greatest.lt x then ⟨negative, Double.infinity⟩
  else .ofRatio negative x.ratio.1 x.ratio.2

end Extended

end RecordQuery
