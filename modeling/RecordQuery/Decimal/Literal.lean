import RecordQuery.Decimal.Extended
import RecordQuery.Text.Numeral

/-!
Decimal literals: digits, a fraction, an exponent. Two readings round the leading 64 bits of digits
and then scale them by rounded powers of ten: `Literal.stepwise?` among the doubles, and
`Literal.extended` among magnitudes of 64 bits, of which only the last is rounded to a double.
-/

namespace RecordQuery.Decimal

structure Literal where
  whole : List Char
  fraction : Option (List Char)
  exponent : Option Int
  deriving DecidableEq

namespace Literal

def digitsOf (cs : List Char) : List Char × List Char :=
  (cs.takeWhile Text.isDigit, cs.dropWhile Text.isDigit)

def readFraction? : List Char → Option (Option (List Char) × List Char)
  | '.' :: rest =>
    match digitsOf rest with
    | ([], _) => none
    | (digits, rest) => some (some digits, rest)
  | rest => some (none, rest)

def readExponent? : List Char → Option (Option Int × List Char)
  | c :: rest =>
    if c == 'e' || c == 'E' then
      let (negative, rest) := match rest with
        | '+' :: rest => (false, rest)
        | '-' :: rest => (true, rest)
        | rest => (false, rest)
      let (digits, rest) := digitsOf rest
      (Text.natural? digits).map fun n => (some (if negative then -n else n), rest)
    else some (none, c :: rest)
  | [] => some (none, [])

def read? (cs : List Char) : Option (Literal × List Char) := do
  let (whole, rest) := digitsOf cs
  if whole.isEmpty then none
  let (fraction, rest) ← readFraction? rest
  let (exponent, rest) ← readExponent? rest
  return (⟨whole, fraction, exponent⟩, rest)

def readOpen? (cs : List Char) : Option (Literal × List Char) := do
  let (whole, rest) := digitsOf cs
  let (fraction, rest) := match rest with
    | '.' :: rest => (some (digitsOf rest).1, (digitsOf rest).2)
    | rest => (none, rest)
  if whole.isEmpty && (fraction.getD []).isEmpty then none
  let (exponent, rest) ← readExponent? rest
  return (⟨whole, fraction, exponent⟩, rest)

def isInteger (l : Literal) : Bool := l.fraction.isNone && l.exponent.isNone

def natural (l : Literal) : Nat := (Text.natural? l.whole).getD 0

def maxDigits : Nat := 18446744073709551615

def leading : Nat → Nat → List Char → Nat × Nat
  | value, taken, [] => (value, taken)
  | value, taken, c :: rest =>
    match Text.digit? c with
    | none => (value, taken)
    | some d =>
      if 10 * value + d ≤ maxDigits then leading (10 * value + d) (taken + 1) rest
      else (value, taken)

/-- Multiplies or divides by `10 ^ e`, at most 308 powers at a time; none on overflow. -/
def scaleBy : Nat → Double → Int → Option Double
  | 0, x, _ => some x
  | fuel + 1, x, e =>
    if e.natAbs ≤ 308 then
      let power := Double.powerOfTen e.natAbs
      if 0 ≤ e then
        let y := x.mul power
        if y.isFinite then some y else none
      else some (x.div power)
    else if x.isZero then some x
    else if 0 ≤ e then none
    else scaleBy fuel (x.div (.powerOfTen 308)) (e + 308)

/-- Digits after the first that does not fit 64 bits count as zeros. -/
def stepwise? (l : Literal) : Option Double :=
  let fraction := l.fraction.getD []
  let (value, taken) := leading 0 0 (l.whole ++ fraction)
  let e := l.exponent.getD 0 + ((l.whole.length : Int) - taken)
  scaleBy 16 (.ofInt value) (if e < -4000 then -4000 else e)

/-- Below this a further digit fits 64 bits, whichever it is. -/
def digitLimit : Nat := 1844674407370955160

def gather (digits : List Char) (start : Nat × Nat) : Nat × Nat :=
  digits.foldl (fun (n, out) c =>
    if n < digitLimit then (10 * n + (Text.digit? c).getD 0, out) else (n, out + 1)) start

def kept (l : Literal) : Nat × Int :=
  let fraction := l.fraction.getD []
  let (n, out) := gather fraction (gather l.whole (0, 0))
  (n, min 20000 (max (-20000) (l.exponent.getD 0)) + out - fraction.length)

def widen : Nat → Nat → Nat × Nat
  | n, 0 => (n, 0)
  | n, e + 1 => if n < digitLimit + 1 then widen (10 * n) e else (n, e + 1)

def narrow : Nat → Nat → Nat × Nat
  | n, 0 => (n, 0)
  | n, e + 1 => if n % 10 = 0 then narrow (n / 10) e else (n, e + 1)

def extended (negative : Bool) (l : Literal) : Double :=
  let (n, e) := l.kept
  if n = 0 then ⟨negative, 0⟩
  else
    let (n, e) : Nat × Int :=
      if 0 ≤ e then let (n, e) := widen n e.toNat; (n, e)
      else let (n, e) := narrow n (-e).toNat; (n, -e)
    ((Extended.ofNat n).shift e).toDouble negative

end Literal

end RecordQuery.Decimal
