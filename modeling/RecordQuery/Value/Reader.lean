import RecordQuery.Decimal.Literal
import RecordQuery.Value

/-!
Values from JSON text. An integer literal of the 64-bit ranges stays an integer, any other number
is a double; so is a minus zero.
-/

namespace RecordQuery.Value.Reader

def isSpace (c : Char) : Bool := c == ' ' || c == '\n' || c == '\t' || c == '\r'

def skip (cs : List Char) : List Char := cs.dropWhile isSpace

def hexValue? (c : Char) : Option Nat :=
  if '0' ≤ c ∧ c ≤ '9' then some (c.toNat - 48)
  else if 'a' ≤ c ∧ c ≤ 'f' then some (c.toNat - 87)
  else if 'A' ≤ c ∧ c ≤ 'F' then some (c.toNat - 55)
  else none

def unit? (a b c d : Char) : Option Nat := do
  return (((← hexValue? a) * 16 + (← hexValue? b)) * 16 + (← hexValue? c)) * 16 + (← hexValue? d)

def simpleEscape? : Char → Option Char
  | '"' => some '"'
  | '\\' => some '\\'
  | '/' => some '/'
  | 'b' => some (Char.ofNat 8)
  | 'f' => some (Char.ofNat 12)
  | 'n' => some '\n'
  | 'r' => some '\r'
  | 't' => some '\t'
  | _ => none

/-- The characters up to the closing quote, and the text after it. A pair of surrogate escapes is
one character, a lone one is refused. -/
def string? : List Char → Option (List Char × List Char)
  | [] => none
  | '"' :: rest => some ([], rest)
  | '\\' :: 'u' :: a :: b :: c :: d :: '\\' :: 'u' :: a2 :: b2 :: c2 :: d2 :: rest => do
    let high ← unit? a b c d
    if 0xD800 ≤ high ∧ high < 0xDC00 then
      let low ← unit? a2 b2 c2 d2
      if 0xDC00 ≤ low ∧ low < 0xE000 then
        let (cs, rest) ← string? rest
        return (Char.ofNat (0x10000 + (high - 0xD800) * 0x400 + (low - 0xDC00)) :: cs, rest)
      else none
    else if 0xDC00 ≤ high ∧ high < 0xE000 then none
    else
      let (cs, rest) ← string? ('\\' :: 'u' :: a2 :: b2 :: c2 :: d2 :: rest)
      return (Char.ofNat high :: cs, rest)
  | '\\' :: 'u' :: a :: b :: c :: d :: rest => do
    let code ← unit? a b c d
    if 0xD800 ≤ code ∧ code < 0xE000 then none
    let (cs, rest) ← string? rest
    return (Char.ofNat code :: cs, rest)
  | '\\' :: c :: rest => do
    let e ← simpleEscape? c
    let (cs, rest) ← string? rest
    return (e :: cs, rest)
  | c :: rest => do
    if c.toNat < 32 then none
    let (cs, rest) ← string? rest
    return (c :: cs, rest)
termination_by cs => cs.length

def number? (negative : Bool) (cs : List Char) : Option (Value × List Char) := do
  let (literal, rest) ← Decimal.Literal.read? cs
  let n : Int := literal.natural
  if literal.isInteger && !negative && n ≤ Text.maxUInt64 then return (.int n, rest)
  if literal.isInteger && negative && n != 0 && Text.minInt64 ≤ -n then return (.int (-n), rest)
  let x ← literal.stepwise?
  return (.float (if negative then x.neg else x), rest)

mutual

/-- The fuel bounds the nesting and the number of items together. -/
def value? : Nat → List Char → Option (Value × List Char)
  | 0, _ => none
  | fuel + 1, cs =>
    match skip cs with
    | 'n' :: 'u' :: 'l' :: 'l' :: rest => some (.null, rest)
    | 't' :: 'r' :: 'u' :: 'e' :: rest => some (.bool true, rest)
    | 'f' :: 'a' :: 'l' :: 's' :: 'e' :: rest => some (.bool false, rest)
    | '"' :: rest => (string? rest).map fun (s, rest) => (.text (String.ofList s), rest)
    | '[' :: rest =>
      match skip rest with
      | ']' :: rest => some (.list [], rest)
      | rest => (items? fuel rest).map fun (items, rest) => (.list items, rest)
    | '\x7b' :: rest =>
      match skip rest with
      | '\x7d' :: rest => some (.record [], rest)
      | rest => (fields? fuel rest).map fun (fields, rest) => (.record (Fields.ofList fields), rest)
    | '-' :: rest => number? true rest
    | rest => number? false rest

def items? : Nat → List Char → Option (List Value × List Char)
  | 0, _ => none
  | fuel + 1, cs => do
    let (v, rest) ← value? fuel cs
    match skip rest with
    | ',' :: rest =>
      let (vs, rest) ← items? fuel rest
      return (v :: vs, rest)
    | ']' :: rest => return ([v], rest)
    | _ => none

def fields? : Nat → List Char → Option (List (String × Value) × List Char)
  | 0, _ => none
  | fuel + 1, cs => do
    let '"' :: rest := skip cs | none
    let (key, rest) ← string? rest
    let ':' :: rest := skip rest | none
    let (v, rest) ← value? fuel rest
    match skip rest with
    | ',' :: rest =>
      let (more, rest) ← fields? fuel rest
      return ((String.ofList key, v) :: more, rest)
    | '\x7d' :: rest => return ([(String.ofList key, v)], rest)
    | _ => none

end

end RecordQuery.Value.Reader

namespace RecordQuery.Value

def ofJson? (text : String) : Option Value := do
  let cs := text.toList
  let (v, rest) ← Reader.value? (2 * cs.length + 2) cs
  if (Reader.skip rest).isEmpty then some v else none

end RecordQuery.Value
