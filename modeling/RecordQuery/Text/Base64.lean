namespace RecordQuery.Text

def base64Alphabet : List Char :=
  "ABCDEFGHIJKLMNOPQRSTUVWXYZabcdefghijklmnopqrstuvwxyz0123456789+/".toList

def base64Sign (n : Nat) : Char := (base64Alphabet[n % 64]?).getD 'A'

def base64 : List UInt8 → List Char
  | [] => []
  | [a] => [base64Sign (a.toNat / 4), base64Sign (a.toNat % 4 * 16), '=', '=']
  | [a, b] =>
    [base64Sign (a.toNat / 4), base64Sign (a.toNat % 4 * 16 + b.toNat / 16),
      base64Sign (b.toNat % 16 * 4), '=']
  | a :: b :: c :: rest =>
    base64Sign (a.toNat / 4) :: base64Sign (a.toNat % 4 * 16 + b.toNat / 16)
      :: base64Sign (b.toNat % 16 * 4 + c.toNat / 64) :: base64Sign (c.toNat % 64) :: base64 rest

def ofBytes (bytes : List UInt8) : String :=
  (String.fromUTF8? (ByteArray.mk bytes.toArray)).getD (String.ofList (base64 bytes))

end RecordQuery.Text
