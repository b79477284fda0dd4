namespace RecordQuery.Text

def digit? (c : Char) : Option Nat :=
  if '0' ≤ c ∧ c ≤ '9' then some (c.toNat - '0'.toNat) else none

def isDigit (c : Char) : Bool := (digit? c).isSome

def naturalFrom? : Nat → List Char → Option Nat
  | n, [] => some n
  | n, c :: rest => (digit? c).bind fun d => naturalFrom? (10 * n + d) rest

def natural? : List Char → Option Nat
  | [] => none
  | cs => naturalFrom? 0 cs

def signed? : List Char → Option Int
  | '+' :: rest => (natural? rest).map Int.ofNat
  | '-' :: rest => (natural? rest).map fun n => -Int.ofNat n
  | cs => (natural? cs).map Int.ofNat

def minInt64 : Int := -9223372036854775808

def maxInt64 : Int := 9223372036854775807

def maxUInt64 : Int := 18446744073709551615

def int64? (cs : List Char) : Option Int :=
  (signed? cs).filter fun n => minInt64 ≤ n && n ≤ maxInt64

theorem int64?_eq_some_iff {cs : List Char} {n : Int} :
    int64? cs = some n ↔ signed? cs = some n ∧ minInt64 ≤ n ∧ n ≤ maxInt64 := by
  simp [int64?, Option.filter_eq_some_iff]

def uint64? : List Char → Option Int
  | '-' :: _ => none
  | cs => (signed? cs).filter (· ≤ maxUInt64)

theorem uint64?_eq_some_iff {cs : List Char} {n : Int} :
    uint64? cs = some n ↔ cs.head? ≠ some '-' ∧ signed? cs = some n ∧ n ≤ maxUInt64 := by
  unfold uint64?
  split
  · simp
  · next h =>
    have hhead : cs.head? ≠ some '-' := by
      cases cs with
      | nil => simp
      | cons c cs => simpa using fun hc : c = '-' => h cs (hc ▸ rfl)
    simp [hhead, Option.filter_eq_some_iff]

theorem not_mem_toDigits {x : Char} (hx : x.isDigit = false) (n : Nat) : x ∉ Nat.toDigits 10 n := by
  intro hmem
  rw [Nat.isDigit_of_mem_toDigits (by decide) (by decide) hmem] at hx
  cases hx

theorem toDigits_inj {m n : Nat} (h : Nat.toDigits 10 m = Nat.toDigits 10 n) : m = n := by
  rw [← Nat.ofDigitChars_ten_toDigits (n := m), h, Nat.ofDigitChars_ten_toDigits]

end RecordQuery.Text
