import Mathlib.Data.List.Basic
import RecordQuery.Proofs.Text.Trimming
import RecordQuery.Record.Coerce

namespace RecordQuery

namespace Text

inductive Sign
  | none
  | plus
  | minus

namespace Sign

def chars : Sign → List Char
  | none => []
  | plus => ['+']
  | minus => ['-']

def apply : Sign → Nat → Int
  | minus, n => -n
  | _, n => n

end Sign

def zeroFraction : Option Nat → List Char
  | none => []
  | some n => '.' :: List.replicate n '0'

/-- An integer in decimal notation. -/
structure Numeral where
  sign : Sign
  digits : List Char
  zeros : Option Nat
  nonempty : digits ≠ []
  decimal : ∀ c ∈ digits, c.isDigit = true

namespace Numeral

def whole (m : Numeral) : List Char := m.sign.chars ++ m.digits

def chars (m : Numeral) : List Char := m.whole ++ zeroFraction m.zeros

def value (m : Numeral) : Int := m.sign.apply (Nat.ofDigitChars 10 m.digits 0)

def Denotes (cs : List Char) (n : Int) : Prop := ∃ m : Numeral, m.chars = cs ∧ m.value = n

end Numeral

theorem isDigit_iff {c : Char} : c.isDigit = true ↔ '0' ≤ c ∧ c ≤ '9' := by
  simp [Char.isDigit, Char.le_def]

theorem digit?_of_isDigit {c : Char} (h : c.isDigit = true) : digit? c = some (c.toNat - 48) :=
  if_pos (isDigit_iff.1 h)

theorem digit?_eq_none {c : Char} (h : c.isDigit = false) : digit? c = none := by
  refine if_neg fun hdigit => ?_
  rw [isDigit_iff.2 hdigit] at h
  cases h

theorem naturalFrom?_eq_some_iff {a n : Nat} {cs : List Char} :
    naturalFrom? a cs = some n ↔
      (∀ c ∈ cs, c.isDigit = true) ∧ Nat.ofDigitChars 10 cs a = n := by
  induction cs generalizing a with
  | nil => simp [naturalFrom?]
  | cons c cs ih =>
    cases hc : c.isDigit with
    | true => simp [naturalFrom?, digit?_of_isDigit hc, hc, ih, Nat.ofDigitChars_cons]
    | false => simp [naturalFrom?, digit?_eq_none hc, hc]

theorem natural?_eq_some_iff {n : Nat} {cs : List Char} :
    natural? cs = some n ↔
      cs ≠ [] ∧ (∀ c ∈ cs, c.isDigit = true) ∧ Nat.ofDigitChars 10 cs 0 = n := by
  cases cs with
  | nil => simp [natural?]
  | cons c cs =>
    rw [natural?, naturalFrom?_eq_some_iff]
    · simp
    · simp

namespace Numeral

theorem not_mem_digits (m : Numeral) {c : Char} (hc : c.isDigit = false) : c ∉ m.digits := by
  intro hmem
  rw [m.decimal c hmem] at hc
  cases hc

theorem not_mem_whole (m : Numeral) : '.' ∉ m.whole := by
  have hsign : '.' ∉ m.sign.chars := by cases m.sign <;> decide
  exact fun hmem => (List.mem_append.1 hmem).elim hsign (m.not_mem_digits rfl)

theorem value_nonneg {m : Numeral} (h : m.whole.head? ≠ some '-') : 0 ≤ m.value := by
  unfold value
  cases hsign : m.sign with
  | minus => simp [whole, hsign, Sign.chars] at h
  | _ => exact Int.natCast_nonneg _

theorem value_nonpos {m : Numeral} (h : m.whole.head? = some '-') : m.value ≤ 0 := by
  unfold value
  cases hsign : m.sign with
  | none =>
    simp only [whole, hsign, Sign.chars, List.nil_append] at h
    exact absurd (List.mem_of_head? h) (m.not_mem_digits rfl)
  | plus => simp [whole, hsign, Sign.chars] at h
  | minus => exact Int.neg_nonpos_of_nonneg (Int.natCast_nonneg _)

theorem mem_chars {m : Numeral} {c : Char} (h : c ∈ m.chars) :
    c.isDigit = true ∨ c ∈ ['+', '-', '.'] := by
  have hsign : ∀ c ∈ m.sign.chars, c ∈ ['+', '-', '.'] := by
    cases m.sign <;> simp [Sign.chars]
  have hfraction : ∀ c ∈ zeroFraction m.zeros, c.isDigit = true ∨ c ∈ ['+', '-', '.'] := by
    cases m.zeros with
    | none => simp [zeroFraction]
    | some n =>
      intro c hc
      rcases List.mem_cons.1 hc with rfl | hc
      · exact .inr (by decide)
      · rw [List.eq_of_mem_replicate hc]
        exact .inl rfl
  rcases List.mem_append.1 h with h | h
  · rcases List.mem_append.1 h with h | h
    · exact .inr (hsign c h)
    · exact .inl (m.decimal c h)
  · exact hfraction c h

theorem bare_chars (m : Numeral) : Bare m.chars := by
  have hblank : ∀ c ∈ m.chars, isBlank c = false := by
    intro c hc
    rcases mem_chars hc with hdigit | hmark
    · have hbounds : 48 ≤ c.toNat ∧ c.toNat ≤ 57 := by
        simpa [Char.isDigit, UInt32.le_iff_toNat_le] using hdigit
      simp [isBlank, blankRanges]
      omega
    · simp only [List.mem_cons, List.not_mem_nil, or_false] at hmark
      rcases hmark with rfl | rfl | rfl <;> rfl
  exact ⟨fun c hc => hblank c (List.mem_of_head? hc),
    fun c hc => hblank c (List.mem_of_getLast? hc)⟩

def ofInt (n : Int) : Numeral where
  sign := if 0 ≤ n then .none else .minus
  digits := Nat.toDigits 10 n.natAbs
  zeros := none
  nonempty := Nat.toDigits_ne_nil
  decimal _ hc := Nat.isDigit_of_mem_toDigits (by decide) (by decide) hc

theorem value_ofInt (n : Int) : (ofInt n).value = n := by
  unfold value ofInt
  rw [Nat.ofDigitChars_ten_toDigits]
  split <;> simp only [Sign.apply] <;> omega

theorem chars_ofInt (n : Int) : (ofInt n).chars = (toString n).toList := by
  rw [Int.toString_eq_repr, Int.repr_eq_if]
  by_cases hn : 0 ≤ n
  · have habs : n.toNat = n.natAbs := by omega
    simp [chars, whole, ofInt, hn, Sign.chars, zeroFraction, Nat.toList_repr, habs]
  · have habs : (-n).toNat = n.natAbs := by omega
    simp [chars, whole, ofInt, hn, Sign.chars, zeroFraction, Nat.toList_repr, habs]

end Numeral

theorem signed?_whole (m : Numeral) : signed? m.whole = some m.value := by
  have hread : natural? m.digits = some (Nat.ofDigitChars 10 m.digits 0) :=
    natural?_eq_some_iff.2 ⟨m.nonempty, m.decimal, rfl⟩
  unfold Numeral.whole Numeral.value
  cases m.sign with
  | plus => simp [Sign.chars, signed?, hread, Sign.apply]
  | minus => simp [Sign.chars, signed?, hread, Sign.apply]
  | none =>
    have hsign (c : Char) (hc : c.isDigit = false) (rest : List Char) : m.digits ≠ c :: rest :=
      fun heq => m.not_mem_digits hc (heq ▸ List.mem_cons_self)
    rw [Sign.chars, List.nil_append, signed?.eq_3 _ (hsign '+' rfl) (hsign '-' rfl), hread]
    rfl

theorem signed?_eq_some_iff {cs : List Char} {n : Int} :
    signed? cs = some n ↔ ∃ m : Numeral, m.whole = cs ∧ m.value = n := by
  constructor
  · intro h
    have hread (sign : Sign) {digits : List Char} (hcs : sign.chars ++ digits = cs)
        (hn : (natural? digits).map sign.apply = some n) :
        ∃ m : Numeral, m.whole = cs ∧ m.value = n := by
      obtain ⟨value, hvalue, happly⟩ := Option.map_eq_some_iff.1 hn
      obtain ⟨hne, hdecimal, rfl⟩ := natural?_eq_some_iff.1 hvalue
      exact ⟨⟨sign, digits, none, hne, hdecimal⟩, hcs, happly⟩
    unfold signed? at h
    split at h
    · exact hread .plus rfl h
    · exact hread .minus rfl h
    · exact hread .none rfl h
  · rintro ⟨m, rfl, rfl⟩
    exact signed?_whole m

theorem int64?_or_uint64? {cs : List Char} {n : Int} :
    (int64? cs).or (uint64? cs) = some n ↔
      signed? cs = some n ∧ minInt64 ≤ n ∧ n ≤ maxUInt64 := by
  have hrange : minInt64 ≤ 0 ∧ 0 ≤ maxInt64 ∧ maxInt64 ≤ maxUInt64 := by decide
  constructor
  · intro h
    rcases Option.or_eq_some_iff.1 h with h | ⟨-, h⟩
    · obtain ⟨hn, hmin, hmax⟩ := int64?_eq_some_iff.1 h
      exact ⟨hn, hmin, by omega⟩
    · obtain ⟨hplain, hn, hmax⟩ := uint64?_eq_some_iff.1 h
      obtain ⟨m, rfl, rfl⟩ := signed?_eq_some_iff.1 hn
      have hnonneg := Numeral.value_nonneg hplain
      exact ⟨hn, by omega, hmax⟩
  · rintro ⟨hn, hmin, hmax⟩
    by_cases hsmall : n ≤ maxInt64
    · exact Option.or_eq_some_iff.2 (.inl (int64?_eq_some_iff.2 ⟨hn, hmin, hsmall⟩))
    · have hplain : cs.head? ≠ some '-' := by
        obtain ⟨m, rfl, rfl⟩ := signed?_eq_some_iff.1 hn
        intro hminus
        have hnonpos := Numeral.value_nonpos hminus
        omega
      refine Option.or_eq_some_iff.2 (.inr ⟨?_, uint64?_eq_some_iff.2 ⟨hplain, hn, hmax⟩⟩)
      refine Option.eq_none_iff_forall_ne_some.2 fun other hother => ?_
      obtain ⟨hsame, -, hle⟩ := int64?_eq_some_iff.1 hother
      obtain rfl := Option.some.inj (hn.symm.trans hsame)
      exact hsmall hle

end Text

namespace Coerce

open Text

theorem wholeDigits?_chars (m : Numeral) : wholeDigits? m.chars = some m.whole := by
  unfold wholeDigits? Numeral.chars
  cases m.zeros with
  | none => simp [zeroFraction, cutFirst?_of_not_mem m.not_mem_whole]
  | some n => simp [zeroFraction, cutFirst?_append m.not_mem_whole]

theorem exists_of_wholeDigits? {cs digits : List Char} (h : wholeDigits? cs = some digits) :
    ∃ zeros, cs = digits ++ zeroFraction zeros := by
  unfold wholeDigits? at h
  rcases cutFirst?_cases '.' cs with ⟨hcut, -⟩ | ⟨before, after, hcut, -, rfl⟩
  · rw [hcut] at h
    obtain rfl := Option.some.inj h
    exact ⟨none, (List.append_nil cs).symm⟩
  · simp only [hcut, Option.ite_none_right_eq_some, Option.some.injEq] at h
    obtain ⟨hzeros, rfl⟩ := h
    refine ⟨some after.length, ?_⟩
    have hafter : after = List.replicate after.length '0' :=
      List.eq_replicate_iff.2 ⟨rfl, by simpa using hzeros⟩
    rw [zeroFraction, ← hafter]

theorem integer?_eq_some_iff {s : String} {n : Int} :
    integer? s = some n ↔
      Numeral.Denotes (trimChars s.toList) n ∧ minInt64 ≤ n ∧ n ≤ maxUInt64 := by
  unfold integer?
  rw [Option.bind_eq_some_iff]
  constructor
  · rintro ⟨digits, hdigits, hn⟩
    obtain ⟨hsigned, hmin, hmax⟩ := int64?_or_uint64?.1 hn
    obtain ⟨m, rfl, rfl⟩ := signed?_eq_some_iff.1 hsigned
    obtain ⟨zeros, hzeros⟩ := exists_of_wholeDigits? hdigits
    exact ⟨⟨{ m with zeros }, hzeros.symm, rfl⟩, hmin, hmax⟩
  · rintro ⟨⟨m, hm, rfl⟩, hmin, hmax⟩
    rw [← hm]
    exact ⟨m.whole, wholeDigits?_chars m, int64?_or_uint64?.2 ⟨signed?_whole m, hmin, hmax⟩⟩

end Coerce

end RecordQuery
