import Mathlib.Algebra.Group.Int.Defs
import RecordQuery.Proofs.Text.Numeral

namespace RecordQuery

namespace SqlType

theorem isInteger_of_mem {τ : SqlType} (h : τ ∈ [bigInt, integer, smallInt]) :
    τ.isInteger = true := by
  revert τ
  decide

end SqlType

namespace Value

variable {τ : SqlType}

theorem coerce_text (h : τ.isInteger = true) (s : String) :
    (text s).coerce τ = ((Coerce.integer? s).map int).getD (text s) := by
  simp [coerce, h]

theorem coerce_of_not_text (h : τ.isInteger = true) {v : Value} (hv : ∀ s, v ≠ text s) :
    v.coerce τ = v := by
  cases v with
  | text s => exact absurd rfl (hv s)
  | _ => simp [coerce, h]

theorem coerce_text_eq_int_iff (h : τ.isInteger = true) {s : String} {n : Int} :
    (text s).coerce τ = int n ↔ Coerce.integer? s = some n := by
  rw [coerce_text h]
  cases Coerce.integer? s <;> simp

theorem coerce_text_of_none (h : τ.isInteger = true) {s : String}
    (hs : Coerce.integer? s = none) : (text s).coerce τ = text s := by
  rw [coerce_text h, hs]
  rfl

theorem coerce_cases (τ : SqlType) (v : Value) :
    v.coerce τ = v ∨ (τ.isInteger = true ∧ ∃ n, v.coerce τ = int n) ∨
      (τ = .boolean ∧ ∃ b, v.coerce τ = bool b) := by
  cases hτ : τ.isInteger with
  | true =>
    cases v with
    | text s =>
      rw [coerce_text hτ]
      cases Coerce.integer? s with
      | none => exact .inl rfl
      | some n => exact .inr (.inl ⟨rfl, n, rfl⟩)
    | _ => exact .inl (coerce_of_not_text hτ (by simp))
  | false =>
    by_cases hboolean : τ = .boolean
    · subst hboolean
      cases v with
      | int n => exact .inr (.inr ⟨rfl, _, rfl⟩)
      | float x => exact .inr (.inr ⟨rfl, _, rfl⟩)
      | text s =>
        cases hs : Coerce.boolean? s with
        | none => exact .inl (by simp [coerce, hs, SqlType.isInteger])
        | some b => exact .inr (.inr ⟨rfl, b, by simp [coerce, hs, SqlType.isInteger]⟩)
      | _ => exact .inl rfl
    · exact .inl (by simp [coerce, hτ, hboolean])

theorem coerce_idempotent (τ : SqlType) (v : Value) : (v.coerce τ).coerce τ = v.coerce τ := by
  rcases coerce_cases τ v with h | ⟨hτ, n, h⟩ | ⟨rfl, b, h⟩
  · rw [h, h]
  · rw [h, coerce_of_not_text hτ (by simp)]
  · rw [h]
    rfl

end Value

open Text

/-- Under an integer type a text becomes the integer that it denotes, less the blanks around it,
if this fits 64 bits with a sign or without; any other text stays, its blanks with it. So what an
integer is written as becomes the integer. Nothing but texts is changed, and under any type no value
is changed twice. -/
theorem numerals_coerced :
    (∀ τ ∈ [SqlType.bigInt, .integer, .smallInt],
      (∀ s : String, ∃ t, Trimmed s.toList t ∧
        (∀ n, (Value.text s).coerce τ = .int n ↔
          Numeral.Denotes t n ∧ -2 ^ 63 ≤ n ∧ n ≤ 2 ^ 64 - 1) ∧
        ((¬ ∃ n, Numeral.Denotes t n ∧ -2 ^ 63 ≤ n ∧ n ≤ 2 ^ 64 - 1) →
          (Value.text s).coerce τ = .text s)) ∧
      (∀ n : Int, -2 ^ 63 ≤ n → n ≤ 2 ^ 64 - 1 → (Value.text (toString n)).coerce τ = .int n) ∧
      ∀ v : Value, (∀ s, v ≠ .text s) → v.coerce τ = v) ∧
    ∀ (τ : SqlType) (v : Value), (v.coerce τ).coerce τ = v.coerce τ := by
  have hmin : minInt64 = -2 ^ 63 := by decide
  have hmax : maxUInt64 = 2 ^ 64 - 1 := by decide
  refine ⟨fun τ hτ => ?_, Value.coerce_idempotent⟩
  have hτ := SqlType.isInteger_of_mem hτ
  have hread (s : String) (n : Int) : (Value.text s).coerce τ = .int n ↔
      Numeral.Denotes (trimChars s.toList) n ∧ -2 ^ 63 ≤ n ∧ n ≤ 2 ^ 64 - 1 := by
    rw [Value.coerce_text_eq_int_iff hτ, Coerce.integer?_eq_some_iff, hmin, hmax]
  refine ⟨fun s => ⟨trimChars s.toList, trimmed_iff.2 rfl, hread s, fun hnone => ?_⟩,
    fun n hlow hhigh => ?_, fun v => Value.coerce_of_not_text hτ⟩
  · refine Value.coerce_text_of_none hτ (Option.eq_none_iff_forall_ne_some.2 fun n hn => hnone ?_)
    exact ⟨n, (hread s n).1 ((Value.coerce_text_eq_int_iff hτ).2 hn)⟩
  · refine (hread _ n).2 ⟨⟨.ofInt n, ?_, Numeral.value_ofInt n⟩, hlow, hhigh⟩
    rw [← Numeral.chars_ofInt, (Numeral.bare_chars _).trimChars]

theorem numerals_coerced_widest :
    (Value.text "\t+18446744073709551615.00 ").coerce .bigInt = .int 18446744073709551615 ∧
    (Value.text "-9223372036854775808").coerce .smallInt = .int (-9223372036854775808) ∧
    (Value.text " 18446744073709551616").coerce .integer = .text " 18446744073709551616" ∧
    (Value.bool true).coerce .integer = .bool true ∧
    ((Value.text "7.0").coerce .integer).coerce .integer = (Value.text "7.0").coerce .integer := by
  obtain ⟨hinteger, htwice⟩ := numerals_coerced
  refine ⟨?_, ?_, ?_, (hinteger .integer (by decide)).2.2 _ (by simp), htwice _ _⟩
  · obtain ⟨t, ht, hread, -⟩ := (hinteger .bigInt (by decide)).1 "\t+18446744073709551615.00 "
    have htext : "+18446744073709551615.00".toList = t := by
      rw [← trimmed_iff.1 ht]
      decide +kernel
    refine (hread _).2 ⟨⟨{ Numeral.ofInt 18446744073709551615 with sign := .plus, zeros := some 2 },
      ?_, by decide +kernel⟩, by decide, by decide⟩
    rw [← htext]
    decide +kernel
  · have hshown : "-9223372036854775808" = toString (-9223372036854775808 : Int) := by
      decide +kernel
    rw [hshown]
    exact (hinteger .smallInt (by decide)).2.1 _ (by decide) (by decide)
  · obtain ⟨t, ht, -, hkept⟩ := (hinteger .integer (by decide)).1 " 18446744073709551616"
    refine hkept fun ⟨n, hn⟩ => ?_
    rw [← trimmed_iff.1 ht] at hn
    have hnone : Coerce.integer? " 18446744073709551616" = none := by decide +kernel
    rw [Coerce.integer?_eq_some_iff.2 hn] at hnone
    cases hnone

end RecordQuery
