import Mathlib.Data.List.DropRight
import RecordQuery.Text.Blank

namespace RecordQuery.Text

structure Bare (cs : List Char) : Prop where
  head : ∀ c, cs.head? = some c → isBlank c = false
  last : ∀ c, cs.getLast? = some c → isBlank c = false

/-- The part of a text within the blanks around it. -/
structure Trimmed (whole part : List Char) : Prop where
  bare : Bare part
  around : ∃ before after, whole = before ++ (part ++ after) ∧
    (∀ c ∈ before, isBlank c = true) ∧ ∀ c ∈ after, isBlank c = true

variable {whole part : List Char}

theorem dropWhile_of_head {p : Char → Bool} {cs : List Char}
    (h : ∀ c, cs.head? = some c → p c = false) : cs.dropWhile p = cs := by
  cases cs with
  | nil => rfl
  | cons c cs => simp [h c rfl]

theorem Bare.trimChars (h : Bare part) : trimChars part = part := by
  have hlast : ∀ c, part.reverse.head? = some c → isBlank c = false := by
    intro c hc
    exact h.last c (by rwa [List.head?_reverse] at hc)
  rw [Text.trimChars, dropWhile_of_head h.head, dropWhile_of_head hlast, List.reverse_reverse]

theorem Trimmed.trimChars (h : Trimmed whole part) : trimChars whole = part := by
  obtain ⟨before, after, rfl, hbefore, hafter⟩ := h.around
  rw [Text.trimChars, List.dropWhile_append_of_pos hbefore]
  cases part with
  | nil =>
    have hempty : after.dropWhile isBlank = [] := List.dropWhile_eq_nil_iff.2 hafter
    rw [List.nil_append, hempty]
    rfl
  | cons c part =>
    have hhead : ∀ d, (c :: part ++ after).head? = some d → isBlank d = false := h.bare.head
    have hreverse : ∀ d ∈ after.reverse, isBlank d = true := by simpa using hafter
    have hpart := h.bare.trimChars
    rw [Text.trimChars, dropWhile_of_head h.bare.head] at hpart
    rw [dropWhile_of_head hhead, List.reverse_append, List.dropWhile_append_of_pos hreverse]
    exact hpart

theorem isBlank_of_dropWhile {c : Char} (h : (whole.dropWhile isBlank).head? = some c) :
    isBlank c = false := by
  simpa [h] using List.head?_dropWhile_not isBlank whole

theorem trimmed_trimChars (whole : List Char) : Trimmed whole (trimChars whole) := by
  have hrest := List.rdropWhile_append_rtakeWhile (p := isBlank) (l := whole.dropWhile isBlank)
  have htrim : trimChars whole = (whole.dropWhile isBlank).rdropWhile isBlank := rfl
  refine ⟨⟨fun c hc => ?_, fun c hc => ?_⟩, whole.takeWhile isBlank,
    (whole.dropWhile isBlank).rtakeWhile isBlank, ?_, fun c hc => List.mem_takeWhile_imp hc,
    fun c hc => List.mem_rtakeWhile_imp hc⟩
  · apply isBlank_of_dropWhile (?_ : (whole.dropWhile isBlank).head? = some c)
    rw [← hrest, List.head?_append]
    exact Option.or_eq_some_iff.2 (.inl hc)
  · rw [trimChars, List.getLast?_reverse] at hc
    exact isBlank_of_dropWhile hc
  · rw [htrim, hrest, List.takeWhile_append_dropWhile]

theorem trimmed_iff : Trimmed whole part ↔ trimChars whole = part := by
  constructor
  · exact Trimmed.trimChars
  · rintro rfl
    exact trimmed_trimChars whole

end RecordQuery.Text
