import RecordQuery.Text.Split

namespace RecordQuery.Text

variable {sep : Char}

theorem not_mem_of_mem_splitOn {cs piece : List Char} (h : piece ∈ cs.splitOn sep) :
    sep ∉ piece := by
  induction cs generalizing piece with
  | nil =>
    rw [List.splitOn_nil] at h
    rw [List.mem_singleton.1 h]
    exact List.not_mem_nil
  | cons c cs ih =>
    obtain ⟨first, more, hsplit⟩ := List.exists_cons_of_ne_nil (List.splitOn_ne_nil sep cs)
    rw [List.splitOn_cons_eq_if_modifyHead] at h
    split at h
    · rcases List.mem_cons.1 h with rfl | h
      · exact List.not_mem_nil
      · exact ih h
    · next hc =>
      rw [hsplit, List.modifyHead_cons] at h
      rcases List.mem_cons.1 h with rfl | h
      · have hfirst : sep ∉ first := ih (hsplit ▸ List.mem_cons_self)
        simpa using ⟨fun heq => hc (beq_iff_eq.2 heq.symm), hfirst⟩
      · exact ih (hsplit ▸ List.mem_cons_of_mem first h)

theorem split_intercalate {separator : String} {parts : List String}
    (hsep : separator.toList = [sep]) (hne : parts ≠ [])
    (h : ∀ part ∈ parts, sep ∉ part.toList) : split sep (separator.intercalate parts) = parts := by
  have hparts : ∀ cs ∈ parts.map String.toList, sep ∉ cs := by simpa using h
  have hne : parts.map String.toList ≠ [] := by simpa using hne
  rw [split, String.toList_intercalate, hsep, List.splitOn_intercalate sep hparts hne]
  simp

end RecordQuery.Text
