import Mathlib.Data.List.Infix
import RecordQuery.Operator

namespace RecordQuery.Like

inductive Part
  | sequence
  | single
  | literal (c : Char)
  deriving DecidableEq

def Part.ofChar (c : Char) : Part :=
  if c = '%' then .sequence else if c = '_' then .single else .literal c

/-- The parts of a pattern; none if its last character is an escape without what it escapes. -/
def parts? (esc : Char) : List Char → Option (List Part)
  | [] => some []
  | c :: rest =>
    if c = esc then
      match rest with
      | [] => none
      | d :: rest => (parts? esc rest).map (.literal d :: ·)
    else (parts? esc rest).map (.ofChar c :: ·)

def accepts (fold : Char → Char) : List Part → List Char → Bool
  | [], text => text.isEmpty
  | .sequence :: parts, text => text.tails.any (accepts fold parts)
  | .single :: parts, _ :: text => accepts fold parts text
  | .literal c :: parts, d :: text => fold c == fold d && accepts fold parts text
  | _, _ => false

def like? (fold : Char → Char) (esc : Char) (pattern text : List Char) : Option Bool :=
  (parts? esc pattern).map (accepts fold · text)

def WellFormed (esc : Char) (pattern : List Char) : Prop := (parts? esc pattern).isSome = true

def Matches (fold : Char → Char) (esc : Char) (pattern text : List Char) : Prop :=
  like? fold esc pattern text = some true

instance (fold : Char → Char) (esc : Char) (pattern text : List Char) :
    Decidable (Matches fold esc pattern text) :=
  inferInstanceAs (Decidable (_ = _))

variable {fold : Char → Char}

theorem ofChar_of_not_special {c : Char} (h : isSpecial c = false) :
    Part.ofChar c = .literal c := by
  simp only [isSpecial, Bool.or_eq_false_iff, beq_eq_false_iff_ne] at h
  simp [Part.ofChar, h.1.1, h.1.2]

theorem parts?_escaped (esc d : Char) (rest : List Char) :
    parts? esc (esc :: d :: rest) = (parts? esc rest).map (.literal d :: ·) := by
  simp [parts?]

theorem parts?_cons {esc c : Char} (h : c ≠ esc) (rest : List Char) :
    parts? esc (c :: rest) = (parts? esc rest).map (.ofChar c :: ·) := by
  rw [parts?.eq_def]
  simp [h]

theorem parts?_escape_append (s p : List Char) :
    parts? escapeChar (escape s ++ p) = (parts? escapeChar p).map (s.map Part.literal ++ ·) := by
  induction s with
  | nil => simp [escape]
  | cons c s ih =>
    cases hc : isSpecial c with
    | true => simp [escape, hc, parts?_escaped, ih, Function.comp_def]
    | false =>
      have hne : c ≠ escapeChar := by
        rintro rfl
        cases hc
      simp [escape, hc, parts?_cons hne, ofChar_of_not_special hc, ih, Function.comp_def]

theorem parts?_starting (s : List Char) :
    parts? escapeChar (starting s) = some (s.map Part.literal ++ [.sequence]) := by
  rw [starting, parts?_escape_append]
  rfl

theorem parts?_containing (s : List Char) :
    parts? escapeChar (containing s) = some (.sequence :: (s.map Part.literal ++ [.sequence])) := by
  have hs : parts? escapeChar (escape s ++ ['%']) = _ := parts?_starting s
  rw [containing, parts?_cons (by decide), hs]
  rfl

theorem accepts_sequence {parts : List Part} {t : List Char} :
    accepts fold (.sequence :: parts) t = true ↔ ∃ u, u <:+ t ∧ accepts fold parts u = true := by
  simp [accepts]

theorem accepts_sequence_nil (t : List Char) : accepts fold [.sequence] t = true :=
  accepts_sequence.2 ⟨[], List.nil_suffix, rfl⟩

theorem accepts_literals {s : List Char} {parts : List Part} {t : List Char} :
    accepts fold (s.map Part.literal ++ parts) t = true ↔
      ∃ u v, t = u ++ v ∧ u.map fold = s.map fold ∧ accepts fold parts v = true := by
  induction s generalizing t with
  | nil => simp
  | cons c s ih =>
    cases t with
    | nil => simp [accepts]
    | cons d t =>
      simp only [List.map_cons, List.cons_append, accepts, Bool.and_eq_true, beq_iff_eq, ih]
      constructor
      · rintro ⟨hd, u, v, rfl, hu, hv⟩
        exact ⟨d :: u, v, rfl, by simp [hd, hu], hv⟩
      · rintro ⟨u, v, ht, hu, hv⟩
        cases u with
        | nil => cases hu
        | cons e u =>
          obtain ⟨rfl, rfl⟩ := List.cons_eq_cons.1 ht
          obtain ⟨hd, hu⟩ := List.cons_eq_cons.1 hu
          exact ⟨hd.symm, u, v, rfl, hu, hv⟩

theorem accepts_starting {s t : List Char} :
    accepts fold (s.map Part.literal ++ [.sequence]) t = true ↔ s.map fold <+: t.map fold := by
  rw [accepts_literals]
  constructor
  · rintro ⟨u, v, rfl, hu, -⟩
    rw [List.map_append, hu]
    exact List.prefix_append _ _
  · rintro ⟨w, hw⟩
    obtain ⟨u, v, rfl, hu, -⟩ := List.map_eq_append_iff.1 hw.symm
    exact ⟨u, v, rfl, hu, accepts_sequence_nil v⟩

theorem accepts_containing {s t : List Char} :
    accepts fold (.sequence :: (s.map Part.literal ++ [.sequence])) t = true ↔
      s.map fold <:+: t.map fold := by
  rw [accepts_sequence]
  constructor
  · rintro ⟨u, hu, hs⟩
    exact (accepts_starting.1 hs).isInfix.trans (hu.map fold).isInfix
  · intro h
    obtain ⟨u, hs, hu⟩ := List.infix_iff_prefix_suffix.1 h
    obtain ⟨v, hv, rfl⟩ := List.suffix_map_iff.1 hu
    exact ⟨v, hv, accepts_starting.2 hs⟩

theorem like?_starting (s t : List Char) :
    like? fold escapeChar (starting s) t = some (decide (s.map fold <+: t.map fold)) := by
  rw [like?, parts?_starting, Option.map_some, Option.some_inj, Bool.eq_iff_iff, accepts_starting,
    decide_eq_true_iff]

theorem like?_containing (s t : List Char) :
    like? fold escapeChar (containing s) t = some (decide (s.map fold <:+: t.map fold)) := by
  rw [like?, parts?_containing, Option.map_some, Option.some_inj, Bool.eq_iff_iff,
    accepts_containing, decide_eq_true_iff]

theorem matches_starting {s t : List Char} :
    Matches fold escapeChar (starting s) t ↔ s.map fold <+: t.map fold := by
  simp [Matches, like?_starting]

theorem matches_containing {s t : List Char} :
    Matches fold escapeChar (containing s) t ↔ s.map fold <:+: t.map fold := by
  simp [Matches, like?_containing]

theorem wellFormed_starting (s : List Char) : WellFormed escapeChar (starting s) := by
  rw [WellFormed, parts?_starting]
  rfl

theorem wellFormed_containing (s : List Char) : WellFormed escapeChar (containing s) := by
  rw [WellFormed, parts?_containing]
  rfl

end RecordQuery.Like

namespace RecordQuery

open Like

/-- The pattern of LIKE finds the text wherever it stands, and nothing else, whatever wildcards and
escape characters the text has; the one of ILIKE_START finds its upper case at the start. -/
theorem patterns_match_literally (column parameter s : String) :
    (∃ p : String,
      Operator.like.predicate column (.text s) parameter
        = .ok (.combined (.raw (column ++ " LIKE ? ESCAPE '*'") [.text p])) ∧
      WellFormed '*' p.toList ∧
      ∀ t : String, Matches id '*' p.toList t.toList ↔ s.toList <:+: t.toList) ∧
    ∃ p : String,
      Operator.ilikeStart.predicate column (.text s) parameter
        = .ok (.combined (.raw ("UPPER(" ++ column ++ ")" ++ " LIKE ? ESCAPE '*'") [.text p])) ∧
      WellFormed '*' p.toList ∧
      ∀ t : String, Matches id '*' p.toList t.toList ↔ (Text.upper s).toList <+: t.toList := by
  constructor
  · refine ⟨String.ofList (containing s.toList), rfl, ?_, fun t => ?_⟩
    · rw [String.toList_ofList]
      exact wellFormed_containing s.toList
    · rw [String.toList_ofList]
      have h := @matches_containing id s.toList t.toList
      rwa [List.map_id, List.map_id] at h
  · refine ⟨String.ofList (starting (Text.upper s).toList), rfl, ?_, fun t => ?_⟩
    · rw [String.toList_ofList]
      exact wellFormed_starting (Text.upper s).toList
    · rw [String.toList_ofList]
      have h := @matches_starting id (Text.upper s).toList t.toList
      rwa [List.map_id, List.map_id] at h

example : Matches id '*' "%50*%*_off**%".toList "at 50%_off*!".toList := by cbv

end RecordQuery
