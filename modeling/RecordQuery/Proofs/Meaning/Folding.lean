import Mathlib.Data.List.Flatten
import Mathlib.Data.List.Infix
import RecordQuery.Proofs.Meaning.Engine

namespace RecordQuery

open Reading (Plain)

namespace Text

def folded (text : String) : List Char := text.toList.map Char.toLower

/-- Letters outside of ASCII are their own upper case. -/
def Settled (text : String) : Prop := ∀ c ∈ text.toList, 128 ≤ c.toNat → upperChar c = [c]

theorem toLower_of_le {c : Char} (h : 128 ≤ c.toNat) : c.toLower = c := by
  have hcase : ¬ ('A'.val ≤ c.val ∧ c.val ≤ 'Z'.val) :=
    fun hupper => absurd (h.trans (UInt32.le_iff_toNat_le.1 hupper.2)) (by decide)
  exact dif_neg hcase

theorem toUpper_of_le {c : Char} (h : 128 ≤ c.toNat) : c.toUpper = c := by
  have hcase : ¬ ('a'.val ≤ c.val ∧ c.val ≤ 'z'.val) :=
    fun hlower => absurd (h.trans (UInt32.le_iff_toNat_le.1 hlower.2)) (by decide)
  exact dif_neg hcase

@[simp] theorem toLower_toUpper (c : Char) : c.toUpper.toLower = c.toLower := by
  have hascii : ∀ n < 128, (Char.ofNat n).toUpper.toLower = (Char.ofNat n).toLower := by
    decide +kernel
  rcases Nat.lt_or_ge c.toNat 128 with h | h
  · have hc := hascii c.toNat h
    rwa [Char.ofNat_toNat] at hc
  · rw [toUpper_of_le h]

theorem le_of_toLower {c : Char} (h : 128 ≤ c.toLower.toNat) : 128 ≤ c.toNat := by
  have hall : ∀ n < 128, (Char.ofNat n).toLower.toNat < 128 := by decide +kernel
  by_contra hlt
  have hc := hall c.toNat (Nat.lt_of_not_le hlt)
  rw [Char.ofNat_toNat] at hc
  exact absurd h (Nat.not_le_of_lt hc)

theorem upperChar_ne_nil (c : Char) : upperChar c ≠ [] := by
  have hcodes : ∀ entry ∈ upperSequences, entry.2 ≠ [] := by decide
  unfold upperChar
  split
  · simp
  · split
    · next hfound => simpa using hcodes _ (List.mem_of_find?_eq_some hfound)
    · split <;> simp

theorem map_toLower_upperChar {c : Char} :
    (upperChar c).map Char.toLower = [c.toLower] ↔ (128 ≤ c.toNat → upperChar c = [c]) := by
  by_cases h : 128 ≤ c.toNat
  · simp only [h, true_implies, toLower_of_le h]
    constructor
    · intro heq
      obtain ⟨d, hd, hlower⟩ := List.map_eq_singleton_iff.1 heq
      have hle : 128 ≤ d.toNat := le_of_toLower (hlower ▸ h)
      rw [toLower_of_le hle] at hlower
      rw [hd, hlower]
    · intro heq
      rw [heq, List.map_singleton, toLower_of_le h]
  · have hascii : upperChar c = [c.toUpper] := by
      rw [upperChar, if_pos (Nat.lt_of_not_le h)]
    simp [h, hascii]

theorem length_le_flatMap {α β : Type} {f : α → List β} (h : ∀ x, f x ≠ []) (l : List α) :
    l.length ≤ (l.flatMap f).length := by
  induction l with
  | nil => simp
  | cons x l ih =>
    have hx := List.length_pos_iff.2 (h x)
    rw [List.flatMap_cons, List.length_append, List.length_cons]
    omega

theorem flatMap_eq_map_iff {α β : Type} {f : α → List β} (h : ∀ x, f x ≠ []) (g : α → β)
    (l : List α) : l.flatMap f = l.map g ↔ ∀ x ∈ l, f x = [g x] := by
  constructor
  · intro heq
    induction l with
    | nil => simp
    | cons x l ih =>
      rw [List.flatMap_cons, List.map_cons] at heq
      obtain ⟨y, ys, hx⟩ := List.exists_cons_of_ne_nil (h x)
      have hlength := congrArg List.length heq
      have hle := length_le_flatMap h l
      simp only [hx, List.length_append, List.length_cons, List.length_map] at hlength
      have hys : ys = [] := List.eq_nil_of_length_eq_zero (by omega)
      rw [hx, hys, List.singleton_append, List.cons_eq_cons] at heq
      rw [List.forall_mem_cons]
      exact ⟨by rw [hx, hys, heq.1], ih heq.2⟩
  · intro heach
    rw [List.flatMap_congr heach, List.map_eq_flatMap]

theorem folded_upper (text : String) :
    folded (upper text) = text.toList.flatMap fun c => (upperChar c).map Char.toLower := by
  simp [folded, upper, List.map_flatMap]

theorem map_upperChar_ne_nil (c : Char) : (upperChar c).map Char.toLower ≠ [] :=
  List.map_eq_nil_iff.not.2 (upperChar_ne_nil c)

theorem folded_upper_eq_iff {text : String} :
    folded (upper text) = folded text ↔ Settled text := by
  rw [folded_upper, folded, flatMap_eq_map_iff map_upperChar_ne_nil]
  simp only [map_toLower_upperChar, Settled]

theorem folded_upper_infix_iff {text : String} :
    folded (upper text) <:+: folded text ↔ Settled text := by
  rw [← folded_upper_eq_iff]
  constructor
  · intro h
    refine h.eq_of_length (h.length_le.antisymm ?_)
    rw [folded_upper, folded, List.length_map]
    exact length_le_flatMap map_upperChar_ne_nil _
  · intro h
    rw [h]

theorem folded_upper_prefix_iff {text : String} :
    folded (upper text) <+: folded text ↔ Settled text := by
  constructor
  · intro h
    exact folded_upper_infix_iff.1 h.isInfix
  · intro h
    rw [folded_upper_eq_iff.2 h]

end Text

namespace Engine

/-- UPPER takes the small letters of ASCII to capitals and LIKE does not tell them apart; both
leave all other characters as they are. -/
structure FoldsAscii (e : Engine) : Prop where
  upper : ∀ s, e.call "UPPER" (.text s) = .text (s.map Char.toUpper)
  fold : e.fold = Char.toLower

theorem foldsAscii_store : store.FoldsAscii := ⟨fun _ => rfl, rfl⟩

end Engine

open Text (folded Settled)

variable {e : Engine} {row : String → Value} {column t : String}

theorem patterned_reads (he : e.FoldsAscii) (hcolumn : Plain column) (ht : row column = .text t)
    {pattern : List Char} {b : Bool}
    (hb : Like.like? Char.toLower '*' pattern (t.toList.map Char.toUpper) = some b) :
    (Condition.raw ("UPPER(" ++ column ++ ")" ++ " LIKE ? ESCAPE '*'")
      [.text (String.ofList pattern)]).fragment.Reads (e.judge row) (.ofBool b) := by
  have hmeans := Condition.Means.upperPattern (v := e.judge row)
    (p := .text (String.ofList pattern)) hcolumn
  have hjudge : e.judge row (.pattern (.call "UPPER" column)
      (.value (Condition.bound (.text (String.ofList pattern)))) "*") = .ofBool b := by
    have hesc : "*".toList = ['*'] := rfl
    simp only [Engine.judge, hesc, Engine.value, ht, he.upper]
    simp [Condition.bound, Value.isComposite, Engine.matched, Engine.text, he.fold, hb]
  rw [hjudge] at hmeans
  exact hmeans.rendered

theorem folded_capitals (t : String) :
    (t.toList.map Char.toUpper).map Char.toLower = folded t := by
  simp [folded]

theorem containing_reads (he : e.FoldsAscii) (hcolumn : Plain column) (ht : row column = .text t)
    (s : String) :
    (Condition.raw ("UPPER(" ++ column ++ ")" ++ " LIKE ? ESCAPE '*'")
      [.text (String.ofList (Like.containing s.toList))]).fragment.Reads (e.judge row)
        (.ofBool (decide (folded s <:+: folded t))) := by
  apply patterned_reads he hcolumn ht
  rw [← folded_capitals t]
  exact Like.like?_containing s.toList _

theorem starting_reads (he : e.FoldsAscii) (hcolumn : Plain column) (ht : row column = .text t)
    (s : String) :
    (Condition.raw ("UPPER(" ++ column ++ ")" ++ " LIKE ? ESCAPE '*'")
      [.text (String.ofList (Like.starting s.toList))]).fragment.Reads (e.judge row)
        (.ofBool (decide (folded s <+: folded t))) := by
  apply patterned_reads he hcolumn ht
  rw [← folded_capitals t]
  exact Like.like?_starting s.toList _

theorem reads_yes_iff {φ : Fragment} {v : Atom → Truth} {p : Prop} [Decidable p]
    (h : φ.Reads v (.ofBool (decide p))) : φ.Reads v .yes ↔ p := by
  rw [← decide_eq_true_iff (p := p), ← Truth.ofBool_eq_yes]
  exact ⟨fun hyes => h.unique hyes, fun hp => hp ▸ h⟩

/-- The condition of ILIKE is true of the texts in which the upper case of the searched one stands,
up to the case of ASCII letters, and the one of ILIKE_START where it stands at the start. They find
all texts in which the searched one stands as it is if and only if upper-casing leaves the letters
of it outside of ASCII as they are. -/
theorem ilike_answered (he : e.FoldsAscii) (hcolumn : Plain column) (s parameter : String) :
    ∃ anywhere start : Condition,
      Operator.ilike.predicate column (.text s) parameter = .ok (.combined anywhere) ∧
      Operator.ilikeStart.predicate column (.text s) parameter = .ok (.combined start) ∧
      (∀ row t, row column = .text t →
        anywhere.fragment.Reads (e.judge row)
          (.ofBool (decide (folded (Text.upper s) <:+: folded t))) ∧
        start.fragment.Reads (e.judge row)
          (.ofBool (decide (folded (Text.upper s) <+: folded t)))) ∧
      ((∀ row t, row column = .text t → s.toList <:+: t.toList →
        anywhere.fragment.Reads (e.judge row) .yes) ↔ Settled s) ∧
      ((∀ row t, row column = .text t → s.toList <+: t.toList →
        start.fragment.Reads (e.judge row) .yes) ↔ Settled s) := by
  obtain ⟨row, hself⟩ : ∃ row : String → Value, row column = .text s := ⟨fun _ => .text s, rfl⟩
  refine ⟨_, _, rfl, rfl, fun row t ht => ?_, ⟨fun h => ?_, fun h row t ht hs => ?_⟩,
    ⟨fun h => ?_, fun h row t ht hs => ?_⟩⟩
  · exact ⟨containing_reads he hcolumn ht _, starting_reads he hcolumn ht _⟩
  · have hyes := h row s hself List.infix_rfl
    rw [reads_yes_iff (containing_reads he hcolumn hself _)] at hyes
    exact Text.folded_upper_infix_iff.1 hyes
  · rw [reads_yes_iff (containing_reads he hcolumn ht _), Text.folded_upper_eq_iff.2 h]
    exact hs.map Char.toLower
  · have hyes := h row s hself List.prefix_rfl
    rw [reads_yes_iff (starting_reads he hcolumn hself _)] at hyes
    exact Text.folded_upper_prefix_iff.1 hyes
  · rw [reads_yes_iff (starting_reads he hcolumn ht _), Text.folded_upper_eq_iff.2 h]
    exact hs.map Char.toLower

theorem ilike_answered_accent :
    Engine.store.FoldsAscii ∧ Plain "post_1.title" ∧ ∃ anywhere start : Condition,
      Operator.ilike.predicate "post_1.title" (.text "é") "title" = .ok (.combined anywhere) ∧
      Operator.ilikeStart.predicate "post_1.title" (.text "é") "title" = .ok (.combined start) ∧
      anywhere.fragment.Reads (Engine.store.judge fun _ => .text "é") .no ∧
      start.fragment.Reads (Engine.store.judge fun _ => .text "é") .no ∧ ¬ Settled "é" := by
  have htitle : Plain "post_1.title" := ⟨by simp [Reading.isWord], by decide, by decide⟩
  obtain ⟨c, d, hc, hd, hreads, hfinds, -⟩ :=
    ilike_answered Engine.foldsAscii_store htitle "é" "title"
  have hsettled : ¬ Settled "é" := by
    intro h
    have hupper := h 'é' (by decide) (by decide)
    revert hupper
    decide
  have hinfix : ¬ folded (Text.upper "é") <:+: folded "é" :=
    fun h => hsettled (Text.folded_upper_infix_iff.1 h)
  have hprefix : ¬ folded (Text.upper "é") <+: folded "é" := fun h => hinfix h.isInfix
  have htruth := hreads (fun _ => .text "é") "é" rfl
  rw [decide_eq_false hinfix, decide_eq_false hprefix] at htruth
  exact ⟨Engine.foldsAscii_store, htitle, c, d, hc, hd, htruth.1, htruth.2, hsettled⟩

end RecordQuery
