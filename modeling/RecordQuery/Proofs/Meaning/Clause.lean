import RecordQuery.Proofs.Meaning.Rendering
import RecordQuery.Proofs.Placeholders

namespace RecordQuery

open Reading
open Token (text Closed closed_text)

variable {v : Atom → Truth} {c : Condition} {t : Truth}

theorem Reading.Plain.closed {s : String} (h : Plain s) : Closed (text s) :=
  closed_text h.unmarked

namespace Condition

def compareTruth (v : Atom → Truth) (column : String) (op : Comparison) (value : Option Value) :
    Truth :=
  match op with
  | .isNull | .isNotNull => v (.test (.column column) op [])
  | .isIn | .notIn =>
    match members value with
    | [] => .ofBool (op = .notIn)
    | items => v (.test (.column column) op (items.map fun x => .value (bound x)))
  | _ =>
    match value with
    | none | some .null => v (.test (.column column) op [.null])
    | some x => v (.test (.column column) op [.value (bound x)])

/-- The truth of a tree over plain columns, given that of its predicates. -/
inductive Means (v : Atom → Truth) : Condition → Truth → Prop
  | compare {column op value} : Plain column →
    Means v (.compare column op value) (compareTruth v column op value)
  | group {op conditions} {t : Condition → Truth} : (∀ c ∈ conditions, Means v c (t c)) →
    Means v (.group op conditions) (op.truth (conditions.map t))
  | constant {b} : Means v (.constant b) (.ofBool b)
  | columnsEq {left right} : Plain left → Plain right →
    Means v (.columnsEq left right) (v (.test (.column left) .eq [.column right]))
  | pattern {column p} : Plain column →
    Means v (.raw (column ++ " LIKE ? ESCAPE '*'") [p])
      (v (.pattern (.column column) (.value (bound p)) "*"))
  | upperPattern {column p} : Plain column →
    Means v (.raw ("UPPER(" ++ column ++ ")" ++ " LIKE ? ESCAPE '*'") [p])
      (v (.pattern (.call "UPPER" column) (.value (bound p)) "*"))
  | range {column low high} : Plain column →
    Means v (.raw (column ++ " BETWEEN ? AND ?") [low, high])
      (v (.range (.column column) (.value (bound low)) (.value (bound high))))

theorem Means.over {c : Condition} {t : Truth} (h : c.Means v t) : c.Over Plain := by
  induction h with
  | compare hx => exact .compare hx
  | group _ ih => exact .group ih
  | constant => exact .constant
  | columnsEq hl hr => exact .columnsEq hl hr
  | pattern hx => exact .pattern hx
  | upperPattern hx => exact .upperPattern hx
  | range hx => exact .range hx

theorem reads_membership {column : String} (h : Plain column) {op : Comparison}
    (hop : op = .isIn ∨ op = .notIn) {items : List Value} (hne : items ≠ []) :
    Reads v (text (column ++ " " ++ op.sql ++ " (")
        ++ (text ", ").intercalate (items.map fun x => [.slot (bound x)]) ++ text ")")
      (v (.test (.column column) op (items.map fun x => .value (bound x)))) := by
  have hbound : items.map bound ≠ [] := List.map_eq_nil_iff.not.2 hne
  have hm := reads_members (v := v) h hop hbound
  rw [List.map_map, List.map_map] at hm
  exact hm

theorem reads_compare {column : String} (h : Plain column) (op : Comparison)
    (value : Option Value) :
    Reads v (compareTokens column op value) (compareTruth v column op value) := by
  unfold compareTokens compareTruth
  cases op
  case isNull => exact reads_null h (.inl rfl)
  case isNotNull => exact reads_null h (.inr rfl)
  case isIn =>
    cases members value with
    | nil => exact reads_constant _
    | cons x items => exact reads_membership h (.inl rfl) (List.cons_ne_nil x items)
  case notIn =>
    cases members value with
    | nil => exact reads_constant _
    | cons x items => exact reads_membership h (.inr rfl) (List.cons_ne_nil x items)
  all_goals
    cases value with
    | none => exact reads_nothing h (by decide)
    | some x =>
      cases x with
      | null => exact reads_nothing h (by decide)
      | _ => exact reads_slot h (by decide) _

theorem tokensOf_eq (conditions : List Condition) :
    tokensOf conditions = conditions.map tokens := by
  induction conditions with
  | nil => rfl
  | cons c conditions ih => rw [tokensOf, ih, List.map_cons]

theorem Means.reads (h : c.Means v t) : Reads v c.tokens t := by
  induction h with
  | compare hx =>
    rw [tokens]
    exact reads_compare hx _ _
  | @group op conditions t _ ih =>
    cases conditions with
    | nil => exact reads_constant true
    | cons c rest =>
      rw [tokens, tokensOf_eq, ← List.map_cons]
      apply reads_group op _ (by simp)
      rw [List.forall₂_map_left_iff, List.forall₂_map_right_iff, List.forall₂_same]
      exact ih
  | constant =>
    rw [tokens]
    exact reads_constant _
  | columnsEq hl hr =>
    rw [(aligned_columnsEq hl.closed hr.closed).2]
    exact reads_columnsEq hl hr
  | pattern hx =>
    rw [(aligned_pattern hx.closed _).2]
    exact reads_pattern hx _
  | upperPattern hx =>
    rw [(aligned_pattern (closed_text (unmarked_upper hx.unmarked)) _).2]
    exact reads_upperPattern hx _
  | range hx =>
    rw [(aligned_range hx.closed _ _).2]
    exact reads_range hx _ _

end Condition

namespace Fragment

def formula (φ : Fragment) : Option Formula :=
  Reading.formula (lex .idle (Token.weave none φ.sql.toList φ.values))

structure Reads (v : Atom → Truth) (φ : Fragment) (t : Truth) : Prop where
  truth : ∃ f, φ.formula = some f ∧ f.truth v = t
  marks : Statement.marks none φ.sql.toList = φ.values.length

theorem Reads.unique {φ : Fragment} {u : Truth} (ht : φ.Reads v t) (hu : φ.Reads v u) : t = u := by
  obtain ⟨f, hf, rfl⟩ := ht.truth
  obtain ⟨g, hg, rfl⟩ := hu.truth
  rw [hf] at hg
  cases hg
  rfl

end Fragment

namespace Condition

theorem Means.rendered (h : c.Means v t) : c.fragment.Reads v t := by
  have ha : c.Aligned := (h.over.placed_of fun _ hx => hx.unmarked).aligned
  obtain ⟨ls, hs, hw⟩ := h.reads
  obtain ⟨f, hf, ht⟩ := hw.formula
  have hls : lex .idle c.tokens = ls := by simpa [lex, Pending.flush] using hs [] trivial
  constructor
  · refine ⟨f, ?_, ht⟩
    rw [Fragment.formula, ← ha.marked, ← ha.values, Token.weave_marked ha.closed, hls, hf]
  · rw [← ha.marked, ← ha.values]
    exact Token.marks_marked ha.closed

theorem Means.unique {u : Truth} (ht : c.Means v t) (hu : c.Means v u) : t = u :=
  ht.rendered.unique hu.rendered

theorem means_group (op : Connective) {conditions : List Condition} {ts : List Truth}
    (h : List.Forall₂ (Means v) conditions ts) : (group op conditions).Means v (op.truth ts) := by
  have hex : ∀ c ∈ conditions, ∃ t, c.Means v t := by
    clear op
    induction h with
    | nil => simp
    | cons hc _ ih => simpa using ⟨⟨_, hc⟩, ih⟩
  have : Nonempty Truth := ⟨.yes⟩
  choose! u hu using hex
  have hmap : List.Forall₂ (Means v) conditions (conditions.map u) := by
    rw [List.forall₂_map_right_iff, List.forall₂_same]
    exact hu
  have hts : conditions.map u = ts :=
    List.right_unique_forall₂' (fun _ _ _ ht hs => ht.unique hs) hmap h
  exact hts ▸ .group hu

theorem members_of_means {op : Connective} {conditions : List Condition}
    (h : (group op conditions).Means v t) :
    ∃ ts, List.Forall₂ (Means v) conditions ts ∧ op.truth ts = t := by
  cases h with
  | @group _ _ u hu =>
    refine ⟨conditions.map u, ?_, rfl⟩
    rw [List.forall₂_map_right_iff, List.forall₂_same]
    exact hu

theorem means_andAlso {d : Condition} {u : Truth} (hc : c.Means v t) (hd : d.Means v u) :
    (c.andAlso d).Means v (t.and u) := by
  have hpair : (group .and [c, d]).Means v (t.and u) := by
    have := means_group .and (.cons hc (.cons hd .nil))
    simpa [Connective.truth_and] using this
  unfold andAlso
  split
  · obtain ⟨ts, hts, rfl⟩ := members_of_means hc
    have hall := means_group .and (List.rel_append hts (.cons hd .nil))
    simpa [Connective.truth_and, Truth.all_append] using hall
  · exact hpair

theorem values_joinWith (sep : String) (φs : List Fragment) :
    (Fragment.joinWith sep φs).values = (φs.map Fragment.values).flatten := by
  induction φs with
  | nil => rfl
  | cons φ φs ih =>
    cases φs with
    | nil => simp [Fragment.joinWith]
    | cons ψ φs => simpa [Fragment.joinWith, Fragment.ofSql] using ih

theorem fragments_eq (conditions : List Condition) :
    fragments conditions = conditions.map fragment := by
  induction conditions with
  | nil => rfl
  | cons c conditions ih => rw [fragments, ih, List.map_cons]

theorem values_group (op : Connective) (conditions : List Condition) :
    (group op conditions).fragment.values
      = (conditions.map fun c => c.fragment.values).flatten := by
  cases conditions with
  | nil => rfl
  | cons c rest => simp [fragment, values_joinWith, fragments_eq, Fragment.ofSql, Function.comp_def]

theorem values_andAlso (c d : Condition) :
    (c.andAlso d).fragment.values = c.fragment.values ++ d.fragment.values := by
  unfold andAlso
  split <;> simp [values_group]

end Condition

theorem foldl_conjoin {cs : List Condition} {ts : List Truth}
    (h : List.Forall₂ (Condition.Means v) cs ts) (hc : c.Means v t) :
    ∃ d, cs.foldl Source.conjoin (some c) = some d ∧ d.Means v (t.and (.all ts)) ∧
      d.fragment.values = c.fragment.values ++ (cs.map fun d => d.fragment.values).flatten := by
  induction h generalizing c t with
  | nil => exact ⟨c, rfl, by simpa using hc, by simp⟩
  | @cons d u cs ts hd _ ih =>
    obtain ⟨e, he, hm, hv⟩ := ih (Condition.means_andAlso hc hd)
    refine ⟨e, he, ?_, by simp [hv, Condition.values_andAlso]⟩
    rwa [Truth.and_assoc] at hm

namespace QueryPair

end QueryPair

example : (Fragment.ofSql "a = 1 OR b BETWEEN 2 AND 3 AND c IS NULL").formula
    = some (.or (.atom (.test (.column "a") .eq [.number 1]))
      (.and (.atom (.range (.column "b") (.number 2) (.number 3)))
        (.atom (.test (.column "c") .isNull [])))) := by cbv

end RecordQuery
