import Mathlib.Data.List.Forall2
import RecordQuery.Proofs.Sql.Token
import RecordQuery.Sql.QueryPair

namespace RecordQuery

namespace Statement

def Unmarked (s : String) : Prop := ∀ c ∈ s.toList, isQuote c = false ∧ c ≠ '?'

instance (s : String) : Decidable (Unmarked s) :=
  List.decidableBAll (fun c => isQuote c = false ∧ c ≠ '?') s.toList

theorem unmarked_append {s t : String} : Unmarked (s ++ t) ↔ Unmarked s ∧ Unmarked t := by
  simp only [Unmarked, String.toList_append, List.mem_append]
  exact ⟨fun h => ⟨fun c hc => h c (.inl hc), fun c hc => h c (.inr hc)⟩,
    fun h c hc => hc.elim (h.1 c) (h.2 c)⟩

theorem unmarked_toString (n : Nat) : Unmarked (toString n) := by
  intro c hc
  have hd : c.isDigit := by
    rw [Nat.toString_eq_repr, Nat.toList_repr] at hc
    exact Nat.isDigit_of_mem_toDigits (by decide) (by decide) hc
  constructor
  · simp only [isQuote, Bool.or_eq_false_iff, beq_eq_false_iff_ne]
    refine ⟨⟨?_, ?_⟩, ?_⟩ <;> rintro rfl <;> exact absurd hd (by decide)
  · rintro rfl
    exact absurd hd (by decide)

theorem marks_append {s : String} (h : Unmarked s) (rest : List Char) :
    marks none (s.toList ++ rest) = marks none rest := by
  unfold Unmarked at h
  generalize s.toList = cs at h
  induction cs with
  | nil => rfl
  | cons c cs ih =>
    have hc := h c List.mem_cons_self
    simpa [marks, hc] using ih fun d hd => h d (List.mem_cons_of_mem c hd)

end Statement

namespace Token

open Statement (isQuote Unmarked unmarked_append)

theorem closed_text {s : String} (h : Unmarked s) : Closed (text s) := by
  unfold Closed text
  have : ∀ cs : List Char, (∀ c ∈ cs, isQuote c = false ∧ c ≠ '?') →
      scan none (cs.map char) = some none := by
    intro cs hcs
    induction cs with
    | nil => rfl
    | cons c cs ih =>
      have hc := hcs c List.mem_cons_self
      simp [scan, hc, ih fun d hd => hcs d (List.mem_cons_of_mem c hd)]
  exact this _ h

theorem scan_double {q : Char} (hq : isQuote q = true) (cs : List Char) :
    scan (some q) ((Dialect.double q cs ++ [q]).map char) = some none := by
  induction cs with
  | nil => simp [Dialect.double, scan]
  | cons c cs ih =>
    by_cases h : c = q
    · simpa [Dialect.double, h, scan, hq] using ih
    · simpa [Dialect.double, h, scan] using ih

theorem isQuote_quoteChar (δ : Dialect) : isQuote δ.quoteChar = true := by
  cases δ <;> rfl

theorem closed_quote (δ : Dialect) (identifier : String) : Closed (text (δ.quote identifier)) := by
  rw [Closed, text, Dialect.toList_quote, List.map_cons]
  simpa [scan, isQuote_quoteChar] using scan_double (isQuote_quoteChar δ) identifier.toList

theorem closed_intercalate {sep : List Token} (hs : Closed sep) {tss : List (List Token)}
    (h : ∀ ts ∈ tss, Closed ts) : Closed (sep.intercalate tss) := by
  induction tss with
  | nil => exact closed_nil
  | cons ts tss ih =>
    have hts := h ts List.mem_cons_self
    cases tss with
    | nil => simpa using hts
    | cons us tss =>
      rw [List.intercalate_cons_cons]
      exact (hts.append hs).append (ih fun x hx => h x (List.mem_cons_of_mem ts hx))

theorem text_intercalate (sep : String) (ss : List String) :
    text (sep.intercalate ss) = (text sep).intercalate (ss.map text) := by
  induction ss with
  | nil => rfl
  | cons s ss ih =>
    cases ss with
    | nil => simp
    | cons t ss =>
      rw [String.intercalate_cons_cons, text_append, text_append, ih]
      simp [List.intercalate_cons_cons]

theorem marks_written_postgres {q q' : Option Char} {ts : List Token} (h : scan q ts = some q')
    (n : Nat) : Statement.marks q (written .postgres n ts) = 0 := by
  induction ts generalizing q n with
  | nil => cases q <;> rfl
  | cons a ts ih =>
    rcases a with c | v <;> rcases q with _ | q <;> simp only [scan] at h
    · split at h
      · next hc => simp [written, Statement.marks, hc, ih h]
      · split at h
        · cases h
        · next hc hm => simp [written, Statement.marks, hc, hm, ih h]
    · simp [written, Statement.marks, ih h]
    · have hp : Unmarked (Dialect.placeholder .postgres (n + 1)) :=
        unmarked_append.2 ⟨by decide, Statement.unmarked_toString _⟩
      rw [written, Statement.marks_append hp, ih h]
    · cases h

theorem marks_written {ts : List Token} (h : Closed ts) (δ : Dialect) :
    Statement.marks none (written δ 0 ts)
      = if δ = .postgres then 0 else (values ts).length := by
  split
  · next hδ =>
    subst hδ
    exact marks_written_postgres h 0
  · next hδ => rw [written_eq_marked hδ, marks_marked h]

end Token

open Token (text Closed)

namespace Fragment

structure Aligned (φ : Fragment) (ts : List Token) : Prop where
  closed : Closed ts
  marked : Token.marked ts = φ.sql.toList
  values : Token.values ts = φ.values

theorem aligned_empty : empty.Aligned [] := ⟨rfl, rfl, rfl⟩

theorem aligned_ofSql {s : String} (h : Closed (text s)) : (ofSql s).Aligned (text s) :=
  ⟨h, Token.marked_text s, Token.values_text s⟩

theorem Aligned.append {φ ψ : Fragment} {as bs : List Token} (ha : φ.Aligned as)
    (hb : ψ.Aligned bs) : (φ ++ ψ).Aligned (as ++ bs) where
  closed := ha.closed.append hb.closed
  marked := by simp [ha.marked, hb.marked]
  values := by simp [ha.values, hb.values]

theorem aligned_concat {φs : List Fragment} {tss : List (List Token)}
    (h : List.Forall₂ Aligned φs tss) : (concat φs).Aligned tss.flatten := by
  induction h with
  | nil => exact aligned_empty
  | cons ha _ ih => exact ha.append ih

theorem aligned_joinWith {sep : String} (hs : Closed (text sep)) {φs : List Fragment}
    {tss : List (List Token)} (h : List.Forall₂ Aligned φs tss) :
    (joinWith sep φs).Aligned ((text sep).intercalate tss) := by
  induction h with
  | nil => exact aligned_empty
  | cons ha h ih =>
    cases h with
    | nil => simpa [joinWith] using ha
    | cons hb h =>
      rw [List.intercalate_cons_cons]
      exact (ha.append (aligned_ofSql hs)).append ih

theorem Aligned.statement {φ : Fragment} {ts : List Token} (h : φ.Aligned ts) (δ : Dialect) :
    Statement.ofFragment δ φ = ⟨String.ofList (Token.written δ 0 ts), Token.values ts⟩ := by
  have hp := Token.place_marked δ h.closed 0 []
  rw [List.append_nil, h.marked] at hp
  unfold Statement.ofFragment
  rw [hp, h.values]
  simp [Statement.place]

end Fragment

namespace Condition

def compareTokens (column : String) (op : Comparison) (value : Option Value) : List Token :=
  match op with
  | .isNull | .isNotNull => text (column ++ " " ++ op.sql)
  | .isIn | .notIn =>
    match members value with
    | [] => text (constantSql (op = .notIn))
    | items =>
      text (column ++ " " ++ op.sql ++ " (")
        ++ (text ", ").intercalate (items.map fun v => [.slot (bound v)]) ++ text ")"
  | _ =>
    match value with
    | none | some .null => text (column ++ " " ++ op.sql ++ " NULL")
    | some v => text (column ++ " " ++ op.sql ++ " ") ++ [.slot (bound v)]

mutual

/-- Every value stands in the slot that its comparison or its literal text writes for it. -/
def tokens : Condition → List Token
  | .compare column op value => compareTokens column op value
  | .group _ [] => text (constantSql true)
  | .group op (c :: rest) =>
    text "(" ++ (text (" " ++ op.sql ++ " ")).intercalate (tokens c :: tokensOf rest) ++ text ")"
  | .raw sql values => Token.weave none sql.toList (values.map bound)
  | .constant b => text (constantSql b)

def tokensOf : List Condition → List (List Token)
  | [] => []
  | c :: rest => tokens c :: tokensOf rest

end

def Aligned (c : Condition) : Prop := c.fragment.Aligned c.tokens

theorem bound_bound (v : Value) : bound (bound v) = bound v := by
  cases v <;> rfl

theorem closed_comparison {column : String} (h : Closed (text column)) (op : Comparison) :
    Closed (text (column ++ " " ++ op.sql)) := by
  rw [Token.text_append, Token.text_append]
  apply (h.append (Token.closed_text (by decide))).append
  cases op <;> exact Token.closed_text (by decide)

theorem closed_constantSql (b : Bool) : Closed (text (constantSql b)) := by
  cases b <;> exact Token.closed_text (by decide)

theorem aligned_markers (items : List Value) :
    (⟨markers items.length, items.map bound⟩ : Fragment).Aligned
      ((text ", ").intercalate (items.map fun v => [.slot (bound v)])) where
  closed := by
    apply Token.closed_intercalate (Token.closed_text (by decide))
    intro ts hts
    obtain ⟨v, -, rfl⟩ := List.mem_map.1 hts
    exact Token.closed_slot _
  marked := by
    rw [Token.marked_intercalate, markers, String.toList_intercalate, Token.marked_text]
    simp [Function.comp_def, Token.marked, List.map_const']
  values := by
    rw [Token.values_intercalate (Token.values_text _)]
    induction items with
    | nil => rfl
    | cons v items ih => simpa [Token.values] using ih

theorem aligned_membership {column : String} (hc : Closed (text column)) (op : Comparison)
    (items : List Value) :
    (⟨column ++ " " ++ op.sql ++ " (" ++ markers items.length ++ ")", items.map bound⟩ :
      Fragment).Aligned (text (column ++ " " ++ op.sql ++ " (")
        ++ (text ", ").intercalate (items.map fun v => [.slot (bound v)]) ++ text ")") := by
  have hopen : Closed (text (column ++ " " ++ op.sql ++ " (")) := by
    rw [Token.text_append]
    exact (closed_comparison hc op).append (Token.closed_text (by decide))
  have hclose : Closed (text ")") := Token.closed_text (by decide)
  have h := ((Fragment.aligned_ofSql hopen).append (aligned_markers items)).append
    (Fragment.aligned_ofSql hclose)
  exact ⟨h.closed, h.marked, by simpa [Fragment.ofSql] using h.values⟩

theorem aligned_slot {column : String} (hc : Closed (text column)) (op : Comparison) (v : Value) :
    (⟨column ++ " " ++ op.sql ++ " ?", [bound v]⟩ : Fragment).Aligned
      (text (column ++ " " ++ op.sql ++ " ") ++ [.slot (bound v)]) where
  closed := by
    rw [Token.text_append]
    exact ((closed_comparison hc op).append (Token.closed_text (by decide))).append
      (Token.closed_slot _)
  marked := by simp [Token.marked]
  values := by simp [Token.values]

theorem aligned_compare {column : String} (hc : Closed (text column)) (op : Comparison)
    (value : Option Value) : (compare column op value).Aligned := by
  unfold Aligned
  rw [fragment, tokens]
  have hnull : Closed (text (column ++ " " ++ op.sql ++ " NULL")) := by
    rw [Token.text_append]
    exact (closed_comparison hc op).append (Token.closed_text (by decide))
  unfold compareFragment compareTokens
  cases op
  case isNull | isNotNull => exact Fragment.aligned_ofSql (closed_comparison hc _)
  case isIn | notIn =>
    cases members value with
    | nil => exact Fragment.aligned_ofSql (closed_constantSql _)
    | cons v items => exact aligned_membership hc _ (v :: items)
  all_goals
    cases value with
    | none => exact Fragment.aligned_ofSql hnull
    | some v =>
      cases v with
      | null => exact Fragment.aligned_ofSql hnull
      | _ => exact aligned_slot hc _ _

theorem aligned_constant (b : Bool) : (constant b).Aligned := by
  unfold Aligned
  rw [fragment, tokens]
  exact Fragment.aligned_ofSql (closed_constantSql b)

theorem aligned_group (op : Connective) {conditions : List Condition}
    (h : ∀ c ∈ conditions, c.Aligned) : (group op conditions).Aligned := by
  have hall : ∀ cs : List Condition, (∀ c ∈ cs, c.Aligned) →
      List.Forall₂ Fragment.Aligned (fragments cs) (tokensOf cs) := by
    intro cs hcs
    induction cs with
    | nil => exact .nil
    | cons c cs ih =>
      exact .cons (hcs c List.mem_cons_self) (ih fun d hd => hcs d (List.mem_cons_of_mem c hd))
  have hsep : Closed (text (" " ++ op.sql ++ " ")) := by
    cases op <;> exact Token.closed_text (by decide)
  unfold Aligned
  cases conditions with
  | nil => exact Fragment.aligned_ofSql (closed_constantSql true)
  | cons c rest =>
    rw [fragment, tokens]
    exact ((Fragment.aligned_ofSql (Token.closed_text (by decide))).append
      (Fragment.aligned_joinWith hsep (hall (c :: rest) h))).append
      (Fragment.aligned_ofSql (Token.closed_text (by decide)))

theorem tokens_raw {sql : String} {vs : List Value} {ts : List Token} (hc : Closed ts)
    (hm : Token.marked ts = sql.toList) (hv : Token.values ts = vs.map bound) :
    (raw sql vs).tokens = ts := by
  rw [tokens, ← hm, ← hv]
  exact Token.weave_marked hc

theorem aligned_raw {sql : String} {vs : List Value} (ts : List Token) (hc : Closed ts)
    (hm : Token.marked ts = sql.toList) (hv : Token.values ts = vs.map bound) :
    (raw sql vs).Aligned ∧ (raw sql vs).tokens = ts := by
  have ht := tokens_raw hc hm hv
  refine ⟨?_, ht⟩
  rw [Aligned, ht, fragment]
  exact ⟨hc, hm, hv⟩

end Condition

def Join.tokens (δ : Dialect) (j : Join) : List Token :=
  text (" " ++ j.type.sql ++ " " ++ δ.quote j.table ++ " AS " ++ j.tableAlias ++ " ON ")
    ++ j.on.tokens

namespace Source

def clauseTokens (keyword : String) : Option Condition → List Token
  | some c => text keyword ++ c.tokens
  | none => []

def groupText (s : Source) : String :=
  if s.groupBy.isEmpty then "" else " GROUP BY " ++ ", ".intercalate s.groupBy

/-- ON in the order of the joins, then WHERE, then HAVING. -/
def tokens (δ : Dialect) (s : Source) : List Token :=
  text (" FROM " ++ δ.quote s.table ++ " AS " ++ s.tableAlias)
    ++ (s.joins.map (Join.tokens δ)).flatten
    ++ clauseTokens " WHERE " s.filter
    ++ text s.groupText
    ++ clauseTokens " HAVING " s.having

end Source

def Select.tokens (δ : Dialect) (q : Select) : List Token :=
  text ("SELECT " ++ q.fieldList δ) ++ q.source.tokens δ ++ text q.tail

def QueryPair.countTokens (δ : Dialect) (q : QueryPair) : List Token :=
  text ("SELECT COUNT(*) AS " ++ δ.quote countColumn ++ " FROM (") ++ q.counted.tokens δ
    ++ text ") AS c"

end RecordQuery
