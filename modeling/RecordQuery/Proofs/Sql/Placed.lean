import RecordQuery.Compilation
import RecordQuery.Proofs.Sql.Aligned

namespace RecordQuery

open Statement (Unmarked unmarked_append)
open Token (text Closed closed_text)

variable {δ : Dialect}

namespace Condition

/-- Groups of conditions whose text is aligned with its values. -/
inductive Placed : Condition → Prop
  | compare {column op value} : Closed (text column) → Placed (.compare column op value)
  | raw {sql vs} : (Condition.raw sql vs).Aligned → Placed (.raw sql vs)
  | constant {b} : Placed (.constant b)
  | group {op conditions} : (∀ c ∈ conditions, Placed c) → Placed (.group op conditions)

theorem Placed.aligned {c : Condition} (h : c.Placed) : c.Aligned := by
  induction h with
  | compare hc => exact aligned_compare hc _ _
  | raw h => exact h
  | constant => exact aligned_constant _
  | group _ ih => exact aligned_group _ ih

theorem Placed.andAlso {c d : Condition} (hc : c.Placed) (hd : d.Placed) :
    (c.andAlso d).Placed := by
  have hpair : Placed (.group .and [c, d]) := by
    apply Placed.group
    simp [hc, hd]
  cases hc with
  | @group op conditions h =>
    cases op with
    | and =>
      apply Placed.group
      intro x hx
      rcases List.mem_append.1 hx with hx | hx
      · exact h x hx
      · exact List.mem_singleton.1 hx ▸ hd
    | or => exact hpair
  | _ => exact hpair

theorem aligned_pattern {subject : String} (h : Closed (text subject)) (v : Value) :
    (raw (subject ++ " LIKE ? ESCAPE '*'") [v]).Aligned ∧
      (raw (subject ++ " LIKE ? ESCAPE '*'") [v]).tokens
        = text subject ++ (text " LIKE " ++ [.slot (bound v)] ++ text " ESCAPE '*'") := by
  apply aligned_raw
  · exact h.append (((closed_text (by decide)).append (Token.closed_slot _)).append rfl)
  · simp [Token.marked]
  · simp [Token.values]

theorem aligned_range {column : String} (h : Closed (text column)) (low high : Value) :
    (raw (column ++ " BETWEEN ? AND ?") [low, high]).Aligned ∧
      (raw (column ++ " BETWEEN ? AND ?") [low, high]).tokens
        = text (column ++ " BETWEEN ") ++ [.slot (bound low)] ++ text " AND "
          ++ [.slot (bound high)] := by
  apply aligned_raw
  · rw [Token.text_append]
    exact (((h.append (closed_text (by decide))).append (Token.closed_slot _)).append
      (closed_text (by decide))).append (Token.closed_slot _)
  · simp [Token.marked]
  · simp [Token.values]

theorem aligned_columnsEq {left right : String} (hl : Closed (text left))
    (hr : Closed (text right)) :
    (columnsEq left right).Aligned ∧
      (columnsEq left right).tokens = text (left ++ " = " ++ right) := by
  apply aligned_raw
  · rw [Token.text_append, Token.text_append]
    exact (hl.append (closed_text (by decide))).append hr
  · simp
  · simp

theorem bound_compareFragment (column : String) (op : Comparison) (value : Option Value) :
    (compareFragment column op value).values.map bound
      = (compareFragment column op value).values := by
  unfold compareFragment
  split
  · rfl
  · rfl
  · split
    · rfl
    · simp [bound_bound]
  · split
    · rfl
    · simp [bound_bound]
  · split
    · rfl
    · rfl
    · simp [bound_bound]

theorem bound_joinWith (sep : String) {φs : List Fragment}
    (h : ∀ φ ∈ φs, φ.values.map bound = φ.values) :
    (Fragment.joinWith sep φs).values.map bound = (Fragment.joinWith sep φs).values := by
  induction φs with
  | nil => rfl
  | cons φ φs ih =>
    have hφ := h φ List.mem_cons_self
    cases φs with
    | nil => exact hφ
    | cons ψ φs =>
      have hrest := ih fun χ hχ => h χ (List.mem_cons_of_mem φ hχ)
      simp [Fragment.joinWith, Fragment.ofSql, hφ, hrest]

mutual

theorem bound_values (c : Condition) : c.fragment.values.map bound = c.fragment.values := by
  cases c with
  | compare column op value => exact bound_compareFragment column op value
  | group op conditions =>
    cases conditions with
    | nil => rfl
    | cons c rest =>
      have h := bound_joinWith (" " ++ op.sql ++ " ") (bound_valuesOf (c :: rest))
      simpa [fragment, fragments, Fragment.ofSql] using h
  | raw sql vs => simp [fragment, Function.comp_def, bound_bound]
  | constant b => rfl

theorem bound_valuesOf (cs : List Condition) :
    ∀ φ ∈ fragments cs, φ.values.map bound = φ.values := by
  cases cs with
  | nil => simp [fragments]
  | cons c cs => simpa [fragments] using ⟨bound_values c, bound_valuesOf cs⟩

end

theorem aligned_someRow {c : Condition} (h : c.Aligned) :
    (Compilation.someRow δ c).Aligned ∧ (Compilation.someRow δ c).tokens
      = text "SUM(CASE WHEN " ++ c.tokens ++ text " THEN 1 ELSE 0 END) > 0" := by
  have hc : Closed (text "SUM(CASE WHEN " ++ c.tokens ++ text " THEN 1 ELSE 0 END) > 0") :=
    ((closed_text (by decide)).append h.closed).append (closed_text (by decide))
  have hm : Token.marked (text "SUM(CASE WHEN " ++ c.tokens ++ text " THEN 1 ELSE 0 END) > 0")
      = (δ.sum ("CASE WHEN " ++ c.fragment.sql ++ " THEN 1 ELSE 0 END") ++ " > 0").toList := by
    simp [Dialect.sum, h.marked]
  have hv : Token.values (text "SUM(CASE WHEN " ++ c.tokens ++ text " THEN 1 ELSE 0 END) > 0")
      = c.fragment.values.map bound := by
    simp [h.values, bound_values]
  exact aligned_raw _ hc hm hv

end Condition

structure Source.Placed (s : Source) : Prop where
  tableAlias : Closed (text s.tableAlias)
  joins : ∀ j ∈ s.joins, Closed (text j.tableAlias) ∧ j.on.Placed
  filter : ∀ c ∈ s.filter, c.Placed
  groupBy : ∀ x ∈ s.groupBy, Closed (text x)
  having : ∀ c ∈ s.having, c.Placed

structure Select.Placed (q : Select) : Prop where
  source : q.source.Placed
  fields : ∀ f ∈ q.fields, Closed (text f.expression)
  orderBy : ∀ t ∈ q.orderBy, Closed (text t.expression)

def Source.parameters (s : Source) : List Value :=
  (s.joins.map fun j => j.on.fragment.values).flatten
    ++ (s.filter.elim [] fun c => c.fragment.values)
    ++ (s.having.elim [] fun c => c.fragment.values)

theorem Join.aligned {j : Join} (ha : Closed (text j.tableAlias)) (hc : j.on.Placed) :
    (j.fragment δ).Aligned (j.tokens δ) := by
  have htype : Closed (text (" " ++ j.type.sql ++ " ")) := by
    cases j.type <;> exact closed_text (by decide)
  apply Fragment.Aligned.append _ hc.aligned
  apply Fragment.aligned_ofSql
  simp only [Token.text_append] at htype ⊢
  exact ((((htype.append (Token.closed_quote δ _)).append (closed_text (by decide))).append
    ha).append (closed_text (by decide)))

namespace Source

variable {s : Source}

theorem aligned_clause {keyword : String} (hk : Unmarked keyword) {o : Option Condition}
    (h : ∀ c ∈ o, c.Placed) : (clause keyword o).Aligned (clauseTokens keyword o) := by
  cases o with
  | none => exact Fragment.aligned_empty
  | some c => exact (Fragment.aligned_ofSql (closed_text hk)).append (h c rfl).aligned

theorem Placed.aligned (h : s.Placed) (δ : Dialect) : (s.fragment δ).Aligned (s.tokens δ) := by
  have hfrom : Closed (text (" FROM " ++ δ.quote s.table ++ " AS " ++ s.tableAlias)) := by
    simp only [Token.text_append]
    exact (((closed_text (by decide)).append (Token.closed_quote δ _)).append
      (closed_text (by decide))).append h.tableAlias
  have hjoins : List.Forall₂ Fragment.Aligned (s.joins.map (Join.fragment δ))
      (s.joins.map (Join.tokens δ)) := by
    rw [List.forall₂_map_left_iff, List.forall₂_map_right_iff, List.forall₂_same]
    exact fun j hj => Join.aligned (h.joins j hj).1 (h.joins j hj).2
  have hgroup : (if s.groupBy.isEmpty then Fragment.empty
      else .ofSql (" GROUP BY " ++ ", ".intercalate s.groupBy)).Aligned (text s.groupText) := by
    unfold groupText
    split
    · exact Fragment.aligned_empty
    · apply Fragment.aligned_ofSql
      rw [Token.text_append, Token.text_intercalate]
      apply (closed_text (by decide)).append
      apply Token.closed_intercalate (closed_text (by decide))
      intro ts hts
      obtain ⟨x, hx, rfl⟩ := List.mem_map.1 hts
      exact h.groupBy x hx
  exact ((((Fragment.aligned_ofSql hfrom).append (Fragment.aligned_concat hjoins)).append
    (aligned_clause (by decide) h.filter)).append hgroup).append
    (aligned_clause (by decide) h.having)

theorem values_fragment (s : Source) (δ : Dialect) : (s.fragment δ).values = s.parameters := by
  have hjoins : ∀ js : List Join, (Fragment.concat (js.map (Join.fragment δ))).values
      = (js.map fun j => j.on.fragment.values).flatten := by
    intro js
    induction js with
    | nil => rfl
    | cons j js ih => simpa [Fragment.concat, Join.fragment, Fragment.ofSql] using ih
  have hclause : ∀ (keyword : String) (o : Option Condition),
      (clause keyword o).values = o.elim [] fun c => c.fragment.values := by
    intro keyword o
    cases o <;> simp [clause, Fragment.ofSql, Fragment.empty]
  have hgroup : (if s.groupBy.isEmpty then Fragment.empty
      else .ofSql (" GROUP BY " ++ ", ".intercalate s.groupBy)).values = [] := by
    split <;> rfl
  unfold fragment parameters
  simp only [Fragment.values_append, hjoins, hclause, hgroup]
  simp [Fragment.ofSql]

end Source

namespace Select

variable {q : Select}

theorem closed_fieldList (h : q.Placed) (δ : Dialect) : Closed (text (q.fieldList δ)) := by
  unfold fieldList
  rw [Token.text_intercalate]
  apply Token.closed_intercalate (closed_text (by decide))
  intro ts hts
  obtain ⟨x, hx, rfl⟩ := List.mem_map.1 hts
  obtain ⟨f, hf, rfl⟩ := List.mem_map.1 hx
  have he := h.fields f hf
  unfold Field.sql
  cases f.label with
  | none => exact he
  | some label =>
    rw [Token.text_append, Token.text_append]
    exact (he.append (closed_text (by decide))).append (Token.closed_quote δ label)

theorem closed_orderTerm {t : OrderTerm} (h : Closed (text t.expression)) :
    Closed (text t.sql) := by
  unfold OrderTerm.sql
  cases t.direction with
  | none => exact h
  | some direction =>
    rw [Token.text_append, Token.text_append]
    apply (h.append (closed_text (by decide))).append
    cases direction <;> exact closed_text (by decide)

theorem closed_tail (h : q.Placed) : Closed (text q.tail) := by
  have hnumber : ∀ {keyword : String} (n : Nat), Unmarked keyword →
      Closed (text (keyword ++ toString n)) :=
    fun n hk => closed_text (unmarked_append.2 ⟨hk, Statement.unmarked_toString n⟩)
  unfold tail
  rw [Token.text_append, Token.text_append]
  refine (Closed.append ?_ ?_).append ?_
  · split
    · exact Token.closed_nil
    · rw [Token.text_append, Token.text_intercalate]
      apply (closed_text (by decide)).append
      apply Token.closed_intercalate (closed_text (by decide))
      intro ts hts
      obtain ⟨x, hx, rfl⟩ := List.mem_map.1 hts
      obtain ⟨t, ht, rfl⟩ := List.mem_map.1 hx
      exact closed_orderTerm (h.orderBy t ht)
  · cases q.limit with
    | none => exact Token.closed_nil
    | some n => exact hnumber n (by decide)
  · cases q.offset with
    | none => exact Token.closed_nil
    | some n => exact hnumber n (by decide)

theorem Placed.aligned (h : q.Placed) {δ : Dialect} {φ : Fragment} (hφ : q.fragment δ = .ok φ) :
    φ.Aligned (q.tokens δ) ∧ φ.values = q.source.parameters := by
  unfold fragment at hφ
  split at hφ
  · cases hφ
  · cases hφ
    have hselect : Closed (text ("SELECT " ++ q.fieldList δ)) := by
      rw [Token.text_append]
      exact (closed_text (by decide)).append (closed_fieldList h δ)
    refine ⟨((Fragment.aligned_ofSql hselect).append (h.source.aligned δ)).append
      (Fragment.aligned_ofSql (closed_tail h)), ?_⟩
    simp [Fragment.ofSql, Source.values_fragment]

end Select

/-- The statement is written from closed tokens: its placeholders are their slots, outside quoted
text and numbered in order, and its parameters are the values of the slots. -/
structure Statement.Binds (st : Statement) (δ : Dialect) (ts : List Token) (vs : List Value) :
    Prop where
  closed : Closed ts
  sql : st.sql.toList = Token.written δ 0 ts
  slots : Token.values ts = st.params
  params : st.params = vs
  marks : Statement.marks none st.sql.toList = if δ = .postgres then 0 else st.params.length

theorem Fragment.Aligned.binds {φ : Fragment} {ts : List Token} (h : φ.Aligned ts) (δ : Dialect) :
    (Statement.ofFragment δ φ).Binds δ ts φ.values where
  closed := h.closed
  sql := by simp [h.statement δ]
  slots := h.values
  params := rfl
  marks := by
    rw [h.statement δ, String.toList_ofList]
    exact Token.marks_written h.closed δ

theorem Select.Placed.binds {q : Select} (h : q.Placed) (δ : Dialect) (hf : q.fields ≠ []) :
    ∃ st, q.statement δ = .ok st ∧ st.Binds δ (q.tokens δ) q.source.parameters := by
  have hfragment : ∃ φ, q.fragment δ = .ok φ := by
    unfold fragment
    rw [if_neg (by simpa using hf)]
    exact ⟨_, rfl⟩
  obtain ⟨φ, hφ⟩ := hfragment
  obtain ⟨ha, hv⟩ := h.aligned hφ
  refine ⟨.ofFragment δ φ, ?_, hv ▸ ha.binds δ⟩
  unfold statement
  rw [hφ]
  rfl

namespace QueryPair

def Placed (q : QueryPair) : Prop := q.rows.Placed

variable {q : QueryPair}

theorem Placed.counted (h : q.Placed) : q.counted.Placed where
  source := h.source
  fields := by
    intro f hf
    rw [List.mem_singleton.1 hf]
    exact closed_text (by decide)
  orderBy := by simp [QueryPair.counted, Select.ofSource, Select.field]

theorem Placed.binds_count (h : q.Placed) (δ : Dialect) :
    ∃ st, q.countStatement δ = .ok st ∧ st.Binds δ (q.countTokens δ) q.source.parameters := by
  have hfragment : ∃ φ, q.counted.fragment δ = .ok φ := ⟨_, rfl⟩
  obtain ⟨φ, hφ⟩ := hfragment
  obtain ⟨ha, hv⟩ := h.counted.aligned hφ
  have hsource : q.counted.source = q.source := rfl
  have hopen : Closed (text ("SELECT COUNT(*) AS " ++ δ.quote countColumn ++ " FROM (")) := by
    rw [Token.text_append, Token.text_append]
    exact ((closed_text (by decide)).append (Token.closed_quote δ _)).append
      (closed_text (by decide))
  have hclose : Closed (text ") AS c") := closed_text (by decide)
  have hall := ((Fragment.aligned_ofSql hopen).append ha).append (Fragment.aligned_ofSql hclose)
  have hvalues : (Fragment.ofSql ("SELECT COUNT(*) AS " ++ δ.quote countColumn ++ " FROM (") ++ φ
      ++ Fragment.ofSql ") AS c").values = q.source.parameters := by
    simpa [Fragment.ofSql, hsource] using hv
  refine ⟨_, ?_, hvalues ▸ hall.binds δ⟩
  unfold countStatement
  rw [hφ]
  rfl

end QueryPair

end RecordQuery
