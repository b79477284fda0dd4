import RecordQuery.Proofs.Emission.Grouping
import RecordQuery.Proofs.Sql.Placed

namespace RecordQuery

open Statement (Unmarked unmarked_append)
open Token (text Closed closed_text)

variable {δ : Dialect}

theorem unmarked_alias {a : String} (h : Alias a) : Unmarked a := by
  have hmarks : ['\x27', '\x22', '\x60', '?'].all
      (fun d => d != '_' && !d.isLower && !d.isDigit) = true := by decide
  intro c hc
  have h : ∀ d ∈ ['\x27', '\x22', '\x60', '?'], c ≠ d := by
    rintro d hd rfl
    have hd := List.all_eq_true.1 hmarks c hd
    rcases h.letters c hc with hl | hl | hl <;> simp [hl] at hd
  simp only [Statement.isQuote, Bool.or_eq_false_iff, beq_eq_false_iff_ne]
  exact ⟨⟨⟨h _ (by simp), h _ (by simp)⟩, h _ (by simp)⟩, h _ (by simp)⟩

theorem unmarked_column {x : String} (h : ColumnRef Unmarked x) : Unmarked x := by
  cases h with
  | mk ha hn => exact unmarked_append.2 ⟨unmarked_append.2 ⟨unmarked_alias ha, by decide⟩, hn⟩

theorem unmarked_upper {x : String} (h : Unmarked x) : Unmarked ("UPPER(" ++ x ++ ")") :=
  unmarked_append.2 ⟨unmarked_append.2 ⟨by decide, h⟩, by decide⟩

theorem Condition.Over.placed_of {R : String → Prop} (hR : ∀ x, R x → Unmarked x) {c : Condition}
    (h : c.Over R) : c.Placed := by
  induction h with
  | compare hx => exact .compare (closed_text (hR _ hx))
  | group _ ih => exact .group ih
  | constant => exact .constant
  | columnsEq hl hr =>
    exact .raw (aligned_columnsEq (closed_text (hR _ hl)) (closed_text (hR _ hr))).1
  | pattern hx => exact .raw (aligned_pattern (closed_text (hR _ hx)) _).1
  | upperPattern hx => exact .raw (aligned_pattern (closed_text (unmarked_upper (hR _ hx))) _).1
  | range hx => exact .raw (aligned_range (closed_text (hR _ hx)) _ _).1

theorem Condition.Over.placed {c : Condition} (h : c.Over (ColumnRef Unmarked)) : c.Placed :=
  h.placed_of fun _ => unmarked_column

theorem closed_selected {x : String} (h : Selected δ Unmarked x) : Closed (text x) := by
  cases h with
  | plain hx => exact closed_text (unmarked_column hx)
  | @applied x f hx hf =>
    have hc := unmarked_column hx
    have hcall : ∀ name : String, Unmarked name → Closed (text (name ++ x ++ ")")) := by
      intro name hname
      exact closed_text (unmarked_append.2 ⟨unmarked_append.2 ⟨hname, hc⟩, by decide⟩)
    cases f with
    | count => exact hcall _ (by decide)
    | sum => exact hcall _ (by decide)
    | groupConcat =>
      cases δ with
      | postgres =>
        have hopen : Closed (text ("STRING_AGG(CAST(" ++ x)) :=
          closed_text (unmarked_append.2 ⟨by decide, hc⟩)
        unfold ColumnFunction.sql Dialect.groupConcat
        rw [Token.text_append]
        exact hopen.append rfl
      | _ => exact hcall _ (by decide)
    | convert charset =>
      have hset : Unmarked (charset.getD "utf8") := by
        cases charset with
        | none => decide
        | some charset => exact hf charset rfl
      cases δ with
      | mysql =>
        apply closed_text
        simp only [ColumnFunction.sql, Dialect.convert, unmarked_append]
        exact ⟨⟨⟨⟨by decide, hc⟩, by decide⟩, hset⟩, by decide⟩
      | _ => exact closed_text hc

namespace Source.Placed

variable {s : Source}

theorem conjoin {o : Option Condition} (ho : ∀ c ∈ o, c.Placed) {d : Condition} (hd : d.Placed) :
    ∀ c ∈ Source.conjoin o d, c.Placed := by
  cases o with
  | none =>
    rintro c ⟨rfl⟩
    exact hd
  | some e =>
    rintro c ⟨rfl⟩
    exact (ho e rfl).andAlso hd

theorem join (h : s.Placed) {j : Join} (ha : Closed (text j.tableAlias)) (hc : j.on.Placed) :
    (s.join j).Placed := by
  refine ⟨h.tableAlias, ?_, h.filter, h.groupBy, h.having⟩
  intro k hk
  rcases List.mem_append.1 hk with hk | hk
  · exact h.joins k hk
  · exact List.mem_singleton.1 hk ▸ ⟨ha, hc⟩

theorem group (h : s.Placed) {x : String} (hx : Closed (text x)) : (s.group x).Placed := by
  unfold Source.group
  split
  · exact h
  · refine ⟨h.tableAlias, h.joins, h.filter, ?_, h.having⟩
    intro y hy
    rcases List.mem_append.1 hy with hy | hy
    · exact h.groupBy y hy
    · exact List.mem_singleton.1 hy ▸ hx

end Source.Placed

namespace QueryPair

theorem closed_order {x : String} {d : Option Direction}
    (h : (Edit.order ⟨x, d⟩).Emitted δ Unmarked) : Closed (text x) := by
  cases h with
  | orderColumn hx => exact closed_text (unmarked_column hx)
  | orderLabel => exact Token.closed_quote δ _
  | orderRandom => cases δ <;> exact closed_text (by decide)

theorem Placed.edit {q : QueryPair} (h : q.Placed) {e : Edit} (he : e.Emitted δ Unmarked) :
    (q.edit e).Placed := by
  cases e with
  | field x label =>
    refine ⟨h.source, ?_, h.orderBy⟩
    intro f hf
    cases he with
    | field hx =>
      rcases List.mem_append.1 hf with hf | hf
      · exact h.fields f hf
      · exact List.mem_singleton.1 hf ▸ closed_selected hx
  | order t =>
    refine ⟨h.source, h.fields, ?_⟩
    intro u hu
    rcases List.mem_append.1 hu with hu | hu
    · exact h.orderBy u hu
    · exact List.mem_singleton.1 hu ▸ closed_order he
  | join j =>
    cases he with
    | join ha hc =>
      exact ⟨h.source.join (closed_text (unmarked_alias ha)) hc.placed, h.fields, h.orderBy⟩
  | filter c =>
    cases he with
    | filter hc =>
      exact ⟨⟨h.source.tableAlias, h.source.joins, Source.Placed.conjoin h.source.filter hc.placed,
        h.source.groupBy, h.source.having⟩, h.fields, h.orderBy⟩
  | having c =>
    cases he with
    | @having d hc =>
      -- a condition on groups wraps the text of the one it has, values and all
      have hrow : (Compilation.someRow δ d).Placed :=
        .raw (Condition.aligned_someRow hc.placed.aligned).1
      exact ⟨⟨h.source.tableAlias, h.source.joins, h.source.filter, h.source.groupBy,
        Source.Placed.conjoin h.source.having hrow⟩, h.fields, h.orderBy⟩
  | group x =>
    cases he with
    | group hx => exact ⟨h.source.group (closed_text (unmarked_column hx)), h.fields, h.orderBy⟩
  | page p => exact ⟨h.source, h.fields, h.orderBy⟩

theorem Built.placed {q : QueryPair} (h : q.Built δ Unmarked) : q.Placed := by
  induction h with
  | table ha =>
    exact ⟨⟨closed_text (unmarked_alias ha), by simp [rows, ofTable, Source.ofTable],
      by simp [rows, ofTable, Source.ofTable], by simp [rows, ofTable, Source.ofTable],
      by simp [rows, ofTable, Source.ofTable]⟩, by simp [rows, ofTable], by simp [rows, ofTable]⟩
  | edit _ he ih => exact ih.edit he

/-- The statements of a query bind the values of its conditions. A query without fields has no row
statement. -/
structure Binds (δ : Dialect) (q : QueryPair) : Prop where
  rows : q.fields ≠ [] → ∃ st, q.rowStatement δ = .ok st ∧
    st.Binds δ (q.rows.tokens δ) q.source.parameters
  first : q.fields ≠ [] → ∃ st, q.firstStatement δ = .ok st ∧
    st.Binds δ ({ q.rows with limit := some 1 }.tokens δ) q.source.parameters
  count : ∃ st, q.countStatement δ = .ok st ∧ st.Binds δ (q.countTokens δ) q.source.parameters

theorem Built.binds {q : QueryPair} (h : q.Built δ Unmarked) : q.Binds δ where
  rows := h.placed.binds δ
  first := by
    have hfirst : { q.rows with limit := some 1 }.Placed :=
      ⟨h.placed.source, h.placed.fields, h.placed.orderBy⟩
    exact hfirst.binds δ
  count := h.placed.binds_count δ

end QueryPair

/-- Whatever is asked of a compilation or of a provider, the placeholders of each statement are the
slots of its parameters, and a condition moved into an aggregate keeps its slots. -/
theorem placeholders_match_parameters (p : Provider) (hp : p.Names Unmarked) :
    (∀ q, p.Serves q → q.query.fields ≠ [] ∧ q.query.Binds p.dialect) ∧
    (∀ s pool uses actions, s.Names Unmarked → (∀ a ∈ actions, Action.Plain Unmarked a) →
      (Action.runAll s actions (Compilation.start s pool uses)).query.Binds s.dialect) ∧
    ∀ c : Condition, c.Over (ColumnRef Unmarked) →
      (Compilation.someRow p.dialect c).tokens
        = text "SUM(CASE WHEN " ++ c.tokens ++ text " THEN 1 ELSE 0 END) > 0" := by
  refine ⟨?_, ?_, ?_⟩
  · intro q hq
    exact ⟨(Provider.settled_of_serves hq).fields, (Provider.built_of_serves hp hq).1.binds⟩
  · intro s pool uses actions hs ha
    exact (Action.built_runAll hs ha pool uses).query.binds
  · intro c hc
    exact (Condition.aligned_someRow hc.placed.aligned).2

theorem Blog.names (δ : Dialect) : (Blog.provider δ).Names Unmarked where
  entities := by
    have hcolumns : ∀ e ∈ Blog.schema.entities, ∀ a ∈ e.attributes, Unmarked a.column := by decide
    have hkeys : ∀ e ∈ Blog.schema.entities, ∀ a ∈ e.associations, Unmarked a.foreignKey := by
      decide
    have hdeleted : ∀ e ∈ Blog.schema.entities, ∀ c ∈ e.softDelete, Unmarked c := by decide
    have hlinks : ∀ e ∈ Blog.schema.entities, ∀ a ∈ e.associations,
        a.relation = .belongsTo ∨ a.relation = .hasMany := by decide
    intro e he
    refine ⟨hcolumns e he, hdeleted e he, hkeys e he, ?_⟩
    intro a ha l hl
    rcases hlinks e he a ha with h | h <;> cases h.symm.trans hl
  projections := by
    intro m hm projection hp
    rw [List.mem_singleton.1 hm] at hp
    rcases List.mem_cons.1 hp with rfl | hp
    · trivial
    · rw [List.mem_singleton.1 hp]
      refine ⟨?_, trivial, trivial, trivial⟩
      intro charset h
      simp at h

theorem placeholders_match_parameters_blog :
    (Blog.provider .postgres).Names Unmarked ∧
    ∃ q, (Blog.provider .postgres).Serves q ∧
      q.query.source.parameters.map Value.text? = [some "Ann?", some "'yes'"] ∧
      q.query.fields ≠ [] ∧ q.query.Binds .postgres := by
  obtain ⟨q, uses, hq, hparameters⟩ := Steps.ok_of_toOption_map
    (m := (Blog.provider .postgres).compile "Post" Blog.request) (s := 0)
    (f := fun q => q.query.source.parameters.map Value.text?) (b := [some "Ann?", some "'yes'"])
    (by decide +kernel)
  have hserves : (Blog.provider .postgres).Serves q := .request hq
  obtain ⟨hfields, hbinds⟩ :=
    (placeholders_match_parameters (Blog.provider .postgres) (Blog.names _)).1 q hserves
  exact ⟨Blog.names _, q, hserves, hparameters, hfields, hbinds⟩

end RecordQuery
