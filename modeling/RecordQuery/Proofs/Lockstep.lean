import RecordQuery.Proofs.Placeholders

namespace RecordQuery

open Statement (Unmarked)
open Token (text)

/-- The two statements of a query, each built by itself. -/
structure Builders where
  rows : Select
  counted : Select

namespace Builders

open QueryPair (Edit)

def ofTable (table tableAlias : String) : Builders :=
  ⟨.ofTable table tableAlias, (Select.ofTable table tableAlias).field "0" none⟩

def onSource (f : Source → Source) (b : Builders) : Builders :=
  ⟨{ b.rows with source := f b.rows.source }, { b.counted with source := f b.counted.source }⟩

def edit (b : Builders) : Edit → Builders
  | .field x label => { b with rows := b.rows.field x (some label) }
  | .order t => { b with rows := b.rows.order t }
  | .join j => b.onSource (·.join j)
  | .filter c => b.onSource (·.addFilter c)
  | .having c => b.onSource (·.addHaving c)
  | .group x => b.onSource (·.group x)
  | .page p => { b with rows := { b.rows with limit := some p.size, offset := some p.offset } }

structure InStep (b : Builders) : Prop where
  source : b.rows.source = b.counted.source
  fields : b.counted.fields = [⟨"0", none⟩]
  orderBy : b.counted.orderBy = []
  limit : b.counted.limit = none
  offset : b.counted.offset = none

structure Mirrors (b : Builders) (q : QueryPair) : Prop where
  rows : b.rows = q.rows
  counted : b.counted = q.counted

variable {b : Builders} {q : QueryPair} {table tableAlias : String}

theorem inStep_ofTable : (ofTable table tableAlias).InStep := ⟨rfl, rfl, rfl, rfl, rfl⟩

theorem InStep.edit (h : b.InStep) (e : Edit) : (b.edit e).InStep := by
  have hsource : ∀ f : Source → Source, (b.onSource f).InStep := by
    intro f
    exact ⟨congrArg f h.source, h.fields, h.orderBy, h.limit, h.offset⟩
  cases e with
  | field x label => exact ⟨h.source, h.fields, h.orderBy, h.limit, h.offset⟩
  | order t => exact ⟨h.source, h.fields, h.orderBy, h.limit, h.offset⟩
  | page p => exact ⟨h.source, h.fields, h.orderBy, h.limit, h.offset⟩
  | join j => exact hsource (·.join j)
  | filter c => exact hsource (·.addFilter c)
  | having c => exact hsource (·.addHaving c)
  | group x => exact hsource (·.group x)

theorem inStep_foldl (h : b.InStep) (es : List Edit) : (es.foldl edit b).InStep := by
  induction es generalizing b with
  | nil => exact h
  | cons e es ih => exact ih (h.edit e)

theorem mirrors_ofTable : (ofTable table tableAlias).Mirrors (.ofTable table tableAlias) :=
  ⟨rfl, rfl⟩

theorem Mirrors.edit (h : b.Mirrors q) (e : Edit) : (b.edit e).Mirrors (q.edit e) := by
  obtain ⟨rows, counted⟩ := b
  obtain ⟨rfl, rfl⟩ := h
  cases e <;> exact ⟨rfl, rfl⟩

theorem mirrors_foldl (h : b.Mirrors q) (es : List Edit) :
    (es.foldl Builders.edit b).Mirrors (es.foldl QueryPair.edit q) := by
  induction es generalizing b q with
  | nil => exact h
  | cons e es ih => exact ih (h.edit e)

end Builders

namespace QueryPair

variable {δ : Dialect} {q : QueryPair}

/-- The query is made by edits, and the builders that these edits make apart from each other are
its two statements, over one source. -/
def Mirrored (q : QueryPair) (table tableAlias : String) : Prop :=
  ∃ es : List Edit, q = es.foldl edit (.ofTable table tableAlias) ∧
    (es.foldl Builders.edit (.ofTable table tableAlias)).Mirrors q ∧
    (es.foldl Builders.edit (.ofTable table tableAlias)).InStep

theorem mirrored_of_edits {table tableAlias : String} (es : List Edit) :
    Mirrored (es.foldl edit (.ofTable table tableAlias)) table tableAlias :=
  ⟨es, rfl, Builders.mirrors_foldl Builders.mirrors_ofTable es,
    Builders.inStep_foldl Builders.inStep_ofTable es⟩

theorem Mirrored.edit {table tableAlias : String} (h : q.Mirrored table tableAlias) (e : Edit) :
    (q.edit e).Mirrored table tableAlias := by
  obtain ⟨es, rfl, -⟩ := h
  have hes : Mirrored ((es ++ [e]).foldl QueryPair.edit (.ofTable table tableAlias)) table
      tableAlias := mirrored_of_edits (es ++ [e])
  rwa [List.foldl_append] at hes

end QueryPair

namespace Compilation

variable {s : Setting}

theorem mirrored_start (pool : Pool) (uses : Nat) :
    (start s pool uses).query.Mirrored s.root.table (JoinPlan.ofRoot s.root).rootAlias := by
  have hfold : ∀ (ds : List Condition) (q : QueryPair),
      q.Mirrored s.root.table (JoinPlan.ofRoot s.root).rootAlias →
        (ds.foldl QueryPair.addFilter q).Mirrored s.root.table
          (JoinPlan.ofRoot s.root).rootAlias := by
    intro ds
    induction ds with
    | nil => exact fun _ hq => hq
    | cons d ds ih => exact fun q hq => ih _ (hq.edit (.filter d))
  exact hfold _ _ (QueryPair.mirrored_of_edits [])

theorem mirrored_runAll (actions : List Action) (pool : Pool) (uses : Nat) :
    (Action.runAll s actions (start s pool uses)).query.Mirrored s.root.table
      (JoinPlan.ofRoot s.root).rootAlias := by
  have hstart := formed_start (T := Projection.Charsets fun _ => True) (names_true s) pool uses
  have hB : ∀ (q : QueryPair) (e : QueryPair.Edit),
      q.Mirrored s.root.table (JoinPlan.ofRoot s.root).rootAlias →
        (q.edit e).Mirrored s.root.table (JoinPlan.ofRoot s.root).rootAlias :=
    fun _ e hq => hq.edit e
  have hwithin : ∀ a ∈ actions, a.Within (fun _ => True) fun q =>
      q.Mirrored s.root.table (JoinPlan.ofRoot s.root).rootAlias := by
    intro a _
    cases a with
    | projection p => exact p.charsets_true
    | fields p => exact p.charsets_true
    | nested task => exact task.inner.charsets_true
    | edit e => exact fun q hq => hB q e hq
    | _ => trivial
  exact (Action.formed_runAll (names_true s) (fun q e hq _ _ => hB q e hq)
    (fun q x label hq _ => hB q (.field x label) hq) hwithin
    ⟨hstart.plan, mirrored_start pool uses, hstart.primitives, hstart.nested⟩).query

end Compilation

namespace Token

theorem written_around (δ : Dialect) (before behind : String) (ts : List Token) :
    written δ 0 (text before ++ ts ++ text behind)
      = before.toList ++ written δ 0 ts ++ behind.toList := by
  simp [written_append]

end Token

def Select.Grouped (δ : Dialect) (q : Select) : Prop :=
  q.source.groupBy ≠ [] ∨ q.source.having.isSome ∨ ∃ f ∈ q.fields, δ.Aggregate f.expression

namespace QueryPair

variable {δ : Dialect} {q : QueryPair}

def sharedText (δ : Dialect) (q : QueryPair) : String :=
  (Statement.ofFragment δ (q.source.fragment δ)).sql

theorem Placed.toList_sharedText (h : q.Placed) (δ : Dialect) :
    (q.sharedText δ).toList = Token.written δ 0 (q.source.tokens δ) :=
  (Fragment.Aligned.binds (h.source.aligned δ) δ).sql

theorem Placed.sql_rows (h : q.Placed) {st : Statement}
    (hst : st.Binds δ (q.rows.tokens δ) q.source.parameters) :
    st.sql = "SELECT " ++ q.rows.fieldList δ ++ q.sharedText δ ++ q.rows.tail := by
  have hsource : q.rows.source = q.source := rfl
  apply String.toList_inj.1
  rw [hst.sql, Select.tokens, Token.written_around, hsource, ← h.toList_sharedText]
  simp

theorem Placed.sql_count (h : q.Placed) {st : Statement}
    (hst : st.Binds δ (q.countTokens δ) q.source.parameters) :
    st.sql = "SELECT COUNT(*) AS " ++ δ.quote countColumn ++ " FROM (SELECT 0" ++ q.sharedText δ
      ++ ") AS c" := by
  have htokens : q.counted.tokens δ = text "SELECT 0" ++ q.source.tokens δ ++ text "" := rfl
  have hinner : ∀ n, Token.written δ n (q.counted.tokens δ)
      = "SELECT 0".toList ++ Token.written δ n (q.source.tokens δ) := by
    intro n
    rw [htokens]
    simp [Token.written_append]
  apply String.toList_inj.1
  rw [hst.sql, countTokens, Token.written_around, hinner, ← h.toList_sharedText]
  simp

theorem Settled.grouped_iff (h : q.Settled δ) : q.rows.Grouped δ ↔ q.counted.Grouped δ := by
  have hzero : ¬δ.Aggregate "0" := by
    intro hx
    have hstart := Dialect.start_of_aggregate hx
    revert hstart
    decide
  constructor
  · rintro (hg | hh | ⟨f, hf, hx⟩)
    · exact .inl hg
    · exact .inr (.inl hh)
    · exact .inl fun hnil => h.grouped hnil f hf hx
  · rintro (hg | hh | ⟨f, hf, hx⟩)
    · exact .inl hg
    · exact .inr (.inl hh)
    · rw [List.mem_singleton.1 hf] at hx
      exact absurd hx hzero

end QueryPair

/-- Whatever is asked of a compilation, its two statements are those that two builders reach apart
from each other, and range over one source. Served, they share its text and its parameters; a list
with an aggregate is grouped, so both range over the same rows or groups. -/
theorem rows_and_count_in_step (p : Provider) (hp : p.Names Unmarked) :
    (∀ s pool uses actions,
      (Action.runAll s actions (Compilation.start s pool uses)).query.Mirrored s.root.table
        (JoinPlan.ofRoot s.root).rootAlias) ∧
    ∀ q, p.Serves q → ∃ row count,
      q.query.rowStatement p.dialect = .ok row ∧ q.query.countStatement p.dialect = .ok count ∧
      row.sql = "SELECT " ++ q.query.rows.fieldList p.dialect ++ q.query.sharedText p.dialect
        ++ q.query.rows.tail ∧
      count.sql = "SELECT COUNT(*) AS " ++ p.dialect.quote QueryPair.countColumn
        ++ " FROM (SELECT 0" ++ q.query.sharedText p.dialect ++ ") AS c" ∧
      row.params = count.params ∧
      ((∃ f ∈ q.query.fields, p.dialect.Aggregate f.expression) → q.query.source.groupBy ≠ []) ∧
      (q.query.rows.Grouped p.dialect ↔ q.query.counted.Grouped p.dialect) := by
  constructor
  · intro s pool uses actions
    exact Compilation.mirrored_runAll actions pool uses
  · intro q hq
    have hplaced := (Provider.built_of_serves hp hq).1.placed
    have hbinds := (Provider.built_of_serves hp hq).1.binds
    have hsettled := Provider.settled_of_serves hq
    obtain ⟨row, hrow, hr⟩ := hbinds.rows hsettled.fields
    obtain ⟨count, hcount, hc⟩ := hbinds.count
    refine ⟨row, count, hrow, hcount, hplaced.sql_rows hr, hplaced.sql_count hc,
      hr.params.trans hc.params.symm, ?_, hsettled.grouped_iff⟩
    rintro ⟨f, hf, hx⟩ hnil
    exact hsettled.grouped hnil f hf hx

theorem rows_and_count_in_step_blog :
    (Blog.provider .postgres).Names Unmarked ∧
    ∃ q row count, (Blog.provider .postgres).Serves q ∧
      q.query.fields.length = 3 ∧ q.query.source.groupBy.length = 2 ∧
      q.query.rowStatement .postgres = .ok row ∧ q.query.countStatement .postgres = .ok count ∧
      row.params = count.params := by
  obtain ⟨q, uses, hq, hread⟩ := Steps.ok_of_toOption_map
    (m := (Blog.provider .postgres).compile "Post" Blog.request) (s := 0)
    (f := fun q => (q.query.fields.length, q.query.source.groupBy.length)) (b := (3, 2))
    (by decide +kernel)
  obtain ⟨hfields, hgroups⟩ := Prod.mk.inj hread
  have hserves : (Blog.provider .postgres).Serves q := .request hq
  obtain ⟨row, count, hrow, hcount, -, -, hparams, -⟩ :=
    (rows_and_count_in_step (Blog.provider .postgres) (Blog.names _)).2 q hserves
  exact ⟨Blog.names _, q, row, count, hserves, hfields, hgroups, hrow, hcount, hparams⟩

end RecordQuery
