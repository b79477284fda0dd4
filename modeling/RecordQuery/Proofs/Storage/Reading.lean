import RecordQuery.Proofs.Evolution
import RecordQuery.Proofs.Storage.Origin

namespace RecordQuery

variable {δ : Dialect} {R R' : String → Prop}

inductive Lists (δ : Dialect) (R : String → Prop) : String → Prop
  | plain {x : String} : R x → Lists δ R x
  | applied {x : String} (f : ColumnFunction) : R x → Lists δ R (f.sql δ x)

inductive Orders (δ : Dialect) (R : String → Prop) : String → Prop
  | column {x : String} : R x → Orders δ R x
  | label (name : String) : Orders δ R (δ.quote name)
  | random : Orders δ R δ.random

theorem Lists.mono (hR : ∀ x, R x → R' x) {x : String} (h : Lists δ R x) : Lists δ R' x := by
  cases h with
  | plain hx => exact .plain (hR _ hx)
  | applied f hx => exact .applied f (hR _ hx)

theorem Orders.mono (hR : ∀ x, R x → R' x) {x : String} (h : Orders δ R x) : Orders δ R' x := by
  cases h with
  | column hx => exact .column (hR _ hx)
  | label name => exact .label name
  | random => exact .random

namespace Condition

inductive OverRows (δ : Dialect) (R : String → Prop) : Condition → Prop
  | someRow {c : Condition} : c.Over R → OverRows δ R (Compilation.someRow δ c)
  | group {op : Connective} {conditions : List Condition} :
    (∀ c ∈ conditions, OverRows δ R c) → OverRows δ R (.group op conditions)

variable {c d : Condition} {o : Option Condition}

theorem OverRows.mono (hR : ∀ x, R x → R' x) (h : c.OverRows δ R) : c.OverRows δ R' := by
  induction h with
  | someRow hc => exact .someRow (hc.mono hR)
  | group _ ih => exact .group ih

theorem conjoin_of {P : Condition → Prop}
    (hgroup : ∀ op conditions, P (.group op conditions) ↔ ∀ c ∈ conditions, P c)
    (ho : ∀ c ∈ o, P c) (hd : P d) : ∀ c ∈ Source.conjoin o d, P c := by
  cases o with
  | none =>
    rintro c ⟨rfl⟩
    exact hd
  | some e =>
    rintro c ⟨rfl⟩
    have he := ho e rfl
    unfold andAlso
    split
    · rw [hgroup] at he ⊢
      exact List.forall_mem_append.2 ⟨he, List.forall_mem_singleton.2 hd⟩
    · rw [hgroup]
      simpa using ⟨he, hd⟩

theorem over_group (op : Connective) (conditions : List Condition) :
    (Condition.group op conditions).Over R ↔ ∀ c ∈ conditions, c.Over R := by
  refine ⟨fun h => ?_, .group⟩
  cases h with
  | group h => exact h

theorem overRows_group (op : Connective) (conditions : List Condition) :
    (Condition.group op conditions).OverRows δ R ↔ ∀ c ∈ conditions, c.OverRows δ R := by
  refine ⟨fun h => ?_, .group⟩
  cases h with
  | group h => exact h

end Condition

namespace QueryPair

/-- The columns of the query, wherever it names them, satisfy `R`. -/
structure Reads (δ : Dialect) (R : String → Prop) (q : QueryPair) : Prop where
  fields : ∀ f ∈ q.fields, Lists δ R f.expression
  joins : ∀ j ∈ q.source.joins, j.on.Over R
  filter : ∀ c ∈ q.source.filter, c.Over R
  groupBy : ∀ x ∈ q.source.groupBy, R x
  having : ∀ c ∈ q.source.having, c.OverRows δ R
  orderBy : ∀ t ∈ q.orderBy, Orders δ R t.expression

inductive Edit.Reads (δ : Dialect) (R : String → Prop) : Edit → Prop
  | field {x label : String} : Lists δ R x → Reads δ R (.field x label)
  | order {t : OrderTerm} : Orders δ R t.expression → Reads δ R (.order t)
  | filter {c : Condition} : c.Over R → Reads δ R (.filter c)
  | having {c : Condition} : c.Over R → Reads δ R (.having (Compilation.someRow δ c))
  | group {x : String} : R x → Reads δ R (.group x)
  | page {p : Page} : Reads δ R (.page p)

variable {q : QueryPair} {e : Edit}

theorem Reads.mono (hR : ∀ x, R x → R' x) (h : q.Reads δ R) : q.Reads δ R' where
  fields f hf := (h.fields f hf).mono hR
  joins j hj := (h.joins j hj).mono hR
  filter c hc := (h.filter c hc).mono hR
  groupBy x hx := hR x (h.groupBy x hx)
  having c hc := (h.having c hc).mono hR
  orderBy t ht := (h.orderBy t ht).mono hR

theorem Edit.Reads.mono (hR : ∀ x, R x → R' x) (h : e.Reads δ R) : e.Reads δ R' := by
  cases h with
  | field hx => exact .field (hx.mono hR)
  | order ht => exact .order (ht.mono hR)
  | filter hc => exact .filter (hc.mono hR)
  | having hc => exact .having (hc.mono hR)
  | group hx => exact .group (hR _ hx)
  | page => exact .page

theorem Reads.edit (h : q.Reads δ R) (he : e.Reads δ R) : (q.edit e).Reads δ R := by
  cases he with
  | field hx =>
    refine ⟨?_, h.joins, h.filter, h.groupBy, h.having, h.orderBy⟩
    exact List.forall_mem_append.2 ⟨h.fields, List.forall_mem_singleton.2 hx⟩
  | order ht =>
    refine ⟨h.fields, h.joins, h.filter, h.groupBy, h.having, ?_⟩
    exact List.forall_mem_append.2 ⟨h.orderBy, List.forall_mem_singleton.2 ht⟩
  | filter hc =>
    exact ⟨h.fields, h.joins, Condition.conjoin_of Condition.over_group h.filter hc, h.groupBy,
      h.having, h.orderBy⟩
  | having hc =>
    exact ⟨h.fields, h.joins, h.filter, h.groupBy,
      Condition.conjoin_of Condition.overRows_group h.having (.someRow hc), h.orderBy⟩
  | @group x hx =>
    change (q.group x).Reads δ R
    unfold QueryPair.group Source.group
    split
    · exact h
    · refine ⟨h.fields, h.joins, h.filter, ?_, h.having, h.orderBy⟩
      exact List.forall_mem_append.2 ⟨h.groupBy, List.forall_mem_singleton.2 hx⟩
  | page => exact ⟨h.fields, h.joins, h.filter, h.groupBy, h.having, h.orderBy⟩

theorem Reads.foldl_group {xs : List String} (h : q.Reads δ R) (hxs : ∀ x ∈ xs, R x) :
    (xs.foldl QueryPair.group q).Reads δ R := by
  induction xs generalizing q with
  | nil => exact h
  | cons x xs ih =>
    obtain ⟨hx, hxs⟩ := List.forall_mem_cons.1 hxs
    exact ih (h.edit (.group hx)) hxs

theorem Edit.Reads.joined (he : e.Reads δ R) (q : QueryPair) :
    (q.edit e).source.table = q.source.table ∧
      (q.edit e).source.tableAlias = q.source.tableAlias ∧
      (q.edit e).source.joins = q.source.joins := by
  cases he with
  | @group x =>
    obtain ⟨groupBy, hgroup⟩ := q.source.group_eq x
    simp only [edit, QueryPair.group, hgroup, and_self]
  | _ => exact ⟨rfl, rfl, rfl⟩

end QueryPair

end RecordQuery
