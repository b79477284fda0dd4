import RecordQuery.Proofs.Emission.Names

namespace RecordQuery

variable {δ : Dialect} {N : String → Prop}

inductive Selected (δ : Dialect) (N : String → Prop) : String → Prop
  | plain {x : String} : ColumnRef N x → Selected δ N x
  | applied {x : String} (f : ColumnFunction) : ColumnRef N x →
    (∀ charset, f = .convert (some charset) → N charset) → Selected δ N (f.sql δ x)

namespace QueryPair

inductive Edit
  | field (expression label : String)
  | order (term : OrderTerm)
  | join (j : Join)
  | filter (c : Condition)
  | having (c : Condition)
  | group (expression : String)
  | page (p : Page)

def edit (q : QueryPair) : Edit → QueryPair
  | .field expression label => q.field expression label
  | .order term => q.order term
  | .join j => q.join j
  | .filter c => q.addFilter c
  | .having c => q.addHaving c
  | .group expression => q.group expression
  | .page p => q.setPage p

inductive Edit.Emitted (δ : Dialect) (N : String → Prop) : Edit → Prop
  | field {x label} : Selected δ N x → Emitted δ N (.field x label)
  | orderColumn {x d} : ColumnRef N x → Emitted δ N (.order ⟨x, d⟩)
  | orderLabel {label d} : Emitted δ N (.order ⟨δ.quote label, d⟩)
  | orderRandom {d} : Emitted δ N (.order ⟨δ.random, d⟩)
  | join {j} : Alias j.tableAlias → j.on.Over (ColumnRef N) → Emitted δ N (.join j)
  | filter {c} : c.Over (ColumnRef N) → Emitted δ N (.filter c)
  | having {c} : c.Over (ColumnRef N) → Emitted δ N (.having (Compilation.someRow δ c))
  | group {x} : ColumnRef N x → Emitted δ N (.group x)
  | page {p} : Emitted δ N (.page p)

def Edit.shapes : Edit → Bool
  | .field _ _ => false
  | _ => true

/-- A query made by edits that a compilation emits. -/
inductive Built (δ : Dialect) (N : String → Prop) : QueryPair → Prop
  | table {table tableAlias} : Alias tableAlias → Built δ N (.ofTable table tableAlias)
  | edit {q e} : Built δ N q → e.Emitted δ N → Built δ N (q.edit e)

def Shaped (δ : Dialect) (N : String → Prop) (B : QueryPair → Prop) : Prop :=
  ∀ q e, B q → e.Emitted δ N → e.shapes = true → B (q.edit e)

theorem shaped_built : Shaped δ N (Built δ N) := fun _ _ hq he _ => hq.edit he

end QueryPair

end RecordQuery
