import Mathlib.Data.List.Forall2
import Mathlib.Data.Option.Basic
import RecordQuery.Proofs.Steps
import RecordQuery.Provider.Compile

/-!
Two compilations side by side. A likeness says which values and pools are alike and what is seen of
a condition; its laws are all that a compilation needs to take the same steps on both sides and to
end with queries that look alike.
-/

namespace RecordQuery

open Steps

def StaticValue.Constant : StaticValue → Prop
  | .fixed _ => True
  | .computed compute => ∀ i j, compute i = compute j

def CriteriaSpec.Constant (spec : CriteriaSpec) : Prop :=
  ∀ item ∈ spec.items, ∀ v ∈ item.value, v.Constant

/-- Both records, field by field, or both bare values. -/
inductive Bags (V : Value → Value → Prop) : Value → Value → Prop
  | records {f g : Record} : (∀ key, Option.Rel V (f.get? key) (g.get? key)) →
    Bags V (.record f) (.record g)
  | bare {v w : Value} : v.fields? = none → w.fields? = none → V v w → Bags V v w

def Pool.asking (pool : Pool) : Pool := pool.filter fun entry => !entry.2.isNull

inductive Predicates.Like (view : Condition → Condition) : Predicate → Predicate → Prop
  | combined {c d} : view c = view d → Like view (.combined c) (.combined d)
  | standing {c d} : view c = view d → Like view (.standing c) (.standing d)

namespace Condition

/-- A view that sees a group as the group of what it sees in it, and takes nothing else for one. -/
structure Inward (view : Condition → Condition) : Prop where
  group : ∀ op conditions, view (.group op conditions) = .group op (conditions.map view)
  of_group : ∀ c op conditions, view c = .group op conditions → ∃ inner, c = .group op inner

variable {view : Condition → Condition}

theorem Inward.andAlso (h : Inward view) (c d : Condition) :
    view (c.andAlso d) = (view c).andAlso (view d) := by
  have hnew : ∀ e : Condition, (∀ conditions, e ≠ .group .and conditions) →
      ∀ d, e.andAlso d = .group .and [e, d] := by
    intro e he d
    cases e with
    | group op conditions =>
      cases op with
      | and => exact absurd rfl (he conditions)
      | or => rfl
    | _ => rfl
  by_cases hc : ∃ conditions, c = .group .and conditions
  · obtain ⟨conditions, rfl⟩ := hc
    rw [h.group]
    simp only [Condition.andAlso, h.group, List.map_append, List.map_cons, List.map_nil]
  · have hview : ∀ conditions, view c ≠ .group .and conditions :=
      fun conditions hv => hc (h.of_group c .and conditions hv)
    rw [hnew c (fun conditions hv => hc ⟨conditions, hv⟩), hnew _ hview, h.group]
    rfl

theorem Inward.combine (h : Inward view) (op : Connective) (conditions : List Condition) :
    view (.combine op conditions) = .combine op (conditions.map view) := by
  cases conditions with
  | nil => exact h.group op []
  | cons c rest =>
    cases rest with
    | nil => rfl
    | cons d rest => exact h.group op (c :: d :: rest)

end Condition

structure Likeness where
  value : Value → Value → Prop
  /-- What is seen of a condition. -/
  view : Condition → Condition
  pool : Pool → Pool → Prop
  nestable : String → Prop
  bags : Value → Value → Prop
  value_refl : ∀ v, value v v
  isNull_eq : ∀ {v w}, value v w → v.isNull = w.isNull
  bags_alike : ∀ {v w}, bags v w → Bags value v w
  view_andAlso : ∀ c d, view (c.andAlso d) = (view c).andAlso (view d)
  view_combine : ∀ op cs, view (.combine op cs) = .combine op (cs.map view)
  view_someRow : ∀ δ {c d}, view c = view d →
    view (Compilation.someRow δ c) = view (Compilation.someRow δ d)
  predicate : ∀ (op : Operator) column parameter {v w}, value v w →
    Both (Predicates.Like view) (op.predicate column v parameter) (op.predicate column w parameter)
  field : ∀ {a b}, pool a b → ∀ name parameter,
    Option.Rel value ((a.get? name).bind (Value.field? parameter))
      ((b.get? name).bind (Value.field? parameter))
  bag : ∀ {a b}, pool a b → ∀ name, nestable name →
    Option.Rel bags (a.get? name) (b.get? name)
  remove : ∀ {a b}, pool a b → ∀ name, pool (a.swapRemove name) (b.swapRemove name)
  asking : ∀ {a b}, pool a b →
    List.Forall₂ (fun x y => x.1 = y.1 ∧ Bags value x.2 y.2) (Pool.asking a) (Pool.asking b)

namespace Likeness

variable (L : Likeness)

def join (j : Join) : Join := { j with on := L.view j.on }

def source (s : Source) : Source :=
  { s with
    joins := s.joins.map L.join, filter := s.filter.map L.view, having := s.having.map L.view }

def query (q : QueryPair) : QueryPair := { q with source := L.source q.source }

theorem conjoin_view (existing : Option Condition) (c : Condition) :
    (Source.conjoin existing c).map L.view = Source.conjoin (existing.map L.view) (L.view c) := by
  cases existing with
  | none => rfl
  | some e => exact congrArg some (L.view_andAlso e c)

@[simp] theorem query_field (q : QueryPair) (x label : String) :
    L.query (q.field x label) = (L.query q).field x label := rfl

@[simp] theorem query_order (q : QueryPair) (t : OrderTerm) :
    L.query (q.order t) = (L.query q).order t := rfl

@[simp] theorem query_setPage (q : QueryPair) (p : Page) :
    L.query (q.setPage p) = (L.query q).setPage p := rfl

@[simp] theorem query_join (q : QueryPair) (j : Join) :
    L.query (q.join j) = (L.query q).join (L.join j) := by
  simp [query, source, QueryPair.join, Source.join]

@[simp] theorem query_addFilter (q : QueryPair) (c : Condition) :
    L.query (q.addFilter c) = (L.query q).addFilter (L.view c) := by
  simp [query, source, QueryPair.addFilter, Source.addFilter, conjoin_view]

@[simp] theorem query_addHaving (q : QueryPair) (c : Condition) :
    L.query (q.addHaving c) = (L.query q).addHaving (L.view c) := by
  simp [query, source, QueryPair.addHaving, Source.addHaving, conjoin_view]

@[simp] theorem query_group (q : QueryPair) (x : String) :
    L.query (q.group x) = (L.query q).group x := by
  by_cases h : x ∈ q.source.groupBy <;> simp [query, QueryPair.group, Source.group, source, h]

theorem query_foldl_group (xs : List String) (q : QueryPair) :
    L.query (xs.foldl QueryPair.group q) = xs.foldl QueryPair.group (L.query q) := by
  induction xs generalizing q with
  | nil => rfl
  | cons x xs ih =>
    rw [List.foldl_cons, List.foldl_cons, ← L.query_group]
    exact ih (q.group x)

theorem isNull_bags {v w : Value} (h : Bags L.value v w) : v.isNull = w.isNull := by
  cases h with
  | records => rfl
  | bare _ _ hvw => exact L.isNull_eq hvw

theorem requested {v w : Value} (h : Bags L.value v w) (item : Criterion) (single : Bool) :
    Option.Rel L.value (item.requested? v single) (item.requested? w single) := by
  cases h with
  | records h => exact h item.parameter
  | bare hv hw hvw =>
    have hbare : ∀ u : Value, u.fields? = none →
        item.requested? u single = if single then some u else none := by
      intro u hu
      cases u <;> first | rfl | cases hu
    rw [hbare v hv, hbare w hw]
    cases single with
    | true => exact .some hvw
    | false => exact .none

structure Scoped (p q : ScopedPredicate) : Prop where
  path : p.path = q.path
  operator : p.operator = q.operator
  value : L.value p.value q.value
  parameter : p.parameter = q.parameter
  applied : p.applied = q.applied

theorem scopedPredicate {a b : Pool} (h : L.pool a b) (base : String) (leaf : FieldLeaf) :
    Option.Rel L.Scoped (Compilation.scopedPredicate? a base leaf)
      (Compilation.scopedPredicate? b base leaf) := by
  have heq : ∀ pool : Pool, Compilation.scopedPredicate? pool base leaf =
      leaf.criterion.bind fun k => ((pool.get? k.criterion).bind (Value.field? k.parameter)).map
        fun v => ⟨Path.under base k.path, k.operator, v, k.parameter, false⟩ := by
    intro pool
    unfold Compilation.scopedPredicate?
    cases leaf.criterion with
    | none => rfl
    | some k =>
      cases hget : pool.get? k.criterion with
      | none => simp [hget]
      | some v => cases hfield : v.field? k.parameter <;> simp [hget, hfield]
  rw [heq, heq]
  cases leaf.criterion with
  | none => exact .none
  | some k =>
    have hfield := L.field h k.criterion k.parameter
    simp only [Option.bind_some]
    revert hfield
    generalize (a.get? k.criterion).bind (Value.field? k.parameter) = x
    generalize (b.get? k.criterion).bind (Value.field? k.parameter) = y
    rintro (hvw | _)
    · exact .some ⟨rfl, rfl, hvw, rfl, rfl⟩
    · exact .none

end Likeness

end RecordQuery
