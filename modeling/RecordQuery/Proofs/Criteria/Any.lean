import RecordQuery.Proofs.Emission.Serving
import RecordQuery.Proofs.Selection.Amending
import RecordQuery.Proofs.Sql.Rows

namespace RecordQuery

open Steps

theorem QueryPair.foldl_addFilter (ds : List Condition) (q : QueryPair) :
    ds.foldl QueryPair.addFilter q =
      { q with source :=
          { q.source with filter := ds.foldl Source.conjoin q.source.filter } } := by
  induction ds generalizing q with
  | nil => rfl
  | cons d ds ih =>
    rw [List.foldl_cons, ih]
    rfl

namespace Predicates

def added (connective : Connective) (p : Predicates) : List Condition :=
  (if p.expression.isEmpty then [] else [.combine connective p.expression]) ++ p.statement

theorem satisfies_added {ρ : Type} (db : Database ρ) (b : Binding ρ) (p : Predicates) :
    (∀ d ∈ p.added .or, db.satisfies b d = true) ↔
      (p.expression = [] ∨ ∃ d ∈ p.expression, db.satisfies b d = true) ∧
        ∀ d ∈ p.statement, db.satisfies b d = true := by
  unfold added
  rw [List.forall_mem_append]
  apply and_congr_left'
  split
  · next h => simp [List.isEmpty_iff.1 h]
  · rw [List.forall_mem_singleton, Database.satisfies_any]

theorem foldl_push (ps : List Predicate) (acc : Predicates) (d : Condition) :
    (d ∈ (ps.foldl push acc).expression ↔ d ∈ acc.expression ∨ .combined d ∈ ps) ∧
      (d ∈ (ps.foldl push acc).statement ↔ d ∈ acc.statement ∨ .standing d ∈ ps) := by
  induction ps generalizing acc with
  | nil => simp
  | cons p ps ih =>
    rw [List.foldl_cons, (ih _).1, (ih _).2]
    cases p <;> simp [push, or_assoc]

end Predicates

namespace Operator

variable {op : Operator} {column parameter : String} {value : Value} {p : Predicate}

theorem compared_ne_standing {op : Comparison} (h : compared op column value parameter = .ok p)
    (d : Condition) : p ≠ .standing d := by
  unfold compared at h
  split at h
  · cases h
    simp
  · cases h
    simp
  · obtain ⟨v, -, rfl⟩ := except_map_ok h
    simp

theorem listed_ne_standing (op : Comparison) (d : Condition) :
    listed op column value ≠ .standing d := by
  unfold listed
  split <;> simp

theorem standing_iff (h : op.predicate column value parameter = .ok p) :
    (∃ d, p = .standing d) ↔ op = .between := by
  unfold predicate at h
  cases op
  case between =>
    simp only at h
    split at h
    · cases h
      simp
    · cases h
  case equal | notEqual | lessEqual | greaterEqual | lessThan | greaterThan =>
    simp [compared_ne_standing h]
  case like | ilike | ilikeStart =>
    obtain ⟨t, -, rfl⟩ := except_map_ok h
    simp [patterned]
  case isIn | notIn =>
    cases h
    simp [listed_ne_standing]
  case isNull | isNotNull =>
    cases h
    simp
  case has => cases h

end Operator

namespace Compilation

variable {s : Setting} {bag : Value} {single : Bool} {base : String} {c c' c₀ : Compilation}

/-- The predicate that a criterion gives, if any. -/
inductive Answers (s : Setting) (bag : Value) (single : Bool) (base : String) (item : Criterion) :
    Option Predicate → Prop
  | missing {uses} : (item.value? bag single uses).1 = none → item.operator.takesValue = true →
    Answers s bag single base item none
  | found {uses value start t r p} : (item.value? bag single uses).1 = value →
    (value = none → item.operator.takesValue = false) →
    Arrived s (Path.under base item.path) .left start t r →
    item.operator.predicate r.column (value.getD .null) item.parameter = .ok p →
    Answers s bag single base item (some p)

structure Rests (c c' : Compilation) : Prop where
  filter : c'.query.source.filter = c.query.source.filter
  having : c'.query.source.having = c.query.source.having
  grouped : c'.grouped = c.grouped

theorem rests_planned {t : Planning} {mode : JoinMode} {waiting : Option ScopedPredicate}
    (h : Planning.Run s.schema s.root mode (c.planning waiting) t) : Rests c (c.planned t) := by
  obtain ⟨js, hjs⟩ := h.query
  have hquery : (c.planned t).query = { c.query with source := { c.query.source with
      joins := c.query.source.joins ++ js } } := hjs
  exact ⟨by rw [hquery], by rw [hquery], rfl⟩

theorem ensures_criterion (item : Criterion) :
    Ensures (Rests c₀) (criterion s bag single base item)
      fun o t => Rests c₀ t ∧ Answers s bag single base item (o.map Prod.fst) := by
  constructor
  intro c hc o c' h
  obtain ⟨value, hv, ⟨rfl, rfl, htakes, rfl⟩ | ⟨r, p, hnone, hr, hp, rfl⟩⟩ := criterion_ok h
  · exact ⟨⟨hc.filter, hc.having, hc.grouped⟩, .missing hv htakes⟩
  · obtain ⟨t, harrived, rfl⟩ := resolve_ok hr
    have hrests := rests_planned harrived.run
    exact ⟨⟨hrests.filter.trans hc.filter, hrests.having.trans hc.having,
      hrests.grouped.trans hc.grouped⟩, .found hv hnone harrived hp⟩

theorem forM_addFilter (ds : List Condition) (c : Compilation) :
    (ds.forM fun d => onQuery (·.addFilter d)) c
      = (.ok ⟨⟩, { c with query := ds.foldl QueryPair.addFilter c.query }) := by
  induction ds generalizing c with
  | nil => rfl
  | cons d ds ih => exact (bind_of_ok (modify_apply _ c)).trans (ih _)

theorem placeAll_filters (connective : Connective) (found : List (Predicate × Bool))
    (hc : (found.any Prod.snd && c.grouped) = false) :
    placeAll s connective found c = (.ok ⟨⟩, { c with
      query := (((found.map Prod.fst).foldl Predicates.push .empty).added connective).foldl
        QueryPair.addFilter c.query }) := by
  have hplace : ∀ d, place s (found.any Prod.snd) d c
      = (.ok ⟨⟩, { c with query := c.query.addFilter d }) := by
    intro d
    simp [place, modify_apply, hc]
  have hpure : (pure () : Steps Compilation Unit) c = (.ok (), c) := rfl
  unfold placeAll Predicates.added
  split
  · rw [bind_of_ok hpure, forM_addFilter]
    rfl
  · rw [bind_of_ok (hplace _), forM_addFilter]
    rfl

theorem criteria_added {spec : CriteriaSpec} (hc : c.grouped = false)
    (h : criteria s spec bag base c = (.ok ⟨⟩, c')) :
    ∃ found : List (Option Predicate),
      List.Forall₂ (Answers s bag (spec.items.length = 1) base) spec.items found ∧
      c'.query.source.having = c.query.source.having ∧
      c'.query.source.filter = (((found.filterMap id).foldl Predicates.push .empty).added
        spec.connective).foldl Source.conjoin c.query.source.filter := by
  obtain ⟨found, c₁, hfound, hplace⟩ := bind_ok h
  obtain ⟨hrests, hanswers⟩ :=
    (ensures_mapM_forall₂ fun item _ => ensures_criterion item).ok c ⟨rfl, rfl, rfl⟩ _ _ hfound
  rw [placeAll_filters _ _ (by rw [hrests.grouped, hc, Bool.and_false])] at hplace
  cases hplace
  refine ⟨found.map (Option.map Prod.fst), List.forall₂_map_right_iff.2 hanswers, ?_, ?_⟩
  · rw [QueryPair.foldl_addFilter]
    exact hrests.having
  · have hps : (found.filterMap id).map Prod.fst =
        (found.map (Option.map Prod.fst)).filterMap id := by
      rw [List.map_filterMap, List.filterMap_map]
      rfl
    rw [QueryPair.foldl_addFilter, hps, ← hrests.filter]

/-- Criteria under OR on rows. They ask for one of the predicates under the connective, if there are
any, and for every range; without a predicate they ask for nothing. Only ranges stand by themselves,
and only criteria with a value or an operator that needs none give predicates. -/
theorem any_disjoins {items : List Criterion} (hc : c.grouped = false)
    (h : criteria s ⟨.or, items⟩ bag base c = (.ok ⟨⟩, c')) :
    ∃ found : List (Option Predicate),
      List.Forall₂ (fun item o => Answers s bag (items.length = 1) base item o ∧
        ∀ p, o = some p → ((∃ d, p = .standing d) ↔ item.operator = .between)) items found ∧
      ((∀ o ∈ found, o = none) → c'.query.source.filter = c.query.source.filter) ∧
      c'.query.source.having = c.query.source.having ∧
      ∀ {ρ : Type} (db : Database ρ) (b : Binding ρ),
        c'.query.source.filter.all (db.satisfies b) = true ↔
          c.query.source.filter.all (db.satisfies b) = true ∧
          ((∀ d, some (.combined d) ∉ found) ∨
            ∃ d, some (.combined d) ∈ found ∧ db.satisfies b d = true) ∧
          ∀ d, some (.standing d) ∈ found → db.satisfies b d = true := by
  obtain ⟨found, hanswers, hhaving, hfilter⟩ := criteria_added hc h
  have hcombined : ∀ d, d ∈ ((found.filterMap id).foldl Predicates.push .empty).expression ↔
      some (.combined d) ∈ found := by
    intro d
    simp [(Predicates.foldl_push _ _ d).1, Predicates.empty]
  have hstanding : ∀ d, d ∈ ((found.filterMap id).foldl Predicates.push .empty).statement ↔
      some (.standing d) ∈ found := by
    intro d
    simp [(Predicates.foldl_push _ _ d).2, Predicates.empty]
  refine ⟨found, ?_, ?_, hhaving, ?_⟩
  · refine hanswers.imp fun item o ho => ⟨ho, fun p hp => ?_⟩
    rw [hp] at ho
    cases ho with
    | found _ _ _ hpredicate => exact Operator.standing_iff hpredicate
  · intro hnone
    have hempty : found.filterMap id = [] := List.filterMap_eq_nil_iff.2 hnone
    rw [hfilter, hempty]
    rfl
  · intro ρ db b
    rw [hfilter, Database.satisfies_conjoin, Predicates.satisfies_added]
    simp only [List.eq_nil_iff_forall_not_mem, hcombined, hstanding]

def blog : Setting := ⟨Blog.schema, Blog.post, .sqlite, fun _ => false⟩

def titledOrWithin : CriteriaSpec :=
  ⟨.or, [⟨"title", "title", .equal, none⟩, ⟨"ids", "id", .between, none⟩]⟩

def annAndTwo : Value := .record [("title", .text "Ann"), ("ids", .list [.int 1, .int 2])]

theorem any_disjoins_blog :
    (start blog [] 0).grouped = false ∧
    (criteria blog titledOrWithin annAndTwo "" (start blog [] 0)).1 = .ok ⟨⟩ ∧
    ∃ combined range, Answers blog annAndTwo false "" ⟨"title", "title", .equal, none⟩ combined ∧
      Answers blog annAndTwo false "" ⟨"ids", "id", .between, none⟩ range ∧
      ∀ p, range = some p → ∃ d, p = .standing d := by
  have h : criteria blog titledOrWithin annAndTwo "" (start blog [] 0)
      = (.ok ⟨⟩, (criteria blog titledOrWithin annAndTwo "" (start blog [] 0)).2) := rfl
  obtain ⟨found, hfound, -⟩ := any_disjoins rfl h
  cases hfound with
  | cons htitle hrest =>
    cases hrest with
    | cons hids hnil =>
      exact ⟨rfl, rfl, _, _, htitle.1, hids.1, fun p hp => (hids.2 p hp).2 rfl⟩

/-- A row with the title and without an id in the range is filtered out; and a criterion without a
value filters if its operator needs none. -/
theorem any_row_refused :
    (∃ c', criteria blog titledOrWithin annAndTwo "" (start blog [] 0) = (.ok ⟨⟩, c') ∧
      (start blog [] 0).grouped = false ∧ (start blog [] 0).query.source.filter.isNone ∧
      c'.query.source.filter.map (·.fragment.sql)
        = some "(post_1.title = ? AND post_1.id BETWEEN ? AND ?)" ∧
      ∃ (db : Database Unit) (b : Binding Unit),
        db.satisfies b (.eq "post_1.title" (.text "Ann")) = true ∧
        c'.query.source.filter.all (db.satisfies b) = false) ∧
    ∃ c', criteria blog ⟨.or, [⟨"title", "title", .isNull, none⟩]⟩ (.record []) ""
        (start blog [] 0) = (.ok ⟨⟩, c') ∧ c'.query.source.filter.isSome := by
  refine ⟨⟨_, rfl, rfl, rfl, by decide +kernel,
    ⟨fun _ => [], fun _ d => match d with | .compare .. => true | _ => false⟩, [], rfl,
    by decide +kernel⟩, _, rfl, by decide +kernel⟩

end Compilation

end RecordQuery
