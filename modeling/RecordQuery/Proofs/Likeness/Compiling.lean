import RecordQuery.Proofs.Likeness.Planning
import RecordQuery.Proofs.Projection

namespace RecordQuery.Compilation

open Steps
open Planning (parallel_same)

variable {L : Likeness} {s : Setting}

def Fitting (L : Likeness) (options : NestedOptions) : Prop :=
  ∀ criteria ∈ options.criteria, L.nestable criteria.name ∧ criteria.spec.Constant

def Fits (L : Likeness) : Projection → Prop := Projection.Every (fun _ => True) (Fitting L)

structure TaskAlike (L : Likeness) (t u : NestedTask) : Prop where
  path : t.path = u.path
  parent : t.parent = u.parent
  options : t.options = u.options
  inner : t.inner = u.inner
  criteria : Option.Rel L.bags t.criteria u.criteria
  pool : L.pool t.pool u.pool
  fitting : Fitting L t.options
  fits : Fits L t.inner

structure Alike (L : Likeness) (c d : Compilation) : Prop where
  plan : c.plan = d.plan
  query : L.query c.query = L.query d.query
  primitives : c.primitives = d.primitives
  handlers : c.handlers = d.handlers
  nested : List.Forall₂ (TaskAlike L) c.nested d.nested
  dependencies : c.dependencies = d.dependencies
  middlewares : c.middlewares = d.middlewares
  grouped : c.grouped = d.grouped
  pool : L.pool c.pool d.pool

theorem Alike.withQuery {c d : Compilation} (h : Alike L c d) {q r : QueryPair}
    (hq : L.query q = L.query r) : Alike L { c with query := q } { d with query := r } :=
  ⟨h.plan, hq, h.primitives, h.handlers, h.nested, h.dependencies, h.middlewares, h.grouped, h.pool⟩

theorem parallel_onQuery {f g : QueryPair → QueryPair}
    (h : ∀ q r, L.query q = L.query r → L.query (f q) = L.query (g r)) :
    Parallel (Alike L) (onQuery f) (onQuery g) (fun _ _ => True) :=
  parallel_modify fun c d hcd => hcd.withQuery (h c.query d.query hcd.query)

theorem parallel_field (x label : String) :
    Parallel (Alike L) (onQuery (·.field x label)) (onQuery (·.field x label))
      (fun _ _ => True) := by
  apply parallel_onQuery
  intro q r h
  rw [L.query_field, L.query_field, h]

theorem parallel_order (t : OrderTerm) :
    Parallel (Alike L) (onQuery (·.order t)) (onQuery (·.order t)) (fun _ _ => True) := by
  apply parallel_onQuery
  intro q r h
  rw [L.query_order, L.query_order, h]

theorem parallel_setPage (page : Page) :
    Parallel (Alike L) (onQuery (·.setPage page)) (onQuery (·.setPage page))
      (fun _ _ => True) := by
  apply parallel_onQuery
  intro q r h
  rw [L.query_setPage, L.query_setPage, h]

theorem parallel_filter {c d : Condition} (h : L.view c = L.view d) :
    Parallel (Alike L) (onQuery (·.addFilter c)) (onQuery (·.addFilter d))
      (fun _ _ => True) := by
  apply parallel_onQuery
  intro q r hqr
  rw [L.query_addFilter, L.query_addFilter, hqr, h]

theorem parallel_addPrimitive (x : String) :
    Parallel (Alike L) (addPrimitive x) (addPrimitive x) (fun _ _ => True) := by
  apply parallel_modify
  intro c d h
  rw [h.primitives]
  split
  · exact h
  · exact ⟨h.plan, h.query, rfl, h.handlers, h.nested, h.dependencies, h.middlewares, h.grouped,
      h.pool⟩

theorem parallel_addHandlers (handlers : List Handler) :
    Parallel (Alike L) (addHandlers handlers) (addHandlers handlers) (fun _ _ => True) := by
  apply parallel_modify
  intro c d h
  exact ⟨h.plan, h.query, h.primitives, congrArg (· ++ handlers) h.handlers, h.nested,
    h.dependencies, h.middlewares, h.grouped, h.pool⟩

theorem parallel_dependency (entity : String) :
    Parallel (Alike L) (dependency entity) (dependency entity) Eq := by
  apply parallel_bind parallel_get
  intro c d h
  rw [h.dependencies]
  cases d.dependencies.idxOf? entity with
  | some i => exact parallel_pure rfl
  | none =>
    apply parallel_bind (parallel_set ⟨h.plan, h.query, h.primitives, h.handlers, h.nested, rfl,
      h.middlewares, h.grouped, h.pool⟩)
    intro _ _ _
    exact parallel_pure rfl

theorem parallel_takeFromPool (name : String) :
    Parallel (Alike L) (takeFromPool name) (takeFromPool name)
      (fun v w => L.nestable name → Option.Rel L.bags v w) := by
  apply parallel_bind parallel_get
  intro c d h
  apply parallel_bind (parallel_set ⟨h.plan, h.query, h.primitives, h.handlers, h.nested,
    h.dependencies, h.middlewares, h.grouped, L.remove h.pool name⟩)
  intro _ _ _
  exact parallel_pure fun hn => L.bag h.pool name hn

theorem parallel_setMiddlewares (p : Projection) :
    Parallel (Alike L) (setMiddlewares p) (setMiddlewares p) (fun _ _ => True) := by
  apply parallel_modify
  intro c d h
  exact ⟨h.plan, h.query, h.primitives, h.handlers, h.nested, h.dependencies, rfl, h.grouped,
    h.pool⟩

theorem parallel_resolveScoped (path : String) (mode : JoinMode)
    {p q : Option ScopedPredicate} (h : Option.Rel L.Scoped p q) :
    Parallel (Alike L) (resolveScoped s path mode p) (resolveScoped s path mode q) Eq := by
  intro c d hcd
  have hr := Planning.parallel_resolve s.schema s.root path mode ⟨c.plan, c.query, p⟩
    ⟨d.plan, d.query, q⟩ ⟨hcd.plan, hcd.query, h⟩
  unfold resolveScoped
  rcases hx : Planning.resolve s.schema s.root path mode ⟨c.plan, c.query, p⟩ with ⟨x, t⟩
  rcases hy : Planning.resolve s.schema s.root path mode ⟨d.plan, d.query, q⟩ with ⟨y, u⟩
  rw [hx, hy] at hr
  have happlied : t.waiting.any ScopedPredicate.applied = u.waiting.any ScopedPredicate.applied := by
    have hwaiting := hr.1.waiting
    revert hwaiting
    generalize t.waiting = v
    generalize u.waiting = w
    rintro (hvw | _)
    · exact hvw.applied
    · rfl
  refine ⟨⟨hr.1.plan, hr.1.query, hcd.primitives, hcd.handlers, hcd.nested, hcd.dependencies,
    hcd.middlewares, hcd.grouped, hcd.pool⟩, ?_⟩
  apply hr.2.map
  rintro r _ rfl
  rw [happlied]

theorem parallel_resolve (path : String) (mode : JoinMode) :
    Parallel (Alike L) (resolve s path mode) (resolve s path mode) Eq := by
  apply parallel_bind (parallel_resolveScoped path mode .none)
  rintro x _ rfl
  exact parallel_pure rfl

theorem parallel_deferList (path parent : String) {options : NestedOptions} {inner : Projection}
    (ho : Fitting L options) (hi : Fits L inner) :
    Parallel (Alike L) (deferList path parent options inner) (deferList path parent options inner)
      (fun _ _ => True) := by
  apply parallel_bind (Q := Option.Rel L.bags)
  · unfold takeCriteria
    cases hc : options.criteria with
    | none => exact parallel_pure .none
    | some criteria =>
      exact (parallel_takeFromPool criteria.name).weaken fun _ _ h => h (ho criteria hc).1
  · intro v w hvw
    apply parallel_modify
    intro c d h
    refine ⟨h.plan, h.query, h.primitives, h.handlers, ?_, h.dependencies, h.middlewares, h.grouped,
      h.pool⟩
    exact List.rel_append h.nested (.cons ⟨rfl, rfl, rfl, rfl, hvw, h.pool, ho, hi⟩ .nil)

theorem parallel_selectPlain (x label : String) (type : Option SqlType) :
    Parallel (Alike L) (selectPlain x label type) (selectPlain x label type)
      (fun _ _ => True) := by
  apply parallel_bind (parallel_field x label)
  intro _ _ _
  apply parallel_bind (parallel_addPrimitive x)
  intro _ _ _
  exact parallel_addHandlers _

theorem parallel_selectFunction (label : String) (r : Resolved) (f : ColumnFunction) :
    Parallel (Alike L) (selectFunction s label r f) (selectFunction s label r f)
      (fun _ _ => True) := by
  apply parallel_bind (parallel_field _ label)
  intro _ _ _
  apply parallel_bind (Q := fun _ _ => True)
  · apply parallel_ite Iff.rfl
    · exact fun _ => parallel_pure trivial
    · exact fun _ => parallel_addPrimitive _
  intro _ _ _
  exact parallel_addHandlers _

theorem parallel_selectResolved (leaf : FieldLeaf) (r : Resolved) :
    Parallel (Alike L) (selectResolved s leaf r) (selectResolved s leaf r)
      (fun _ _ => True) := by
  unfold selectResolved
  cases leaf.function with
  | none => exact parallel_selectPlain _ _ _
  | some f => exact parallel_selectFunction _ r f

theorem parallel_takeScoped (leaf : FieldLeaf) (applied : Bool) :
    Parallel (Alike L) (takeScoped leaf applied) (takeScoped leaf applied)
      (fun _ _ => True) := by
  unfold takeScoped
  split
  · exact (parallel_takeFromPool _).weaken fun _ _ _ => trivial
  · exact parallel_pure trivial

theorem parallel_selectField (path base : String) (mode : JoinMode) (leaf : FieldLeaf) :
    Parallel (Alike L) (selectField s path base mode leaf) (selectField s path base mode leaf)
      Eq := by
  apply parallel_bind parallel_get
  intro c d h
  apply parallel_bind (parallel_resolveScoped path _ (L.scopedPredicate h.pool base leaf))
  rintro ⟨r, applied⟩ _ rfl
  apply parallel_bind (parallel_takeScoped leaf applied)
  intro _ _ _
  apply parallel_bind (parallel_selectResolved leaf r)
  intro _ _ _
  exact parallel_pure rfl

theorem parallel_selectSiblings (path label : String) (r : Resolved) :
    Parallel (Alike L) (selectSiblings s path label r) (selectSiblings s path label r)
      (fun _ _ => True) := by
  apply parallel_ite Iff.rfl
  · intro _
    apply parallel_bind (parallel_dependency r.entity)
    rintro position _ rfl
    apply parallel_bind (parallel_field _ label)
    intro _ _ _
    apply parallel_bind (parallel_addHandlers _)
    intro _ _ _
    apply parallel_ite Iff.rfl
    · exact fun _ => parallel_addHandlers _
    · exact fun _ => parallel_pure trivial
  · exact fun _ => parallel_throw

theorem parallel_leaf (base : String) (mode : JoinMode) {l : String × Leaf}
    (hl : l.2.Every (fun _ => True) (Fitting L)) :
    Parallel (Alike L) (leaf s base mode l) (leaf s base mode l) Eq := by
  obtain ⟨path, l⟩ := l
  cases l with
  | column label =>
    apply parallel_bind (parallel_resolve _ mode)
    rintro r _ rfl
    apply parallel_bind (Q := fun _ _ => True)
    · apply parallel_ite Iff.rfl
      · exact fun _ => parallel_selectSiblings _ label r
      · exact fun _ => parallel_selectPlain _ label _
    intro _ _ _
    exact parallel_pure rfl
  | field leaf => exact parallel_selectField _ base mode leaf
  | list options inner =>
    apply parallel_bind (parallel_deferList _ base hl.1 hl.2)
    intro _ _ _
    exact parallel_pure rfl

theorem parallel_selectKey (base : String) (mode : JoinMode) :
    Parallel (Alike L) (selectKey s base mode) (selectKey s base mode) (fun _ _ => True) := by
  apply parallel_bind (parallel_resolve _ mode)
  rintro key _ rfl
  apply parallel_bind (parallel_field _ _)
  intro _ _ _
  exact parallel_addPrimitive _

theorem parallel_groupPrimitives (grouped : Bool) :
    Parallel (Alike L) (groupPrimitives grouped) (groupPrimitives grouped)
      (fun _ _ => True) := by
  apply parallel_modify
  intro c d h
  cases grouped with
  | false => exact h
  | true =>
    refine ⟨h.plan, ?_, h.primitives, h.handlers, h.nested, h.dependencies, h.middlewares, rfl,
      h.pool⟩
    simp only [if_true, L.query_foldl_group, h.primitives, h.query]

theorem parallel_fields {p : Projection} (hp : Fits L p) (base : String) (grouped : Bool)
    (mode : JoinMode) :
    Parallel (Alike L) (fields s p base grouped mode) (fields s p base grouped mode) Eq := by
  have hleaves : Parallel (Alike L) (p.leaves.mapM (leaf s base mode))
      (p.leaves.mapM (leaf s base mode)) (List.Forall₂ Eq) := by
    apply parallel_mapM (P := fun l k => l = k ∧ l.2.Every (fun _ => True) (Fitting L))
    · rw [List.forall₂_same]
      exact fun l hl => ⟨rfl, p.every_leaves hp l hl⟩
    · rintro l _ ⟨rfl, hl⟩
      exact parallel_leaf base mode hl
  apply parallel_bind hleaves
  intro bs cs hbs
  rw [List.forall₂_eq_eq_eq] at hbs
  subst hbs
  apply parallel_bind (parallel_selectKey base mode)
  intro _ _ _
  apply parallel_bind (parallel_groupPrimitives _)
  intro _ _ _
  exact parallel_pure rfl

theorem parallel_sortTerm (base : String) (t : SortField) :
    Parallel (Alike L) (sortTerm s base t) (sortTerm s base t) (fun _ _ => True) := by
  apply parallel_bind (Q := Eq)
  · apply parallel_ite Iff.rfl
    · exact fun _ => parallel_pure rfl
    · intro _
      apply parallel_map (parallel_resolve _ _)
      rintro r _ rfl
      rfl
  · rintro x _ rfl
    exact parallel_order _

theorem parallel_sort (base : String) (order : SortSpec) :
    Parallel (Alike L) (sort s base order) (sort s base order) (fun _ _ => True) := by
  cases order with
  | random => exact parallel_order _
  | fields terms =>
    apply parallel_forM (P := Eq)
    · rw [List.forall₂_eq_eq_eq]
    · rintro t _ rfl
      exact parallel_sortTerm base t

theorem value_alike {item : Criterion} (hc : ∀ v ∈ item.value, v.Constant) {bag gab : Value}
    (hb : Bags L.value bag gab) (single : Bool) (i j : Nat) :
    Option.Rel L.value (item.value? bag single i).1 (item.value? gab single j).1 := by
  unfold Criterion.value?
  cases hv : item.value with
  | none => exact L.requested hb item single
  | some v =>
    have hconstant := hc v hv
    cases v with
    | fixed v => exact .some (L.value_refl v)
    | computed compute =>
      have heq : compute (i + 1) = compute (j + 1) := hconstant _ _
      change Option.Rel L.value (some (compute (i + 1))) (some (compute (j + 1)))
      rw [heq]
      exact .some (L.value_refl _)

theorem parallel_criterionValue {item : Criterion} (hc : ∀ v ∈ item.value, v.Constant)
    {bag gab : Value} (hb : Bags L.value bag gab) (single : Bool) :
    Parallel (Alike L) (criterionValue item bag single) (criterionValue item gab single)
      (Option.Rel L.value) := by
  apply parallel_bind parallel_get
  intro c d h
  apply parallel_bind (parallel_set ⟨h.plan, h.query, h.primitives, h.handlers, h.nested,
    h.dependencies, h.middlewares, h.grouped, h.pool⟩)
  intro _ _ _
  exact parallel_pure (value_alike hc hb single _ _)

def FoundAlike (L : Likeness) (x y : Predicate × Bool) : Prop :=
  Predicates.Like L.view x.1 y.1 ∧ x.2 = y.2

theorem parallel_criterion {item : Criterion} (hc : ∀ v ∈ item.value, v.Constant)
    {bag gab : Value} (hb : Bags L.value bag gab) (single : Bool) (base : String) :
    Parallel (Alike L) (criterion s bag single base item) (criterion s gab single base item)
      (Option.Rel (FoundAlike L)) := by
  apply parallel_bind (parallel_criterionValue hc hb single)
  intro v w hvw
  have hnone : v.isNone = w.isNone := by cases hvw <;> rfl
  have hvalue : L.value (v.getD .null) (w.getD .null) := by
    cases hvw with
    | some h => exact h
    | none => exact L.value_refl .null
  rw [hnone]
  apply parallel_ite Iff.rfl
  · exact fun _ => parallel_pure .none
  · intro _
    apply parallel_bind (parallel_resolve _ _)
    rintro r _ rfl
    apply parallel_bind (parallel_lift (L.predicate _ _ _ hvalue))
    intro p q hpq
    exact parallel_pure (.some ⟨hpq, rfl⟩)

structure PredicatesAlike (L : Likeness) (p q : Predicates) : Prop where
  expression : p.expression.map L.view = q.expression.map L.view
  statement : List.Forall₂ (fun c d => L.view c = L.view d) p.statement q.statement

theorem predicatesAlike_foldl {ps qs : List Predicate}
    (h : List.Forall₂ (Predicates.Like L.view) ps qs) {a b : Predicates}
    (hab : PredicatesAlike L a b) :
    PredicatesAlike L (ps.foldl Predicates.push a) (qs.foldl Predicates.push b) := by
  induction h generalizing a b with
  | nil => exact hab
  | cons hpq _ ih =>
    apply ih
    cases hpq with
    | combined hcd => exact ⟨by simp [Predicates.push, hab.expression, hcd], hab.statement⟩
    | standing hcd => exact ⟨hab.expression, List.rel_append hab.statement (.cons hcd .nil)⟩

theorem parallel_place (toMany : Bool) {c d : Condition} (h : L.view c = L.view d) :
    Parallel (Alike L) (place s toMany c) (place s toMany d) (fun _ _ => True) := by
  apply parallel_modify
  intro x y hxy
  have hhaving : L.query (x.query.addHaving (someRow s.dialect c))
      = L.query (y.query.addHaving (someRow s.dialect d)) := by
    rw [L.query_addHaving, L.query_addHaving, hxy.query, L.view_someRow _ h]
  have hfilter : L.query (x.query.addFilter c) = L.query (y.query.addFilter d) := by
    rw [L.query_addFilter, L.query_addFilter, hxy.query, h]
  have hgrouped : (toMany && x.grouped) = (toMany && y.grouped) := by rw [hxy.grouped]
  cases hb : (toMany && y.grouped) with
  | true =>
    rw [if_pos (hgrouped.trans hb), if_pos rfl]
    exact hxy.withQuery hhaving
  | false =>
    rw [if_neg (by simp [hgrouped, hb]), if_neg (by simp)]
    exact hxy.withQuery hfilter

theorem parallel_placeAll (connective : Connective) {found dnuof : List (Predicate × Bool)}
    (h : List.Forall₂ (FoundAlike L) found dnuof) :
    Parallel (Alike L) (placeAll s connective found) (placeAll s connective dnuof)
      (fun _ _ => True) := by
  have hany : found.any Prod.snd = dnuof.any Prod.snd := by
    induction h with
    | nil => rfl
    | cons hxy _ ih => simp [hxy.2, ih]
  have hfst : List.Forall₂ (Predicates.Like L.view) (found.map Prod.fst) (dnuof.map Prod.fst) := by
    rw [List.forall₂_map_left_iff, List.forall₂_map_right_iff]
    exact h.imp fun _ _ hxy => hxy.1
  have hall := predicatesAlike_foldl hfst (a := .empty) (b := .empty) ⟨rfl, .nil⟩
  have hempty := congrArg List.isEmpty hall.expression
  rw [List.isEmpty_map, List.isEmpty_map] at hempty
  apply parallel_bind (Q := fun _ _ => True)
  · rw [hempty, hany]
    apply parallel_ite Iff.rfl
    · exact fun _ => parallel_pure trivial
    · intro _
      apply parallel_place
      rw [L.view_combine, L.view_combine, hall.expression]
  intro _ _ _
  apply parallel_forM hall.statement
  exact fun _ _ hcd => parallel_filter hcd

theorem parallel_criteria {spec : CriteriaSpec} (hc : spec.Constant) {bag gab : Value}
    (hb : Bags L.value bag gab) (base : String) :
    Parallel (Alike L) (criteria s spec bag base) (criteria s spec gab base)
      (fun _ _ => True) := by
  apply parallel_bind (Q := List.Forall₂ (Option.Rel (FoundAlike L)))
  · apply parallel_mapM (P := fun x y => x = y ∧ x ∈ spec.items)
    · rw [List.forall₂_same]
      exact fun item hitem => ⟨rfl, hitem⟩
    · rintro item _ ⟨rfl, hitem⟩
      exact parallel_criterion (hc item hitem) hb _ base
  · intro found dnuof h
    apply parallel_placeAll
    exact List.rel_filterMap (fun _ _ hxy => hxy) h

theorem parallel_ungroupedCriteria {spec : CriteriaSpec} (hc : spec.Constant) {bag gab : Value}
    (hb : Bags L.value bag gab) (base : String) :
    Parallel (Alike L) (ungroupedCriteria s spec bag base) (ungroupedCriteria s spec gab base)
      (fun _ _ => True) := by
  have hgrouped : ∀ b : Bool, Parallel (Alike L) (modify fun c => { c with grouped := b })
      (modify fun c => { c with grouped := b }) (fun _ _ => True) := by
    intro b
    apply parallel_modify
    intro c d h
    exact ⟨h.plan, h.query, h.primitives, h.handlers, h.nested, h.dependencies, h.middlewares, rfl,
      h.pool⟩
  apply parallel_bind parallel_get
  intro c d h
  rw [h.grouped]
  apply parallel_bind (hgrouped false)
  intro _ _ _
  apply parallel_bind (parallel_criteria hc hb base)
  intro _ _ _
  exact hgrouped _

theorem parallel_projection {p : Projection} (hp : Fits L p) :
    Parallel (Alike L) (projection s p) (projection s p) Eq := by
  apply parallel_bind (parallel_setMiddlewares p)
  intro _ _ _
  exact parallel_fields hp "" false .left

theorem parallel_applyNested {t u : NestedTask} (h : TaskAlike L t u) {v w : Value}
    (hvw : ∀ column, L.view (.eq column v) = L.view (.eq column w)) :
    Parallel (Alike L) (applyNested s t v) (applyNested s u w) (fun _ _ => True) := by
  have hsort : Parallel (Alike L) (nestedSort s t) (nestedSort s u) (fun _ _ => True) := by
    unfold nestedSort
    rw [h.options, h.path]
    cases u.options.sort with
    | none => exact parallel_pure trivial
    | some order => exact parallel_sort _ order
  have hcriteria : Parallel (Alike L) (nestedCriteria s t) (nestedCriteria s u)
      (fun _ _ => True) := by
    unfold nestedCriteria
    have hfitting := h.fitting
    have hbags := h.criteria
    rw [h.options] at hfitting ⊢
    rw [h.path]
    revert hbags
    generalize t.criteria = x
    generalize u.criteria = y
    intro hbags
    cases hc : u.options.criteria with
    | none => exact parallel_pure trivial
    | some criteria =>
      cases hbags with
      | none => exact parallel_pure trivial
      | some hb => exact parallel_ungroupedCriteria (hfitting criteria hc).2 (L.bags_alike hb) _
  apply parallel_bind hsort
  intro _ _ _
  rw [h.parent]
  apply parallel_bind (parallel_resolve _ _)
  rintro parent _ rfl
  apply parallel_bind (parallel_filter (hvw parent.column))
  intro _ _ _
  exact hcriteria

theorem parallel_nestedSteps {t u : NestedTask} (h : TaskAlike L t u) {v w : Value}
    (hvw : ∀ column, L.view (.eq column v) = L.view (.eq column w)) :
    Parallel (Alike L) (nestedSteps s t v) (nestedSteps s u w) (fun _ _ => True) := by
  have hmode : nestedMode t.options = nestedMode u.options := by rw [h.options]
  have hfits := h.fits
  unfold nestedSteps
  rw [h.inner] at hfits ⊢
  rw [h.path, hmode]
  apply parallel_bind (parallel_resolve _ _)
  rintro _ _ _
  apply parallel_bind (parallel_setMiddlewares u.inner)
  intro _ _ _
  apply parallel_bind (parallel_fields hfits _ _ _)
  rintro _ _ _
  exact parallel_applyNested h hvw

end RecordQuery.Compilation
