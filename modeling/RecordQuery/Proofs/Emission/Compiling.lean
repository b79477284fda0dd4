import RecordQuery.Proofs.Emission.Planning
import RecordQuery.Proofs.Projection

namespace RecordQuery

open Steps

variable {N : String → Prop} {B : QueryPair → Prop} {T : Projection → Prop} {s : Setting}

def QueryPair.Fielded (δ : Dialect) (N : String → Prop) (B : QueryPair → Prop) : Prop :=
  ∀ q x label, B q → Selected δ N x → B (q.field x label)

theorem QueryPair.fielded_built {δ : Dialect} : Fielded δ N (Built δ N) :=
  fun _ _ _ hq hx => hq.edit (.field hx)

namespace Compilation

structure Formed (N : String → Prop) (B : QueryPair → Prop) (T : Projection → Prop)
    (c : Compilation) : Prop where
  plan : c.plan.Allocated
  query : B c.query
  primitives : ∀ x ∈ c.primitives, ColumnRef N x
  nested : ∀ t ∈ c.nested, T t.inner

theorem Formed.edit (hB : QueryPair.Shaped s.dialect N B) {c : Compilation} (hc : c.Formed N B T)
    {e : QueryPair.Edit} (he : e.Emitted s.dialect N) (hs : e.shapes = true) :
    Formed N B T { c with query := c.query.edit e } :=
  ⟨hc.plan, hB c.query e hc.query he hs, hc.primitives, hc.nested⟩

theorem maintains_order (hB : QueryPair.Shaped s.dialect N B) {t : OrderTerm}
    (ht : (QueryPair.Edit.order t).Emitted s.dialect N) :
    Maintains (Formed N B T) (onQuery (·.order t)) (fun _ => True) :=
  maintains_modify fun _ hc => hc.edit hB ht rfl

theorem maintains_filter (hB : QueryPair.Shaped s.dialect N B) {d : Condition}
    (hd : d.Over (ColumnRef N)) :
    Maintains (Formed N B T) (onQuery (·.addFilter d)) (fun _ => True) :=
  maintains_modify fun _ hc => hc.edit hB (.filter hd) rfl

theorem maintains_field {x label : String} (hx : ∀ q, B q → B (q.field x label)) :
    Maintains (Formed N B T) (onQuery (·.field x label)) (fun _ => True) :=
  maintains_modify fun c hc => ⟨hc.plan, hx c.query hc.query, hc.primitives, hc.nested⟩

theorem maintains_setPage (hB : QueryPair.Shaped s.dialect N B) (page : Page) :
    Maintains (Formed N B T) (onQuery (·.setPage page)) (fun _ => True) :=
  maintains_modify fun _ hc => hc.edit hB (e := .page page) .page rfl

theorem maintains_addPrimitive {x : String} (hx : ColumnRef N x) :
    Maintains (Formed N B T) (addPrimitive x) (fun _ => True) := by
  apply maintains_modify
  intro c hc
  split
  · exact hc
  · refine ⟨hc.plan, hc.query, ?_, hc.nested⟩
    intro y hy
    rcases List.mem_append.1 hy with hy | hy
    · exact hc.primitives y hy
    · exact List.mem_singleton.1 hy ▸ hx

theorem maintains_addHandlers (handlers : List Handler) :
    Maintains (Formed N B T) (addHandlers handlers) (fun _ => True) :=
  maintains_modify fun _ hc => ⟨hc.plan, hc.query, hc.primitives, hc.nested⟩

theorem maintains_dependency (entity : String) :
    Maintains (Formed N B T) (dependency entity) (fun _ => True) := by
  apply maintains_bind maintains_get
  intro c hc
  cases c.dependencies.idxOf? entity with
  | some i => exact maintains_pure trivial
  | none =>
    apply maintains_bind (maintains_set ⟨hc.plan, hc.query, hc.primitives, hc.nested⟩)
    intro _ _
    exact maintains_pure trivial

theorem maintains_takeFromPool (name : String) :
    Maintains (Formed N B T) (takeFromPool name) (fun _ => True) := by
  apply maintains_bind maintains_get
  intro c hc
  apply maintains_bind (maintains_set ⟨hc.plan, hc.query, hc.primitives, hc.nested⟩)
  intro _ _
  exact maintains_pure trivial

theorem maintains_setMiddlewares (p : Projection) :
    Maintains (Formed N B T) (setMiddlewares p) (fun _ => True) :=
  maintains_modify fun _ hc => ⟨hc.plan, hc.query, hc.primitives, hc.nested⟩

theorem maintains_resolveScoped (hs : s.Names N) (hB : QueryPair.Shaped s.dialect N B)
    (path : String) (mode : JoinMode) (waiting : Option ScopedPredicate) :
    Maintains (Formed N B T) (resolveScoped s path mode waiting)
      (fun x => ColumnRef N x.1.column) := by
  intro c hc
  have h := Planning.maintains_resolve hB hs.entities hs.root path mode
    ⟨c.plan, c.query, waiting⟩ ⟨hc.plan, hc.query⟩
  unfold resolveScoped
  rcases hr : Planning.resolve s.schema s.root path mode ⟨c.plan, c.query, waiting⟩ with ⟨x, t⟩
  rw [hr] at h
  refine ⟨⟨h.1.plan, h.1.query, hc.primitives, hc.nested⟩, ?_⟩
  intro a ha
  cases x with
  | error e => cases ha
  | ok r =>
    cases ha
    exact h.2 r rfl

theorem maintains_resolve (hs : s.Names N) (hB : QueryPair.Shaped s.dialect N B) (path : String)
    (mode : JoinMode) :
    Maintains (Formed N B T) (resolve s path mode) (fun r => ColumnRef N r.column) := by
  apply maintains_bind (maintains_resolveScoped hs hB path mode none)
  intro x hx
  exact maintains_pure hx

theorem maintains_deferList {path parent : String} {options : NestedOptions} {inner : Projection}
    (hi : T inner) :
    Maintains (Formed N B T) (deferList path parent options inner) (fun _ => True) := by
  apply maintains_bind (Q := fun _ => True)
  · unfold takeCriteria
    cases options.criteria with
    | none => exact maintains_pure trivial
    | some criteria => exact maintains_takeFromPool criteria.name
  · intro criteria _
    apply maintains_modify
    intro c hc
    refine ⟨hc.plan, hc.query, hc.primitives, ?_⟩
    intro t ht
    rcases List.mem_append.1 ht with ht | ht
    · exact hc.nested t ht
    · exact List.mem_singleton.1 ht ▸ hi

theorem maintains_selectPlain {x label : String} {type : Option SqlType} (hx : ColumnRef N x)
    (hq : ∀ q, B q → B (q.field x label)) :
    Maintains (Formed N B T) (selectPlain x label type) (fun _ => True) := by
  apply maintains_bind (maintains_field hq)
  intro _ _
  apply maintains_bind (maintains_addPrimitive hx)
  intro _ _
  exact maintains_addHandlers _

theorem maintains_selectFunction {label : String} {r : Resolved} {f : ColumnFunction}
    (hr : ColumnRef N r.column) (hq : ∀ q, B q → B (q.field (f.sql s.dialect r.column) label)) :
    Maintains (Formed N B T) (selectFunction s label r f) (fun _ => True) := by
  apply maintains_bind (maintains_field hq)
  intro _ _
  apply maintains_bind (Q := fun _ => True)
  · apply maintains_ite
    · exact fun _ => maintains_pure trivial
    · exact fun _ => maintains_addPrimitive hr
  · intro _ _
    exact maintains_addHandlers _

theorem maintains_selectResolved (hF : QueryPair.Fielded s.dialect N B) {leaf : FieldLeaf}
    {r : Resolved} (hl : leaf.Charsets N) (hr : ColumnRef N r.column) :
    Maintains (Formed N B T) (selectResolved s leaf r) (fun _ => True) := by
  unfold selectResolved
  cases hf : leaf.function with
  | none => exact maintains_selectPlain hr fun q hq => hF q _ _ hq (.plain hr)
  | some f =>
    have hx : Selected s.dialect N (f.sql s.dialect r.column) :=
      .applied f hr fun charset hc => hl charset (hc ▸ hf)
    exact maintains_selectFunction hr fun q hq => hF q _ _ hq hx

theorem maintains_takeScoped (leaf : FieldLeaf) (applied : Bool) :
    Maintains (Formed N B T) (takeScoped leaf applied) (fun _ => True) := by
  unfold takeScoped
  split
  · exact maintains_takeFromPool _
  · exact maintains_pure trivial

theorem maintains_selectField (hs : s.Names N) (hB : QueryPair.Shaped s.dialect N B)
    (hF : QueryPair.Fielded s.dialect N B) {path base : String} {mode : JoinMode}
    {leaf : FieldLeaf} (hl : leaf.Charsets N) :
    Maintains (Formed N B T) (selectField s path base mode leaf) (fun _ => True) := by
  apply maintains_bind maintains_get
  intro c _
  apply maintains_bind (maintains_resolveScoped hs hB _ _ _)
  rintro ⟨r, applied⟩ hr
  apply maintains_bind (maintains_takeScoped leaf applied)
  intro _ _
  apply maintains_bind (maintains_selectResolved hF hl hr)
  intro _ _
  exact maintains_pure trivial

theorem maintains_selectSiblings (hF : QueryPair.Fielded s.dialect N B) {path label : String}
    {r : Resolved} (hr : ColumnRef N r.column) :
    Maintains (Formed N B T) (selectSiblings s path label r) (fun _ => True) := by
  apply maintains_ite
  · intro _
    apply maintains_bind (maintains_dependency r.entity)
    intro position _
    have hx : Selected s.dialect N (s.dialect.groupConcat r.column) :=
      .applied .groupConcat hr (by simp)
    apply maintains_bind (maintains_field fun q hq => hF q _ _ hq hx)
    intro _ _
    apply maintains_bind (maintains_addHandlers _)
    intro _ _
    apply maintains_ite
    · exact fun _ => maintains_addHandlers _
    · exact fun _ => maintains_pure trivial
  · exact fun _ => maintains_throw

theorem maintains_leaf (hs : s.Names N) (hB : QueryPair.Shaped s.dialect N B)
    (hF : QueryPair.Fielded s.dialect N B) (base : String) (mode : JoinMode)
    {l : String × Leaf} (hl : l.2.Every (FieldLeaf.Charsets N) fun _ => True)
    (ht : ∀ options inner, l.2 = .list options inner → T inner) :
    Maintains (Formed N B T) (leaf s base mode l) (fun _ => True) := by
  obtain ⟨path, l⟩ := l
  cases l with
  | column label =>
    apply maintains_bind (maintains_resolve hs hB _ mode)
    intro r hr
    apply maintains_bind (Q := fun _ => True)
    · apply maintains_ite
      · exact fun _ => maintains_selectSiblings hF hr
      · exact fun _ => maintains_selectPlain hr fun q hq => hF q _ _ hq (.plain hr)
    · intro _ _
      exact maintains_pure trivial
  | field leaf => exact maintains_selectField hs hB hF hl
  | list options inner =>
    apply maintains_bind (maintains_deferList (ht options inner rfl))
    intro _ _
    exact maintains_pure trivial

theorem maintains_selectKey (hs : s.Names N) (hB : QueryPair.Shaped s.dialect N B)
    (hq : ∀ q x label, B q → ColumnRef N x → B (q.field x label)) (base : String)
    (mode : JoinMode) : Maintains (Formed N B T) (selectKey s base mode) (fun _ => True) := by
  apply maintains_bind (maintains_resolve hs hB _ mode)
  intro key hkey
  apply maintains_bind (maintains_field fun q h => hq q _ _ h hkey)
  intro _ _
  exact maintains_addPrimitive hkey

theorem maintains_groupPrimitives (hB : QueryPair.Shaped s.dialect N B) (grouped : Bool) :
    Maintains (Formed N B T) (groupPrimitives grouped) (fun _ => True) := by
  apply maintains_modify
  intro c hc
  split
  · refine ⟨hc.plan, ?_, hc.primitives, hc.nested⟩
    have : ∀ xs : List String, (∀ x ∈ xs, ColumnRef N x) → ∀ q, B q →
        B (xs.foldl QueryPair.group q) := by
      intro xs hxs
      induction xs with
      | nil => exact fun q hq => hq
      | cons x xs ih =>
        intro q hq
        have hx := hxs x List.mem_cons_self
        exact ih (fun y hy => hxs y (List.mem_cons_of_mem x hy)) _
          (hB q (.group x) hq (.group hx) rfl)
    exact this _ hc.primitives _ hc.query
  · exact hc

theorem maintains_fields (hs : s.Names N) (hB : QueryPair.Shaped s.dialect N B)
    (hF : QueryPair.Fielded s.dialect N B) {p : Projection} (hp : p.Charsets N) (ht : p.Lists T)
    (base : String) (grouped : Bool) (mode : JoinMode) :
    Maintains (Formed N B T) (fields s p base grouped mode) (fun _ => True) := by
  apply maintains_bind
    (maintains_mapM fun l hl =>
      maintains_leaf hs hB hF base mode (p.every_leaves hp l hl) (ht l hl))
  intro aggregates _
  apply maintains_bind
    (maintains_selectKey hs hB (fun q _ _ hq hx => hF q _ _ hq (.plain hx)) base mode)
  intro _ _
  apply maintains_bind (maintains_groupPrimitives hB _)
  intro _ _
  exact maintains_pure trivial

theorem maintains_sortTerm (hs : s.Names N) (hB : QueryPair.Shaped s.dialect N B) (base : String)
    (t : SortField) : Maintains (Formed N B T) (sortTerm s base t) (fun _ => True) := by
  apply maintains_bind (Q := fun x => ∀ d, (QueryPair.Edit.order ⟨x, d⟩).Emitted s.dialect N)
  · apply maintains_ite
    · exact fun _ => maintains_pure fun _ => .orderLabel
    · exact fun _ => maintains_map (maintains_resolve hs hB _ _) fun r hr _ => .orderColumn hr
  · intro x hx
    exact maintains_order hB (hx _)

theorem maintains_sort (hs : s.Names N) (hB : QueryPair.Shaped s.dialect N B) (base : String)
    (order : SortSpec) : Maintains (Formed N B T) (sort s base order) (fun _ => True) := by
  cases order with
  | random => exact maintains_order hB .orderRandom
  | fields terms => exact maintains_forM fun t _ => maintains_sortTerm hs hB base t

theorem maintains_criterionValue (item : Criterion) (bag : Value) (single : Bool) :
    Maintains (Formed N B T) (criterionValue item bag single) (fun _ => True) := by
  apply maintains_bind maintains_get
  intro c hc
  apply maintains_bind (maintains_set ⟨hc.plan, hc.query, hc.primitives, hc.nested⟩)
  intro _ _
  exact maintains_pure trivial

theorem maintains_criterion (hs : s.Names N) (hB : QueryPair.Shaped s.dialect N B) (bag : Value)
    (single : Bool) (base : String) (item : Criterion) :
    Maintains (Formed N B T) (criterion s bag single base item)
      (fun found => ∀ x ∈ found, x.1.condition.Over (ColumnRef N)) := by
  apply maintains_bind (maintains_criterionValue item bag single)
  intro value _
  apply maintains_ite
  · exact fun _ => maintains_pure (by simp)
  · intro _
    apply maintains_bind (maintains_resolve hs hB _ _)
    intro r hr
    apply maintains_bind (maintains_lift fun p hp => Operator.over_predicate hr hp)
    intro p hp
    exact maintains_pure (by simpa using hp)

theorem maintains_place (hB : QueryPair.Shaped s.dialect N B) (toMany : Bool) {d : Condition}
    (hd : d.Over (ColumnRef N)) :
    Maintains (Formed N B T) (place s toMany d) (fun _ => True) := by
  apply maintains_modify
  intro c hc
  split
  · exact hc.edit hB (.having hd) rfl
  · exact hc.edit hB (.filter hd) rfl

theorem over_push {R : String → Prop} {ps : List Predicate} (hp : ∀ p ∈ ps, p.condition.Over R)
    (acc : Predicates) (ha : ∀ d ∈ acc.conditions, d.Over R) :
    ∀ d ∈ (ps.foldl Predicates.push acc).conditions, d.Over R := by
  induction ps generalizing acc with
  | nil => exact ha
  | cons p ps ih =>
    apply ih fun q hq => hp q (List.mem_cons_of_mem p hq)
    have hcond := hp p List.mem_cons_self
    have hmem : ∀ d, d ∈ (acc.push p).conditions → d = p.condition ∨ d ∈ acc.conditions := by
      cases p <;> simp [Predicates.push, Predicates.conditions, Predicate.condition] <;> tauto
    intro d hd
    rcases hmem d hd with rfl | hd
    · exact hcond
    · exact ha d hd

theorem maintains_placeAll (hB : QueryPair.Shaped s.dialect N B) (connective : Connective)
    {found : List (Predicate × Bool)} (hf : ∀ x ∈ found, x.1.condition.Over (ColumnRef N)) :
    Maintains (Formed N B T) (placeAll s connective found) (fun _ => True) := by
  have hmap : ∀ p ∈ found.map Prod.fst, p.condition.Over (ColumnRef N) := by
    intro p hp
    obtain ⟨x, hx, rfl⟩ := List.mem_map.1 hp
    exact hf x hx
  have hall := over_push hmap .empty (by simp [Predicates.empty, Predicates.conditions])
  unfold Predicates.conditions at hall
  apply maintains_bind (Q := fun _ => True)
  · apply maintains_ite
    · exact fun _ => maintains_pure trivial
    · intro _
      apply maintains_place hB
      apply Condition.over_combine
      exact fun d hd => hall d (List.mem_append_left _ hd)
  · intro _ _
    exact maintains_forM fun d hd => maintains_filter hB (hall d (List.mem_append_right _ hd))

theorem maintains_criteria (hs : s.Names N) (hB : QueryPair.Shaped s.dialect N B)
    (spec : CriteriaSpec) (bag : Value) (base : String) :
    Maintains (Formed N B T) (criteria s spec bag base) (fun _ => True) := by
  apply maintains_bind (maintains_mapM fun item _ => maintains_criterion hs hB bag _ base item)
  intro found hf
  apply maintains_placeAll hB
  intro x hx
  obtain ⟨o, ho, rfl⟩ := List.mem_filterMap.1 hx
  exact hf _ ho x rfl

theorem maintains_ungroupedCriteria (hs : s.Names N) (hB : QueryPair.Shaped s.dialect N B)
    (spec : CriteriaSpec) (bag : Value) (base : String) :
    Maintains (Formed N B T) (ungroupedCriteria s spec bag base) (fun _ => True) := by
  have hgrouped : ∀ b : Bool, Maintains (Formed N B T)
      (modify fun c => { c with grouped := b }) (fun _ => True) :=
    fun b => maintains_modify fun _ hc => ⟨hc.plan, hc.query, hc.primitives, hc.nested⟩
  apply maintains_bind maintains_get
  intro c _
  apply maintains_bind (hgrouped false)
  intro _ _
  apply maintains_bind (maintains_criteria hs hB spec bag base)
  intro _ _
  exact hgrouped c.grouped

theorem maintains_projection (hs : s.Names N) (hB : QueryPair.Shaped s.dialect N B)
    (hF : QueryPair.Fielded s.dialect N B) {p : Projection} (hp : p.Charsets N)
    (ht : p.Lists T) : Maintains (Formed N B T) (projection s p) (fun _ => True) := by
  apply maintains_bind (maintains_setMiddlewares p)
  intro _ _
  exact maintains_fields hs hB hF hp ht "" false .left

theorem maintains_applyNested (hs : s.Names N) (hB : QueryPair.Shaped s.dialect N B)
    (task : NestedTask) (parentId : Value) :
    Maintains (Formed N B T) (applyNested s task parentId) (fun _ => True) := by
  have hsort : Maintains (Formed N B T) (nestedSort s task) (fun _ => True) := by
    unfold nestedSort
    cases task.options.sort with
    | none => exact maintains_pure trivial
    | some order => exact maintains_sort hs hB task.path order
  have hcriteria : Maintains (Formed N B T) (nestedCriteria s task) (fun _ => True) := by
    unfold nestedCriteria
    split
    · exact maintains_ungroupedCriteria hs hB _ _ _
    · exact maintains_pure trivial
  apply maintains_bind hsort
  intro _ _
  apply maintains_bind (maintains_resolve hs hB _ _)
  intro parent hparent
  apply maintains_bind (maintains_filter hB (.compare hparent))
  intro _ _
  exact hcriteria

theorem maintains_nestedSteps (hs : s.Names N) (hB : QueryPair.Shaped s.dialect N B)
    (hF : QueryPair.Fielded s.dialect N B) {task : NestedTask} (hp : task.inner.Charsets N)
    (ht : task.inner.Lists T) (parentId : Value) :
    Maintains (Formed N B T) (nestedSteps s task parentId) (fun _ => True) := by
  apply maintains_bind (maintains_resolve hs hB _ _)
  intro _ _
  apply maintains_bind (maintains_setMiddlewares task.inner)
  intro _ _
  apply maintains_bind (maintains_fields hs hB hF hp ht _ _ _)
  intro _ _
  exact maintains_applyNested hs hB task parentId

theorem formed_start (hs : s.Names N) (pool : Pool) (uses : Nat) :
    (start s pool uses).Formed N (QueryPair.Built s.dialect N) T where
  plan := ⟨.numbered _ _, by simp [start, JoinPlan.ofRoot]⟩
  query := by
    have ha : Alias (JoinPlan.ofRoot s.root).rootAlias := .numbered _ _
    have hroot : (QueryPair.ofTable s.root.table (JoinPlan.ofRoot s.root).rootAlias).Built
        s.dialect N := .table ha
    have hdeleted : ∀ d ∈ Planning.notDeleted s.root (JoinPlan.ofRoot s.root).rootAlias,
        d.Over (ColumnRef N) :=
      Planning.over_notDeleted fun _ hd => .mk ha (hs.root.deleted _ hd)
    have hfold : ∀ ds : List Condition, (∀ d ∈ ds, d.Over (ColumnRef N)) →
        ∀ q : QueryPair, q.Built s.dialect N →
          (ds.foldl QueryPair.addFilter q).Built s.dialect N := by
      intro ds hds
      induction ds with
      | nil => exact fun q hq => hq
      | cons d ds ih =>
        intro q hq
        exact ih (fun e he => hds e (List.mem_cons_of_mem d he)) _
          (hq.edit (.filter (hds d List.mem_cons_self)))
    exact hfold _ hdeleted _ hroot
  primitives := by simp [start]
  nested := by simp [start]

theorem names_true (s : Setting) : s.Names fun _ => True :=
  ⟨fun _ _ => ⟨fun _ _ => trivial, fun _ _ => trivial, fun _ _ => trivial,
    fun _ _ _ _ => ⟨trivial, trivial⟩⟩, ⟨fun _ _ => trivial, fun _ _ => trivial,
    fun _ _ => trivial, fun _ _ _ _ => ⟨trivial, trivial⟩⟩⟩

abbrev OfQuery (B : QueryPair → Prop) : Compilation → Prop :=
  Formed (fun _ => True) B fun _ => True

end Compilation

end RecordQuery
