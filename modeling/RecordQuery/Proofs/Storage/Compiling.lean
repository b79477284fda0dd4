import RecordQuery.Proofs.Storage.Tracing

namespace RecordQuery

open Steps

namespace Compilation

variable {s : Setting} {O : List (String × String)} {x label : String}

section Fields

theorem traces_get : Traces s O get fun _ _ => True :=
  fun _ _ ht => ⟨ht, List.Subset.refl _, fun _ _ => trivial⟩

theorem traces_addPrimitive (hx : Known s O x) :
    Traces s O (addPrimitive x) fun _ _ => True := by
  intro c hc ht
  by_cases hmem : x ∈ c.primitives
  · have hsame : addPrimitive x c = (.ok ⟨⟩, c) := by
      unfold addPrimitive
      rw [modify_apply, if_pos hmem]
    rw [hsame]
    exact ⟨ht, List.Subset.refl _, fun _ _ => trivial⟩
  · have hadded : addPrimitive x c = (.ok ⟨⟩, { c with primitives := c.primitives ++ [x] }) := by
      unfold addPrimitive
      rw [modify_apply, if_neg hmem]
    have hprimitives : ∀ y ∈ c.primitives ++ [x], Known s c.origins y :=
      List.forall_mem_append.2 ⟨ht.primitives, List.forall_mem_singleton.2 (hx.mono hc)⟩
    have htraced : Traced s { c with primitives := c.primitives ++ [x] } :=
      ⟨ht.planted.same rfl rfl rfl, ⟨ht.rooted.table, ht.rooted.tableAlias⟩, ht.query, hprimitives⟩
    rw [hadded]
    exact ⟨htraced, List.Subset.refl _, fun _ _ => trivial⟩

theorem traces_addHandlers (handlers : List Handler) :
    Traces s O (addHandlers handlers) fun _ _ => True :=
  traces_aside fun _ => ⟨rfl, rfl, rfl⟩

theorem traces_takeFromPool (name : String) :
    Traces s O (takeFromPool name) fun _ _ => True :=
  traces_aside fun _ => ⟨rfl, rfl, rfl⟩

theorem traces_setMiddlewares (p : Projection) :
    Traces s O (setMiddlewares p) fun _ _ => True :=
  traces_aside fun _ => ⟨rfl, rfl, rfl⟩

theorem traces_dependency (entity : String) :
    Traces s O (dependency entity) fun _ _ => True := by
  apply traces_aside
  intro c
  unfold dependency
  rw [bind_of_ok (get_apply c)]
  cases c.dependencies.idxOf? entity <;> exact ⟨rfl, rfl, rfl⟩

theorem traces_takeScoped (leaf : FieldLeaf) (applied : Bool) :
    Traces s O (takeScoped leaf applied) fun _ _ => True := by
  unfold takeScoped
  split
  · exact traces_takeFromPool _
  · exact traces_pure fun _ _ => trivial

theorem traces_deferList (path parent : String) (options : NestedOptions) (inner : Projection) :
    Traces s O (deferList path parent options inner) fun _ _ => True := by
  have htake : Traces s O (takeCriteria options) fun _ _ => True := by
    unfold takeCriteria
    cases options.criteria with
    | none => exact traces_pure fun _ _ => trivial
    | some criteria => exact traces_takeFromPool criteria.name
  apply traces_bind htake
  exact fun _ _ _ _ => traces_aside fun _ => ⟨rfl, rfl, rfl⟩

theorem traces_field (hx : Lists s.dialect (Known s O) x) :
    Traces s O (onQuery (·.field x label)) fun _ _ => True :=
  traces_edit (.field hx)

theorem traces_selectPlain (hx : Known s O x) (type : Option SqlType) :
    Traces s O (selectPlain x label type) fun _ _ => True :=
  traces_seq (traces_field (.plain hx)) (traces_seq (traces_addPrimitive hx) (traces_addHandlers _))

theorem traces_selectFunction {r : Resolved} (hr : Known s O r.column) (f : ColumnFunction) :
    Traces s O (selectFunction s label r f) fun _ _ => True := by
  apply traces_seq (traces_field (.applied f hr))
  refine traces_seq (P := fun _ _ => True) ?_ (traces_addHandlers _)
  split
  · exact traces_pure fun _ _ => trivial
  · exact traces_addPrimitive hr

theorem traces_selectResolved {r : Resolved} (hr : Known s O r.column) (leaf : FieldLeaf) :
    Traces s O (selectResolved s leaf r) fun _ _ => True := by
  unfold selectResolved
  cases leaf.function with
  | none => exact traces_selectPlain hr _
  | some f => exact traces_selectFunction hr f

theorem traces_selectSiblings {r : Resolved} (hr : Known s O r.column) (path : String) :
    Traces s O (selectSiblings s path label r) fun _ _ => True := by
  unfold selectSiblings
  split
  · apply traces_bind (traces_dependency r.entity)
    intro O' position hsub _
    apply traces_seq (traces_field (.applied .groupConcat (hr.mono hsub)))
    apply traces_seq (traces_addHandlers _)
    split
    · exact traces_addHandlers _
    · exact traces_pure fun _ _ => trivial
  · exact traces_throw

theorem traces_groupPrimitives (grouped : Bool) :
    Traces s O (groupPrimitives grouped) fun _ _ => True := by
  intro c _ ht
  cases grouped with
  | false => exact ⟨ht, List.Subset.refl _, fun _ _ => trivial⟩
  | true =>
    obtain ⟨groupBy, hsource⟩ := QueryPair.foldl_group_source c.primitives c.query
    have hjoined :
        (c.primitives.foldl QueryPair.group c.query).source.table = c.query.source.table ∧
        (c.primitives.foldl QueryPair.group c.query).source.tableAlias
          = c.query.source.tableAlias ∧
        (c.primitives.foldl QueryPair.group c.query).source.joins = c.query.source.joins := by
      rw [hsource]
      exact ⟨rfl, rfl, rfl⟩
    obtain ⟨htraced, horigins⟩ :
        Traced s (groupPrimitives true c).2 ∧ (groupPrimitives true c).2.origins = c.origins :=
      ht.same rfl hjoined (ht.query.foldl_group ht.primitives) ht.primitives
    exact ⟨htraced, horigins ▸ List.Subset.refl _, fun _ _ => trivial⟩

theorem traces_place {d : Condition} (hd : d.Over (Known s O)) (toMany : Bool) :
    Traces s O (place s toMany d) fun _ _ => True := by
  intro c hc ht
  by_cases h : (toMany && c.grouped) = true
  · have hplace : place s toMany d c = onQuery (·.edit (.having (someRow s.dialect d))) c := by
      unfold place onQuery
      rw [modify_apply, modify_apply, if_pos h]
      rfl
    rw [hplace]
    exact traces_edit (.having hd) c hc ht
  · have hplace : place s toMany d c = onQuery (·.edit (.filter d)) c := by
      unfold place onQuery
      rw [modify_apply, modify_apply, if_neg h]
      rfl
    rw [hplace]
    exact traces_edit (.filter hd) c hc ht

theorem traces_placeAll (connective : Connective) {found : List (Predicate × Bool)}
    (hf : ∀ x ∈ found, x.1.condition.Over (Known s O)) :
    Traces s O (placeAll s connective found) fun _ _ => True := by
  have hmap : ∀ p ∈ found.map Prod.fst, p.condition.Over (Known s O) := by
    intro p hp
    obtain ⟨x, hx, rfl⟩ := List.mem_map.1 hp
    exact hf x hx
  have hall := over_push hmap .empty (by simp [Predicates.empty, Predicates.conditions])
  obtain ⟨hexpression, hstatement⟩ := List.forall_mem_append.1 hall
  refine traces_seq (P := fun _ _ => True) ?_
    (traces_forM fun d hd => traces_edit (.filter (hstatement d hd)))
  split
  · exact traces_pure fun _ _ => trivial
  · exact traces_place (Condition.over_combine hexpression) _

theorem traces_setGrouped (b : Bool) :
    Traces s O (modify fun c => { c with grouped := b }) fun _ _ => True :=
  traces_aside fun _ => ⟨rfl, rfl, rfl⟩

end Fields

section Registered

variable (hs : s.root ∈ s.schema.entities) (hnamed : s.schema.Named s.root)
include hs hnamed

theorem traces_selectField (path base : String) (mode : JoinMode) (leaf : FieldLeaf) :
    Traces s O (selectField s path base mode leaf) fun _ _ => True := by
  apply traces_bind traces_get
  intro O' c hsub _
  apply traces_bind (traces_resolveScoped hs hnamed path _ _)
  rintro O'' ⟨r, applied⟩ _ hr
  apply traces_seq (traces_takeScoped leaf applied)
  apply traces_seq (traces_selectResolved hr leaf)
  exact traces_pure fun _ _ => trivial

theorem traces_selectColumn (path : String) (mode : JoinMode) (label : String) :
    Traces s O (selectColumn s path mode label) fun _ _ => True := by
  apply traces_bind (traces_resolve hs hnamed path mode)
  intro O' r _ hr
  refine traces_seq (P := fun _ _ => True) ?_ (traces_pure fun _ _ => trivial)
  split
  · exact traces_selectSiblings hr path
  · exact traces_selectPlain hr _

theorem traces_leaf (base : String) (mode : JoinMode) (l : String × Leaf) :
    Traces s O (leaf s base mode l) fun _ _ => True := by
  obtain ⟨path, l⟩ := l
  cases l with
  | column label => exact traces_selectColumn hs hnamed _ mode label
  | field leaf => exact traces_selectField hs hnamed _ base mode leaf
  | list options inner =>
    exact traces_seq (traces_deferList _ base options inner) (traces_pure fun _ _ => trivial)

theorem traces_selectKey (base : String) (mode : JoinMode) :
    Traces s O (selectKey s base mode) fun _ _ => True := by
  apply traces_bind (traces_resolve hs hnamed _ mode)
  intro O' key _ hkey
  exact traces_seq (traces_field (.plain hkey)) (traces_addPrimitive hkey)

theorem traces_fields (p : Projection) (base : String) (grouped : Bool) (mode : JoinMode) :
    Traces s O (fields s p base grouped mode) fun _ _ => True := by
  apply traces_bind (traces_mapM (P := fun _ _ => True) (fun _ _ _ _ _ => trivial)
    fun l _ => traces_leaf hs hnamed base mode l)
  intro O' aggregates _ _
  apply traces_seq (traces_selectKey hs hnamed base mode)
  apply traces_seq (traces_groupPrimitives _)
  exact traces_pure fun _ _ => trivial

theorem traces_projection (p : Projection) :
    Traces s O (projection s p) fun _ _ => True :=
  traces_seq (traces_setMiddlewares p) (traces_fields hs hnamed p "" false .left)

theorem traces_sortTerm (base : String) (t : SortField) :
    Traces s O (sortTerm s base t) fun _ _ => True := by
  apply traces_bind (P := fun O' x => Orders s.dialect (Known s O') x)
  · unfold sortExpression
    split
    · exact traces_pure fun _ _ => .label _
    · rw [← bind_pure_comp]
      apply traces_bind (traces_resolve hs hnamed _ _)
      intro O' r _ hr
      exact traces_pure fun _ hsub => .column (hr.mono hsub)
  · intro O' x _ hx
    exact traces_edit (.order hx)

theorem traces_sort (base : String) (order : SortSpec) :
    Traces s O (sort s base order) fun _ _ => True := by
  cases order with
  | random => exact traces_edit (.order .random)
  | fields terms => exact traces_forM fun t _ => traces_sortTerm hs hnamed base t

theorem traces_criterion (bag : Value) (single : Bool) (base : String) (item : Criterion) :
    Traces s O (criterion s bag single base item) fun O' found =>
      ∀ x ∈ found, x.1.condition.Over (Known s O') := by
  apply traces_bind (P := fun _ _ => True) (traces_aside fun _ => ⟨rfl, rfl, rfl⟩)
  intro O' value _ _
  split
  · exact traces_pure fun _ _ => by simp
  · apply traces_bind (traces_resolve hs hnamed _ _)
    intro O'' r _ hr
    apply traces_bind (traces_lift fun p hp O₁ hsub => Operator.over_predicate (hr.mono hsub) hp)
    intro O₂ p _ hp
    apply traces_pure
    intro O₃ hsub
    simpa using hp.mono fun _ => .mono hsub

theorem traces_criteria (spec : CriteriaSpec) (bag : Value) (base : String) :
    Traces s O (criteria s spec bag base) fun _ _ => True := by
  apply traces_bind (traces_mapM (fun _ _ _ hsub h x hx => (h x hx).mono fun _ => .mono hsub)
    fun item _ => traces_criterion hs hnamed bag _ base item)
  intro O' found _ hfound
  apply traces_placeAll
  intro x hx
  obtain ⟨o, ho, rfl⟩ := List.mem_filterMap.1 hx
  exact hfound _ ho x rfl

theorem traces_ungroupedCriteria (spec : CriteriaSpec) (bag : Value) (base : String) :
    Traces s O (ungroupedCriteria s spec bag base) fun _ _ => True := by
  apply traces_bind traces_get
  intro O' c _ _
  apply traces_seq (traces_setGrouped false)
  exact traces_seq (traces_criteria hs hnamed spec bag base) (traces_setGrouped c.grouped)

theorem traces_applyNested (task : NestedTask) (parentId : Value) :
    Traces s O (applyNested s task parentId) fun _ _ => True := by
  have hsort : Traces s O (nestedSort s task) fun _ _ => True := by
    unfold nestedSort
    cases task.options.sort with
    | none => exact traces_pure fun _ _ => trivial
    | some order => exact traces_sort hs hnamed task.path order
  have hcriteria : ∀ O', Traces s O' (nestedCriteria s task) fun _ _ => True := by
    intro O'
    unfold nestedCriteria
    split
    · exact traces_ungroupedCriteria hs hnamed _ _ _
    · exact traces_pure fun _ _ => trivial
  apply traces_seq hsort
  apply traces_bind (traces_resolve hs hnamed _ _)
  intro O' parent _ hparent
  exact traces_seq (traces_edit (.filter (.compare hparent))) (hcriteria O')

theorem traces_nestedSteps (task : NestedTask) (parentId : Value) :
    Traces s O (nestedSteps s task parentId) fun _ _ => True := by
  apply traces_seq (traces_resolve hs hnamed _ _)
  apply traces_seq (traces_setMiddlewares task.inner)
  apply traces_seq (traces_fields hs hnamed task.inner _ _ _)
  exact traces_applyNested hs hnamed task parentId

end Registered

theorem traced_start (hs : s.root ∈ s.schema.entities) (pool : Pool) (uses : Nat) :
    Traced s (start s pool uses) where
  planted := planted_start s pool uses
  rooted := rooted_start s pool uses
  query := by
    have hbare : ∀ R, (QueryPair.ofTable s.root.table
        (JoinPlan.ofRoot s.root).rootAlias).Reads s.dialect R :=
      fun R => ⟨nofun, nofun, nofun, nofun, nofun, nofun⟩
    unfold start Planning.notDeleted
    cases hd : s.root.softDelete with
    | none => exact hbare _
    | some column =>
      refine (hbare _).edit (.filter (Condition.over_isNull (.mk ?_ (.deleted hs hd))))
      exact List.mem_cons_self
  primitives := nofun

theorem traced_run (hs : s.root ∈ s.schema.entities) {steps : Steps Compilation Unit} {pool : Pool}
    {uses uses' : Nat} {q : CompiledQuery} (hm : Traces s [] steps fun _ _ => True)
    (h : run s pool steps uses = (.ok q, uses')) :
    q.query.Reads s.dialect (Known s q.query.source.origins) ∧ q.query.source.aliases.Nodup := by
  obtain ⟨c, hc, rfl, -⟩ := run_ok h
  have htraced := (hm _ (List.nil_subset _) (traced_start hs pool uses)).1
  rw [hc] at htraced
  exact ⟨htraced.query, htraced.planted.orderly.distinct⟩

end Compilation

namespace Provider

theorem traces_applyRequest {s : Setting} {O : List (String × String)}
    (hs : s.root ∈ s.schema.entities) (hnamed : s.schema.Named s.root) (m : Model) (r : Request) :
    Compilation.Traces s O (applyRequest s m r) fun _ _ => True := by
  have hsort : ∀ name, Compilation.Traces s O (applySort s m name) fun _ _ => True := by
    intro name
    apply Compilation.traces_bind (Compilation.traces_lift (P := fun _ _ => True)
      fun _ _ _ _ => trivial)
    exact fun O' order _ _ => Compilation.traces_sort hs hnamed "" order
  have hcriterion : ∀ x O', Compilation.Traces s O' (applyCriterion s m x) fun _ _ => True := by
    rintro ⟨name, bag⟩ O'
    change Compilation.Traces s O' (if bag.isNull then pure () else _) _
    split
    · exact Compilation.traces_pure fun _ _ => trivial
    · apply Compilation.traces_bind (Compilation.traces_lift (P := fun _ _ => True)
        fun _ _ _ _ => trivial)
      exact fun O' spec _ _ => Compilation.traces_criteria hs hnamed spec bag ""
  apply Compilation.traces_seq (Compilation.traces_forM fun name _ => hsort name)
  apply Compilation.traces_bind Compilation.traces_get
  intro O' c _ _
  apply Compilation.traces_seq (Compilation.traces_forM fun x _ => hcriterion x O')
  apply Compilation.traces_bind (Compilation.traces_lift (P := fun _ _ => True)
    fun _ _ _ _ => trivial)
  intro O'' page _ _
  cases page with
  | none => exact Compilation.traces_pure fun _ _ => trivial
  | some page => exact Compilation.traces_edit (e := .page page) .page

theorem reads_of_serves {p : Provider}
    (hnamed : ∀ e ∈ p.schema.entities, ∀ a ∈ e.associations, a.name ≠ "") {q : CompiledQuery}
    (h : p.Serves q) :
    q.query.Reads p.dialect (Refers p.schema.Stored q.query.source.origins) ∧
      q.query.source.aliases.Nodup := by
  have hroots : ∀ {name root}, p.schema.entity name = .ok root →
      root ∈ p.schema.entities ∧ p.schema.Named root := by
    intro name root hroot
    have hmem := Schema.mem_of_entity hroot
    exact ⟨hmem, List.forall_mem_cons.2 ⟨hnamed root hmem, hnamed⟩⟩
  cases h with
  | request h =>
    obtain ⟨m, root, projection, v, -, hroot, -, hrun, -⟩ := compile_ok h
    obtain ⟨hs, hn⟩ := hroots hroot
    refine Compilation.traced_run hs ?_ hrun
    exact Compilation.traces_seq (Compilation.traces_projection hs hn projection)
      (traces_applyRequest hs hn m _)
  | nested _ hroot _ h =>
    obtain ⟨hs, hn⟩ := hroots hroot
    exact Compilation.traced_run hs (Compilation.traces_nestedSteps hs hn _ _) h

end Provider

end RecordQuery
