import RecordQuery.Proofs.Correlation
import RecordQuery.Proofs.FailFast
import RecordQuery.Proofs.Selection.Choices

namespace RecordQuery

open Steps

/-- What a query selects below `base`, and how its answers are read: the leaves that are no lists,
in order, and the key. -/
structure Wiring (s : Setting) (base : String) (leaves : List (String × Leaf))
    (choices : List Choice) (key : String) (q : CompiledQuery) : Prop where
  chosen : Chooses s base q.query.source.aliases leaves choices
  located : ∃ d, Leads s q.query.source.aliases (Path.under base Path.idSegment) d key
  fields : q.query.fields
    = choices.map (fun x => x.toPick.field s.dialect) ++ [⟨key, some Path.idSegment⟩]
  dependencies : q.dependencies = (choices.filterMap Choice.sibling).eraseDups
  handlers : Choice.Attended q.dependencies choices q.handlers

structure Consistent (s : Setting) (base : String) (leaves : List (String × Leaf))
    (choices : List Choice) (q : CompiledQuery) : Prop where
  distinct : q.dependencies.Nodup
  cached : ∀ entity ∈ q.dependencies, s.cached entity = true
  denormalized : ∀ label i, .denormalize label i ∈ q.handlers →
    ∃ path d, (path, .column label) ∈ leaves ∧
      s.schema.destination s.root (Path.under base path) = .ok d ∧ d.tail = true ∧
      q.dependencies[i]? = some d.entity.name
  unflattened : q.handlers.filterMap Handler.unflattened?
    = (choices.filter fun x => Handler.isDotted x.label).map fun x => (x.label, x.type)
  coerced : q.handlers.filterMap Handler.coerced?
    = choices.filterMap fun x => Choice.coercion? x.label x.type

theorem Wiring.consistent {s : Setting} {base : String} {leaves : List (String × Leaf)}
    {choices : List Choice} {key : String} {q : CompiledQuery}
    (h : Wiring s base leaves choices key q) : Consistent s base leaves choices q where
  distinct := by
    rw [h.dependencies]
    exact nodup_eraseDups _
  cached := by
    intro entity hentity
    rw [h.dependencies, List.mem_eraseDups] at hentity
    obtain ⟨x, hx, hsibling⟩ := List.mem_filterMap.1 hentity
    exact (h.chosen.sibling hx hsibling).1
  denormalized := by
    intro label i hi
    obtain ⟨x, hx, rfl, entity, hsibling, hentity⟩ := h.handlers.denormalize hi
    obtain ⟨-, path, d, hleaf, hd, htail, rfl⟩ := h.chosen.sibling hx hsibling
    exact ⟨path, d, hleaf, hd, htail, hentity⟩
  unflattened := h.handlers.unflattened
  coerced := h.handlers.coerced

namespace Compilation

variable {s : Setting} {base path label y entity : String} {mode : JoinMode}
  {leaves : List (String × Leaf)} {choices : List Choice} {x : Choice} {l : String × Leaf}
  {r : Resolved} {b : Bool} {c c' c'' c₀ : Compilation} {t : Planning}

structure Spared (c c' : Compilation) : Prop where
  handlers : c'.handlers = c.handlers
  dependencies : c'.dependencies = c.dependencies

theorem Spared.refl (c : Compilation) : Spared c c := ⟨rfl, rfl⟩

theorem Spared.trans (h : Spared c c') (h' : Spared c' c'') : Spared c c'' :=
  ⟨h'.handlers.trans h.handlers, h'.dependencies.trans h.dependencies⟩

theorem Amended.spared (h : Amended s c c') : Spared c c' := by
  induction h with
  | refl => exact .refl c
  | tail _ hstep ih =>
    refine ih.trans ?_
    cases hstep <;> exact ⟨rfl, rfl⟩

theorem spared_applyNested {task : NestedTask} {parentId : Value}
    (h : applyNested s task parentId c = (.ok ⟨⟩, c')) : Spared c c' := by
  obtain ⟨t, u, ht, hu, rfl⟩ := applyNested_ok h
  have hspared := hu.spared
  exact ht.spared.trans ⟨hspared.handlers, hspared.dependencies⟩

theorem spared_of_ok {α : Type} {m : Steps Compilation α} {a : α}
    (hm : Maintains (Spared c) m fun _ => True) (h : m c = (.ok a, c')) : Spared c c' := by
  have hspared := (hm c (.refl c)).1
  rwa [h] at hspared

theorem spared_modify {f : Compilation → Compilation} (hf : ∀ c, Spared c (f c)) :
    Maintains (Spared c₀) (modify f) fun _ => True :=
  maintains_modify fun c hc => hc.trans (hf c)

theorem spared_resolve (path : String) :
    Maintains (Spared c₀) (resolve s path mode) fun _ => True := by
  intro c hc
  obtain ⟨x, t, -, heq⟩ := resolve_walked s path mode c
  rw [heq]
  exact ⟨hc.trans ⟨rfl, rfl⟩, fun _ _ => trivial⟩

theorem spared_takeFromPool (name : String) :
    Maintains (Spared c₀) (takeFromPool name) fun _ => True := by
  apply maintains_bind maintains_get
  intro c hc
  refine maintains_bind (maintains_set (hc.trans ?_)) fun _ _ => maintains_pure trivial
  exact ⟨rfl, rfl⟩

theorem spared_takeScoped (leaf : FieldLeaf) (applied : Bool) :
    Maintains (Spared c₀) (takeScoped leaf applied) fun _ => True := by
  unfold takeScoped
  split
  · exact spared_takeFromPool _
  · exact maintains_pure trivial

theorem spared_deferList (path parent : String) (options : NestedOptions) (inner : Projection) :
    Maintains (Spared c₀) (deferList path parent options inner) fun _ => True := by
  apply maintains_bind (Q := fun _ => True)
  · unfold takeCriteria
    cases options.criteria with
    | none => exact maintains_pure trivial
    | some criteria => exact spared_takeFromPool criteria.name
  · exact fun _ _ => spared_modify fun _ => ⟨rfl, rfl⟩

theorem spared_selectKey (base : String) :
    Maintains (Spared c₀) (selectKey s base mode) fun _ => True := by
  apply maintains_bind (spared_resolve _)
  intro key _
  have hfield : Maintains (Spared c₀) (onQuery (·.field key.column Path.idSegment)) fun _ => True :=
    spared_modify fun _ => ⟨rfl, rfl⟩
  apply maintains_bind hfield
  intro _ _
  apply spared_modify
  intro c
  split <;> exact ⟨rfl, rfl⟩

theorem spared_groupPrimitives (grouped : Bool) :
    Maintains (Spared c₀) (groupPrimitives grouped) fun _ => True := by
  apply spared_modify
  intro c
  split <;> exact ⟨rfl, rfl⟩

structure Handed (x : Choice) (c c' : Compilation) : Prop where
  dependencies : c'.dependencies = match x.sibling with
    | none => c.dependencies
    | some entity =>
      if entity ∈ c.dependencies then c.dependencies else c.dependencies ++ [entity]
  handlers : ∃ handlers, x.Handled c'.dependencies handlers ∧ c'.handlers = c.handlers ++ handlers

theorem Handed.extends_dependencies (h : Handed x c c') :
    c.dependencies <+: c'.dependencies := by
  rw [h.dependencies]
  cases x.sibling with
  | none => exact List.prefix_rfl
  | some entity =>
    dsimp only
    split
    · exact List.prefix_rfl
    · exact List.prefix_append _ _

theorem handed_selectPlain {type : Option SqlType}
    (h : selectPlain y label type c = (.ok ⟨⟩, c')) :
    Handed ⟨⟨label, y, none⟩, type, none⟩ c c' := by
  unfold selectPlain onQuery at h
  rw [bind_of_ok (modify_apply _ c), bind_of_ok (addPrimitive_apply y _)] at h
  cases h
  exact ⟨rfl, _, .intro .values (Choice.reading_forColumn label type), rfl⟩

theorem handed_selectFunction {f : ColumnFunction}
    (h : selectFunction s label r f c = (.ok ⟨⟩, c')) :
    Handed ⟨⟨label, r.column, some f⟩, Choice.typeOf r.type (some f), none⟩ c c' := by
  unfold selectFunction onQuery at h
  rw [bind_of_ok (modify_apply _ c), f.resultType_eq r.type] at h
  have hreading := Choice.reading_forColumn label (Choice.typeOf r.type (some f))
  cases hf : f.isAggregate with
  | true =>
    rw [hf] at h
    cases h
    exact ⟨rfl, _, .intro .values hreading, rfl⟩
  | false =>
    rw [hf] at h
    change (addPrimitive r.column >>= fun _ => _) _ = _ at h
    rw [bind_of_ok (addPrimitive_apply r.column _)] at h
    cases h
    exact ⟨rfl, _, .intro .values hreading, rfl⟩

theorem handed_selectResolved {leaf : FieldLeaf} (h : selectResolved s leaf r c = (.ok ⟨⟩, c')) :
    Handed ⟨⟨leaf.label, r.column, leaf.function⟩, Choice.typeOf r.type leaf.function, none⟩
      c c' := by
  unfold selectResolved at h
  cases hf : leaf.function with
  | none =>
    rw [hf] at h
    exact handed_selectPlain h
  | some f =>
    rw [hf] at h
    exact handed_selectFunction h

theorem dependency_ok {i : Nat} (h : dependency entity c = (.ok i, c')) :
    c'.dependencies = (if entity ∈ c.dependencies then c.dependencies
      else c.dependencies ++ [entity]) ∧
    c'.dependencies[i]? = some entity ∧ c'.handlers = c.handlers := by
  unfold dependency at h
  rw [bind_of_ok (get_apply c)] at h
  cases hi : c.dependencies.idxOf? entity with
  | some i =>
    rw [hi] at h
    cases h
    obtain ⟨hlt, hentity, -⟩ := List.idxOf?_eq_some_iff.1 hi
    have hmem : entity ∈ c.dependencies := hentity ▸ List.getElem_mem hlt
    exact ⟨(if_pos hmem).symm, List.getElem?_eq_some_iff.2 ⟨hlt, hentity⟩, rfl⟩
  | none =>
    rw [hi] at h
    cases h
    exact ⟨(if_neg (List.idxOf?_eq_none_iff.1 hi)).symm, List.getElem?_concat_length, rfl⟩

theorem handed_selectSiblings (h : selectSiblings s path label r c = (.ok ⟨⟩, c')) :
    s.cached r.entity = true ∧
      Handed ⟨⟨label, r.column, some .groupConcat⟩, none, some r.entity⟩ c c' := by
  unfold selectSiblings at h
  by_cases hcached : s.cached r.entity = true
  · rw [if_pos hcached] at h
    obtain ⟨i, u, hu, h⟩ := bind_ok h
    obtain ⟨hdependencies, hi, hhandlers⟩ := dependency_ok hu
    have hreplacing : Choice.Replacing u.dependencies label (some r.entity)
        [.denormalize label i] := .siblings hi
    unfold onQuery addHandlers at h
    rw [bind_of_ok (modify_apply _ u), bind_of_ok (modify_apply _ _)] at h
    refine ⟨hcached, ?_⟩
    cases hdotted : Handler.isDotted label with
    | true =>
      rw [if_pos hdotted] at h
      cases h
      refine ⟨hdependencies, _, .intro hreplacing (.unflatten hdotted), ?_⟩
      simp only [hhandlers, List.append_assoc]
    | false =>
      rw [if_neg (by simp [hdotted])] at h
      cases h
      refine ⟨hdependencies, _, .intro hreplacing (.plain hdotted nofun), ?_⟩
      simp only [hhandlers, List.append_nil]
  · rw [if_neg hcached] at h
    cases h

structure Wired (s : Setting) (base : String) (leaves : List (String × Leaf))
    (choices : List Choice) (c : Compilation) : Prop where
  gathered : Gathered s base leaves (choices.map Choice.toPick) c
  chosen : Chooses s base c.query.source.aliases leaves choices
  dependencies : c.dependencies = (choices.filterMap Choice.sibling).eraseDups
  handlers : Choice.Attended c.dependencies choices c.handlers

theorem Wired.planned {waiting : Option ScopedPredicate} (h : Wired s base leaves choices c)
    (hrun : Planning.Run s.schema s.root mode (c.planning waiting) t) :
    Wired s base leaves choices (c.planned t) :=
  ⟨h.gathered.planned hrun, h.chosen.mono (keeps_planned hrun).aliases, h.dependencies, h.handlers⟩

theorem Wired.kept (h : Wired s base leaves choices c) (hk : Kept c c') (hs : Spared c c') :
    Wired s base leaves choices c' where
  gathered := h.gathered.kept hk
  chosen := by
    rw [hk.query]
    exact h.chosen
  dependencies := hs.dependencies.trans h.dependencies
  handlers := by
    rw [hs.handlers, hs.dependencies]
    exact h.handlers

theorem Wired.withMiddlewares (h : Wired s base leaves choices c) (middlewares : List Middleware) :
    Wired s base leaves choices { c with middlewares } :=
  h.kept ⟨rfl, rfl, rfl, rfl⟩ ⟨rfl, rfl⟩

theorem Wired.picked (h : Wired s base leaves choices c) (hp : Picked s.dialect x.toPick c c')
    (hx : Handed x c c') (hl : Chooses s base c.query.source.aliases [l] [x]) :
    Wired s base (leaves ++ [l]) (choices ++ [x]) c' where
  gathered := by
    rw [List.map_append]
    exact h.gathered.picked hp hl.selects
  chosen := by
    rw [hp.query]
    exact h.chosen.append hl
  dependencies := by
    rw [hx.dependencies, h.dependencies, List.filterMap_append]
    cases hsibling : x.sibling with
    | none => simp [hsibling]
    | some entity =>
      have hlast : [x].filterMap Choice.sibling = [entity] := by simp [hsibling]
      rw [hlast, eraseDups_concat]
      simp only [List.mem_eraseDups]
  handlers := by
    obtain ⟨handlers, hhandled, hhandlers⟩ := hx.handlers
    have hlast := Choice.Attended.cons hhandled .nil
    rw [List.append_nil] at hlast
    rw [hhandlers]
    exact (h.handlers.mono hx.extends_dependencies).append hlast

theorem Wired.column (h : Wired s base leaves choices c)
    (hl : selectColumn s (Path.under base path) mode label c = (.ok b, c')) :
    ∃ x, Wired s base (leaves ++ [(path, .column label)]) (choices ++ [x]) c' := by
  unfold selectColumn at hl
  obtain ⟨r, u, hr, hl⟩ := bind_ok hl
  obtain ⟨_, v, hv, hl⟩ := bind_ok hl
  cases hl
  obtain ⟨t, harrived, rfl⟩ := resolve_ok hr
  obtain ⟨d, tableAlias, hleads, rfl⟩ := h.gathered.resolved harrived
  have hplanned := h.planned harrived.run
  cases htail : d.tail with
  | true =>
    rw [show (d.under tableAlias).tail = true from htail] at hv
    obtain ⟨hcached, hhanded⟩ := handed_selectSiblings hv
    exact ⟨_, hplanned.picked (picked_selectSiblings hv) hhanded
      (.siblings hleads htail hcached .nil)⟩
  | false =>
    rw [show (d.under tableAlias).tail = false from htail] at hv
    exact ⟨_, hplanned.picked (picked_selectPlain hv) (handed_selectPlain hv)
      (.column hleads htail .nil)⟩

theorem Wired.field {leaf : FieldLeaf} (h : Wired s base leaves choices c)
    (hl : selectField s (Path.under base path) base mode leaf c = (.ok b, c')) :
    ∃ x, Wired s base (leaves ++ [(path, .field leaf)]) (choices ++ [x]) c' := by
  unfold selectField at hl
  rw [bind_of_ok (get_apply c)] at hl
  obtain ⟨⟨r, applied⟩, u, hr, hl⟩ := bind_ok hl
  obtain ⟨_, v, hv, hl⟩ := bind_ok hl
  obtain ⟨_, w, hw, hl⟩ := bind_ok hl
  cases hl
  obtain ⟨t, harrived, rfl, -⟩ := resolveScoped_ok hr
  obtain ⟨d, tableAlias, hleads, rfl⟩ := h.gathered.resolved harrived
  have hkept := kept_takeScoped hv
  have hwired := (h.planned harrived.run).kept hkept (spared_of_ok (spared_takeScoped _ _) hv)
  rw [← hkept.query] at hleads
  exact ⟨_, hwired.picked (picked_selectResolved hw) (handed_selectResolved hw)
    (.field hleads .nil)⟩

theorem Wired.list {options : NestedOptions} {inner : Projection}
    (h : Wired s base leaves choices c)
    (hl : deferList (Path.under base path) base options inner c = (.ok ⟨⟩, c')) :
    Wired s base (leaves ++ [(path, .list options inner)]) choices c' := by
  have hkept := kept_deferList hl
  obtain ⟨-, hchosen, hdependencies, hhandlers⟩ :=
    h.kept hkept (spared_of_ok (spared_deferList _ _ _ _) hl)
  refine ⟨h.gathered.list hkept, ?_, hdependencies, hhandlers⟩
  simpa using hchosen.append (.list .nil)

theorem Wired.leaf (h : Wired s base leaves choices c)
    (hl : Compilation.leaf s base mode l c = (.ok b, c')) :
    ∃ more, Wired s base (leaves ++ [l]) (choices ++ more) c' := by
  obtain ⟨path, l⟩ := l
  cases l with
  | column label =>
    obtain ⟨x, hx⟩ := h.column hl
    exact ⟨[x], hx⟩
  | field leaf =>
    obtain ⟨x, hx⟩ := h.field hl
    exact ⟨[x], hx⟩
  | list options inner =>
    obtain ⟨_, u, hu, hl⟩ := bind_ok hl
    cases hl
    refine ⟨[], ?_⟩
    rw [List.append_nil]
    exact h.list hu

theorem Wired.mapM {ls : List (String × Leaf)} {bs : List Bool} (h : Wired s base leaves choices c)
    (hl : ls.mapM (Compilation.leaf s base mode) c = (.ok bs, c')) :
    ∃ more, Wired s base (leaves ++ ls) (choices ++ more) c' := by
  induction ls generalizing leaves choices c bs with
  | nil =>
    cases hl
    exact ⟨[], by simpa using h⟩
  | cons l ls ih =>
    obtain ⟨b, u, bs', hb, hbs, rfl⟩ := mapM_cons_ok hl
    obtain ⟨first, hfirst⟩ := h.leaf hb
    obtain ⟨rest, hrest⟩ := ih hfirst hbs
    exact ⟨first ++ rest, by simpa using hrest⟩

theorem wired_start (s : Setting) (base : String) (pool : Pool) (uses : Nat) :
    Wired s base [] [] (start s pool uses) :=
  ⟨gathered_start s base pool uses, .nil, rfl, .nil⟩

theorem aliases_groupPrimitives {grouped : Bool} (h : groupPrimitives grouped c = (.ok ⟨⟩, c')) :
    c'.query.source.aliases = c.query.source.aliases := by
  unfold groupPrimitives at h
  rw [modify_apply] at h
  cases h
  cases grouped with
  | false => rfl
  | true =>
    obtain ⟨groupBy, hsource⟩ := QueryPair.foldl_group_source c.primitives c.query
    simp only [if_true, hsource]
    rfl

theorem Wired.fields {p : Projection} {nested : Bool} (h : Wired s base [] [] c)
    (hf : Compilation.fields s p base nested mode c = (.ok b, c')) :
    ∃ choices key, Wiring s base p.leaves choices key (c'.finish s) := by
  unfold Compilation.fields at hf
  obtain ⟨aggregates, u, hu, hf⟩ := bind_ok hf
  obtain ⟨_, v, hv, hf⟩ := bind_ok hf
  obtain ⟨_, w, hw, hf⟩ := bind_ok hf
  cases hf
  obtain ⟨choices, hwired⟩ := h.mapM hu
  rw [List.nil_append, List.nil_append] at hwired
  obtain ⟨t, r, harrived, hkey⟩ := selectKey_ok hv
  obtain ⟨d, hleads, -⟩ := hwired.gathered.arrived harrived
  have hplanned := hwired.planned harrived.run
  have hspared : Spared u c' := (spared_of_ok (spared_selectKey base) hv).trans
    (spared_of_ok (spared_groupPrimitives _) hw)
  have haliases : c'.query.source.aliases = (u.planned t).query.source.aliases := by
    rw [aliases_groupPrimitives hw, hkey.query]
    rfl
  have hfields : c'.query.fields
      = choices.map (fun x => x.toPick.field s.dialect) ++ [⟨r.column, some Path.idSegment⟩] := by
    rw [fields_groupPrimitives hw, hplanned.gathered.fields_picked hkey, List.map_append,
      List.map_map]
    rfl
  refine ⟨choices, r.column, ?_, ⟨d, ?_⟩, hfields, hspared.dependencies.trans hwired.dependencies,
    ?_⟩
  · change Chooses s base c'.query.source.aliases p.leaves choices
    rw [haliases]
    exact hplanned.chosen
  · change Leads s c'.query.source.aliases _ d r.column
    rw [haliases]
    exact hleads
  · change Choice.Attended c'.dependencies choices c'.handlers
    rw [hspared.dependencies, hspared.handlers]
    exact hwired.handlers

end Compilation

namespace Wiring

variable {s : Setting} {base key : String} {leaves : List (String × Leaf)} {choices : List Choice}
  {c c' : Compilation} {q : CompiledQuery} {i j : Nat}

open Compilation

theorem keeps (h : Wiring s base leaves choices key (c.finish s)) (hk : Keeps c c')
    (hs : Spared c c') : Wiring s base leaves choices key (c'.finish s) where
  chosen := h.chosen.mono hk.aliases
  located := by
    obtain ⟨d, hd⟩ := h.located
    exact ⟨d, hd.mono hk.aliases⟩
  fields := hk.fields.trans h.fields
  dependencies := hs.dependencies.trans h.dependencies
  handlers := by
    change Choice.Attended c'.dependencies choices c'.handlers
    rw [hs.dependencies, hs.handlers]
    exact h.handlers

theorem of_projection {p : Projection} {pool : Pool} {uses : Nat} {b : Bool}
    (h : projection s p (start s pool uses) = (.ok b, c)) :
    ∃ choices key, Wiring s "" p.leaves choices key (c.finish s) := by
  unfold projection setMiddlewares at h
  rw [bind_of_ok (modify_apply _ _)] at h
  exact ((wired_start s "" pool uses).withMiddlewares _).fields h

theorem of_compileSteps {m : Model} {p : Projection} {r : Request}
    (h : run s r.criteria (Provider.compileSteps s m p r) i = (.ok q, j)) :
    ∃ choices key, Wiring s "" p.leaves choices key q := by
  obtain ⟨c, hc, rfl, -⟩ := run_ok h
  unfold Provider.compileSteps at hc
  obtain ⟨b, u, hu, hc⟩ := bind_ok hc
  obtain ⟨choices, key, hwiring⟩ := of_projection hu
  have hamended := amended_of_ok (Provider.amended_applyRequest (s := s)) hc
  exact ⟨choices, key, hwiring.keeps hamended.keeps hamended.spared⟩

theorem of_nestedQuery {task : NestedTask} {parentId : Value}
    (h : nestedQuery s task parentId i = (.ok q, j)) :
    ∃ choices key, Wiring s task.path task.inner.leaves choices key q := by
  obtain ⟨c, hc, rfl, -⟩ := run_ok h
  obtain ⟨anchor, anchored, b, u, hanchor, hfields, happly⟩ := nestedSteps_ok hc
  obtain ⟨t, harrived, rfl⟩ := resolve_ok hanchor
  have hstart := (wired_start s task.path task.pool i).planned harrived.run
  obtain ⟨choices, key, hwiring⟩ := (hstart.withMiddlewares _).fields hfields
  exact ⟨choices, key, hwiring.keeps (keeps_applyNested happly) (spared_applyNested happly)⟩

end Wiring

/-- Whatever is compiled, a projection, a list for any parent or a request, its handlers are those
of its leaves, one leaf after the other. A column that ends in an association has its ids replaced
by records of the entity there, whose list is cached, and its handler has the position of the entity
among the dependencies, where none stands twice. Then a dotted label is moved, and an undotted one
coerced if its type is boolean or one of integers. The leaves that are no lists are selected in
order, and the key after them. -/
theorem handlers_attend_leaves :
    (∀ s p pool uses b c,
      Compilation.projection s p (Compilation.start s pool uses) = (.ok b, c) →
      ∃ choices key, Wiring s "" p.leaves choices key (c.finish s) ∧
        Consistent s "" p.leaves choices (c.finish s)) ∧
    (∀ s task parentId i q j, Compilation.nestedQuery s task parentId i = (.ok q, j) →
      ∃ choices key, Wiring s task.path task.inner.leaves choices key q ∧
        Consistent s task.path task.inner.leaves choices q) ∧
    ∀ (p : Provider) model r i q j, p.compile model r i = (.ok q, j) →
      ∃ m root projection choices key, p.model model = .ok m ∧ p.schema.entity m.entity = .ok root ∧
        m.projection (r.projection.getD p.config.defaultProjection) = .ok projection ∧
        Wiring (p.setting root) "" projection.leaves choices key q ∧
        Consistent (p.setting root) "" projection.leaves choices q := by
  refine ⟨?_, ?_, ?_⟩
  · intro s p pool uses b c h
    obtain ⟨choices, key, hwiring⟩ := Wiring.of_projection h
    exact ⟨choices, key, hwiring, hwiring.consistent⟩
  · intro s task parentId i q j h
    obtain ⟨choices, key, hwiring⟩ := Wiring.of_nestedQuery h
    exact ⟨choices, key, hwiring, hwiring.consistent⟩
  · intro p model r i q j h
    obtain ⟨m, root, projection, v, hm, hroot, hprojection, hrun, -⟩ := Provider.compile_ok h
    obtain ⟨choices, key, hwiring⟩ := Wiring.of_compileSteps hrun
    exact ⟨m, root, projection, choices, key, hm, hroot, hprojection, hwiring, hwiring.consistent⟩

namespace Blog

def texts : Projection := .column "$id" "id" (.column "body" "text.body" (.done []))

def overview : Projection :=
  .column "title" "post.title" (.column "comments" "replies.all"
    (.field "comments.$id" ⟨"count", some .count, .left, none⟩
      (.list "comments" ⟨"texts", none, none, .left⟩ texts
        (.column "comments" "replies" (.column "author.$id" "author" (.done []))))))

def overviews : Provider := ⟨schema, .sqlite, .standard,
  [("Post", (Model.ofEntity "Post").withProjection "default" overview),
    ("Comment", keptComments "default")]⟩

def site : Setting := overviews.setting post

def textList : NestedTask := ⟨"comments", "", ⟨"texts", none, none, .left⟩, texts, none, []⟩

def overviewHandlers : List Handler :=
  [.unflatten "post.title" (some .text), .denormalize "replies.all" 0,
    .unflatten "replies.all" none, .coerce "count" .bigInt, .denormalize "replies" 0,
    .coerce "author" .bigInt]

end Blog

theorem handlers_attend_leaves_blog :
    (∃ b c choices key,
      Compilation.projection Blog.site Blog.overview (Compilation.start Blog.site [] 0)
        = (.ok b, c) ∧
      c.dependencies = ["Comment"] ∧ c.handlers = Blog.overviewHandlers ∧
      Wiring Blog.site "" Blog.overview.leaves choices key (c.finish Blog.site)) ∧
    (∃ q j choices key, Compilation.nestedQuery Blog.site Blog.textList (.int 1) 0 = (.ok q, j) ∧
      q.dependencies = [] ∧
      q.handlers = [.coerce "id" .bigInt, .unflatten "text.body" (some .text)] ∧
      Wiring Blog.site "comments" Blog.texts.leaves choices key q) ∧
    ∃ q j choices key, Blog.overviews.compile "Post" .empty 0 = (.ok q, j) ∧
      q.dependencies = ["Comment"] ∧ q.handlers = Blog.overviewHandlers ∧
      Wiring Blog.site "" Blog.overview.leaves choices key q := by
  obtain ⟨hprojection, hnested, hcompile⟩ := handlers_attend_leaves
  refine ⟨?_, ?_, ?_⟩
  · obtain ⟨b, hb⟩ := ok_of_toBool (m := Compilation.projection Blog.site Blog.overview)
      (s := Compilation.start Blog.site [] 0) (by decide +kernel)
    obtain ⟨choices, key, hwiring, -⟩ := hprojection Blog.site Blog.overview [] 0 b _ hb
    exact ⟨b, _, choices, key, hb, by decide +kernel, by decide +kernel, hwiring⟩
  · obtain ⟨q, j, hq, hread⟩ := ok_of_toOption_map
      (m := Compilation.nestedQuery Blog.site Blog.textList (.int 1)) (s := 0)
      (f := fun q => (q.dependencies, q.handlers))
      (b := ([], [.coerce "id" .bigInt, .unflatten "text.body" (some .text)])) (by decide +kernel)
    obtain ⟨hdependencies, hhandlers⟩ := Prod.mk.inj hread
    obtain ⟨choices, key, hwiring, -⟩ := hnested Blog.site Blog.textList (.int 1) 0 q j hq
    exact ⟨q, j, choices, key, hq, hdependencies, hhandlers, hwiring⟩
  · obtain ⟨q, j, hq, hread⟩ := ok_of_toOption_map (m := Blog.overviews.compile "Post" .empty)
      (s := 0) (f := fun q => (q.dependencies, q.handlers))
      (b := (["Comment"], Blog.overviewHandlers)) (by decide +kernel)
    obtain ⟨hdependencies, hhandlers⟩ := Prod.mk.inj hread
    obtain ⟨m, root, projection, choices, key, hm, hroot, hchosen, hwiring, -⟩ :=
      hcompile Blog.overviews "Post" .empty 0 q j hq
    cases hm
    cases hroot
    cases hchosen
    exact ⟨q, j, choices, key, hq, hdependencies, hhandlers, hwiring⟩

end RecordQuery
