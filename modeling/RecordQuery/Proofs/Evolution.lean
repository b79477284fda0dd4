import RecordQuery.Proofs.Emission.Serving
import RecordQuery.Proofs.Joining.Tree
import RecordQuery.Proofs.Selection.Amending

namespace RecordQuery

open Steps

def Projection.Modes (M : JoinMode → Prop) (p : Projection) : Prop :=
  ∀ l ∈ p.leaves, ∀ leaf, l.2 = .field leaf → leaf.join = .inner → M .forceInner

theorem Source.group_eq (x : String) (s : Source) : ∃ groupBy, s.group x = { s with groupBy } := by
  unfold group
  split
  · exact ⟨s.groupBy, rfl⟩
  · exact ⟨_, rfl⟩

theorem QueryPair.foldl_group_source (xs : List String) (q : QueryPair) :
    ∃ groupBy, (xs.foldl group q).source = { q.source with groupBy } := by
  induction xs generalizing q with
  | nil => exact ⟨q.source.groupBy, rfl⟩
  | cons x xs ih =>
    obtain ⟨groupBy, hsource⟩ := ih (q.group x)
    obtain ⟨_, hgroup⟩ := q.source.group_eq x
    refine ⟨groupBy, ?_⟩
    rw [List.foldl_cons, hsource, group, hgroup]

namespace Compilation

variable {s : Setting} {M : JoinMode → Prop} {path base label : String} {mode : JoinMode}
  {waiting : Option ScopedPredicate} {c c' c₀ : Compilation} {t : Planning} {r : Resolved}

/-- Neither a join nor the filter changes, nor what is loaded from caches. -/
structure Aside (c c' : Compilation) : Prop where
  plan : c'.plan = c.plan
  tableAlias : c'.query.source.tableAlias = c.query.source.tableAlias
  joins : c'.query.source.joins = c.query.source.joins
  filter : c'.query.source.filter = c.query.source.filter
  dependencies : c'.dependencies = c.dependencies

/-- A step of a compilation joins paths, adds a condition, asks for a cached list, or does none of
these. -/
inductive Evolves (s : Setting) (M : JoinMode → Prop) (c : Compilation) : Compilation → Prop
  | join {mode : JoinMode} {waiting : Option ScopedPredicate} {t : Planning} : M mode →
    Planning.Run s.schema s.root mode (c.planning waiting) t → Evolves s M c (c.planned t)
  | filter (d : Condition) : Evolves s M c { c with query := c.query.addFilter d }
  | sibling {entity : String} : s.cached entity = true →
    Evolves s M c { c with dependencies := c.dependencies ++ [entity] }
  | aside {c' : Compilation} : Aside c c' → Evolves s M c c'

abbrev Evolved (s : Setting) (M : JoinMode → Prop) : Compilation → Compilation → Prop :=
  Relation.ReflTransGen (Evolves s M)

theorem Amends.evolves (hM : M .left) (h : Amends s c c') : Evolves s M c c' := by
  cases h with
  | join hrun => exact .join hM hrun
  | filter d => exact .filter d
  | order | having | page | use => exact .aside ⟨rfl, rfl, rfl, rfl, rfl⟩

theorem Evolved.dependencies (h : Evolved s M c c') (hc : ∀ d ∈ c.dependencies, s.cached d = true) :
    ∀ d ∈ c'.dependencies, s.cached d = true := by
  induction h with
  | refl => exact hc
  | tail _ hstep ih =>
    cases hstep with
    | join | filter => exact ih
    | sibling hentity =>
      intro d hd
      rcases List.mem_append.1 hd with hd | hd
      · exact ih d hd
      · exact List.mem_singleton.1 hd ▸ hentity
    | aside haside => exact haside.dependencies ▸ ih

/-- What planning establishes of a compilation. -/
structure Planted (s : Setting) (c : Compilation) : Prop where
  orderly : (c.planning none).Orderly
  grown : Planning.Grown s.schema s.root (c.planning none)

theorem extends_same (hplan : c'.plan = c.plan)
    (hjoins : c'.query.source.joins = c.query.source.joins) :
    Planning.Extends (c.planning none) (c'.planning none) where
  rootAlias := congrArg JoinPlan.rootAlias hplan
  joined := by
    intro p joined hj
    simpa only [planning, hplan] using hj
  joins := by
    simp only [planning, hjoins]
    exact List.prefix_rfl

theorem Planted.same (h : Planted s c) (hplan : c'.plan = c.plan)
    (halias : c'.query.source.tableAlias = c.query.source.tableAlias)
    (hjoins : c'.query.source.joins = c.query.source.joins) : Planted s c' where
  orderly := by
    obtain ⟨hrecorded, hnumbered, hdistinct, hinScope⟩ := h.orderly
    simp only [planning, Source.aliases] at hrecorded hnumbered hdistinct hinScope
    constructor <;> simpa only [planning, Source.aliases, hplan, halias, hjoins]
  grown := by
    refine h.grown.extends (extends_same hplan hjoins) (congrArg JoinPlan.joined hplan)
      fun j hj => ?_
    simp only [planning, hjoins] at hj
    exact .inl hj

theorem Evolves.extends (h : Evolves s M c c') :
    Planning.Extends (c.planning none) (c'.planning none) := by
  cases h with
  | @join mode waiting t _ hrun =>
    have hext : Planning.Extends (c.planning waiting) t := hrun.extends
    exact ⟨hext.rootAlias, hext.joined, hext.joins⟩
  | filter | sibling => exact extends_same rfl rfl
  | aside haside => exact extends_same haside.plan haside.joins

theorem Evolved.extends (h : Evolved s M c c') :
    Planning.Extends (c.planning none) (c'.planning none) := by
  induction h with
  | refl => exact .refl _
  | tail _ hstep ih => exact ih.trans hstep.extends

theorem Evolves.planted (h : Planted s c) (he : Evolves s M c c') : Planted s c' := by
  cases he with
  | @join mode waiting t _ hrun =>
    have horderly : (c.planning waiting).Orderly := h.orderly.awaiting waiting
    have hgrown : Planning.Grown s.schema s.root (c.planning waiting) := h.grown.awaiting waiting
    exact ⟨(horderly.run hrun).awaiting none, (hgrown.run horderly hrun).awaiting none⟩
  | filter | sibling => exact h.same rfl rfl rfl
  | aside haside => exact h.same haside.plan haside.tableAlias haside.joins

theorem Evolved.planted (h : Planted s c) (he : Evolved s M c c') : Planted s c' := by
  induction he with
  | refl => exact h
  | tail _ hstep ih => exact hstep.planted ih

theorem Evolved.carries {I : Planning → Prop} (hc : Planted s c) (he : Evolved s M c c')
    (hrun : ∀ {mode t u}, t.Orderly → I t → Planning.Run s.schema s.root mode t u → I u)
    (hsame : ∀ {t u : Planning}, u.plan = t.plan →
      u.query.source.tableAlias = t.query.source.tableAlias →
      u.query.source.joins = t.query.source.joins → I t → I u)
    (h : I (c.planning none)) : I (c'.planning none) := by
  induction he with
  | refl => exact h
  | @tail u _ hbefore hstep ih =>
    have horderly := (Evolved.planted hc hbefore).orderly
    cases hstep with
    | @join mode waiting t _ ht =>
      have hwaiting : I (u.planning waiting) := hsame (t := u.planning none) rfl rfl rfl ih
      exact hsame (t := t) rfl rfl rfl (hrun (horderly.awaiting waiting) hwaiting ht)
    | filter | sibling => exact hsame (t := u.planning none) rfl rfl rfl ih
    | aside haside =>
      exact hsame (t := u.planning none) haside.plan haside.tableAlias haside.joins ih

theorem planted_start (s : Setting) (pool : Pool) (uses : Nat) : Planted s (start s pool uses) := by
  have hstart : Planning.Reachable s.schema s.root
      ⟨.ofRoot s.root, .ofTable s.root.table (JoinPlan.ofRoot s.root).rootAlias, none⟩ := .start
  have hbare : Planted s { start s pool uses with
      query := .ofTable s.root.table (JoinPlan.ofRoot s.root).rootAlias } :=
    ⟨hstart.orderly, hstart.grown⟩
  unfold start Planning.notDeleted at hbare ⊢
  cases s.root.softDelete with
  | none => exact hbare
  | some column => exact hbare.same rfl rfl rfl

theorem evolved_of_amended (hM : M .left) {α : Type} {m : Steps Compilation α}
    (h : ∀ c, Maintains (Amended s c) m fun _ => True) :
    Maintains (Evolved s M c₀) m fun _ => True := by
  intro c hc
  have hm := (h c c .refl).1
  exact ⟨hc.trans (Relation.ReflTransGen.mono (fun _ _ => Amends.evolves hM) _ _ hm),
    fun _ _ => trivial⟩

theorem evolved_of_ok {α : Type} {m : Steps Compilation α} {a : α}
    (hm : Maintains (Evolved s M c) m fun _ => True) (h : m c = (.ok a, c')) :
    Evolved s M c c' := by
  have hevolved := (hm c .refl).1
  rw [h] at hevolved
  exact hevolved

theorem evolved_modify {f : Compilation → Compilation} (hf : ∀ c, Aside c (f c)) :
    Maintains (Evolved s M c₀) (modify f) fun _ => True :=
  maintains_modify fun c hc => hc.tail (.aside (hf c))

theorem evolved_resolveScoped (hM : M mode) (path : String) (waiting : Option ScopedPredicate) :
    Maintains (Evolved s M c₀) (resolveScoped s path mode waiting) fun _ => True := by
  intro c hc
  obtain ⟨x, t, hwalked, heq⟩ := resolveScoped_walked s path mode waiting c
  rw [heq]
  exact ⟨hc.tail (.join hM hwalked.run), fun _ _ => trivial⟩

theorem evolved_resolve (hM : M mode) (path : String) :
    Maintains (Evolved s M c₀) (resolve s path mode) fun _ => True := by
  apply maintains_bind (evolved_resolveScoped hM path none)
  exact fun _ _ => maintains_pure trivial

theorem evolved_addPrimitive (x : String) :
    Maintains (Evolved s M c₀) (addPrimitive x) fun _ => True := by
  apply evolved_modify
  intro c
  split <;> exact ⟨rfl, rfl, rfl, rfl, rfl⟩

theorem evolved_addHandlers (handlers : List Handler) :
    Maintains (Evolved s M c₀) (addHandlers handlers) fun _ => True :=
  evolved_modify fun _ => ⟨rfl, rfl, rfl, rfl, rfl⟩

theorem evolved_field (expression label : String) :
    Maintains (Evolved s M c₀) (onQuery (·.field expression label)) fun _ => True :=
  evolved_modify fun _ => ⟨rfl, rfl, rfl, rfl, rfl⟩

theorem evolved_takeFromPool (name : String) :
    Maintains (Evolved s M c₀) (takeFromPool name) fun _ => True := by
  apply maintains_bind maintains_get
  intro c hc
  refine maintains_bind (maintains_set (hc.tail (.aside ?_))) fun _ _ => maintains_pure trivial
  exact ⟨rfl, rfl, rfl, rfl, rfl⟩

theorem evolved_dependency {entity : String} (h : s.cached entity = true) :
    Maintains (Evolved s M c₀) (dependency entity) fun _ => True := by
  apply maintains_bind maintains_get
  intro c hc
  cases c.dependencies.idxOf? entity with
  | some i => exact maintains_pure trivial
  | none =>
    apply maintains_bind (maintains_set (hc.tail (.sibling h)))
    exact fun _ _ => maintains_pure trivial

theorem evolved_takeScoped (leaf : FieldLeaf) (applied : Bool) :
    Maintains (Evolved s M c₀) (takeScoped leaf applied) fun _ => True := by
  unfold takeScoped
  split
  · exact evolved_takeFromPool _
  · exact maintains_pure trivial

theorem evolved_deferList (path parent : String) (options : NestedOptions) (inner : Projection) :
    Maintains (Evolved s M c₀) (deferList path parent options inner) fun _ => True := by
  apply maintains_bind (Q := fun _ => True)
  · unfold takeCriteria
    cases options.criteria with
    | none => exact maintains_pure trivial
    | some criteria => exact evolved_takeFromPool criteria.name
  · exact fun _ _ => evolved_modify fun _ => ⟨rfl, rfl, rfl, rfl, rfl⟩

theorem evolved_selectPlain (x label : String) (type : Option SqlType) :
    Maintains (Evolved s M c₀) (selectPlain x label type) fun _ => True := by
  apply maintains_bind (evolved_field x label)
  intro _ _
  apply maintains_bind (evolved_addPrimitive x)
  exact fun _ _ => evolved_addHandlers _

theorem evolved_selectFunction (label : String) (r : Resolved) (f : ColumnFunction) :
    Maintains (Evolved s M c₀) (selectFunction s label r f) fun _ => True := by
  apply maintains_bind (evolved_field _ label)
  intro _ _
  apply maintains_bind (Q := fun _ => True)
  · apply maintains_ite
    · exact fun _ => maintains_pure trivial
    · exact fun _ => evolved_addPrimitive r.column
  · exact fun _ _ => evolved_addHandlers _

theorem evolved_selectResolved (leaf : FieldLeaf) (r : Resolved) :
    Maintains (Evolved s M c₀) (selectResolved s leaf r) fun _ => True := by
  unfold selectResolved
  cases leaf.function with
  | none => exact evolved_selectPlain _ _ _
  | some f => exact evolved_selectFunction _ r f

theorem evolved_selectSiblings (path label : String) (r : Resolved) :
    Maintains (Evolved s M c₀) (selectSiblings s path label r) fun _ => True := by
  apply maintains_ite
  · intro hcached
    apply maintains_bind (evolved_dependency hcached)
    intro position _
    apply maintains_bind (evolved_field _ label)
    intro _ _
    apply maintains_bind (evolved_addHandlers _)
    intro _ _
    apply maintains_ite
    · exact fun _ => evolved_addHandlers _
    · exact fun _ => maintains_pure trivial
  · exact fun _ => maintains_throw

theorem evolved_selectColumn (hM : M mode) (path label : String) :
    Maintains (Evolved s M c₀) (selectColumn s path mode label) fun _ => True := by
  apply maintains_bind (evolved_resolve hM path)
  intro r _
  apply maintains_bind (Q := fun _ => True)
  · apply maintains_ite
    · exact fun _ => evolved_selectSiblings path label r
    · exact fun _ => evolved_selectPlain _ _ _
  · exact fun _ _ => maintains_pure trivial

theorem evolved_selectField (hM : M mode) {leaf : FieldLeaf}
    (hleaf : leaf.join = .inner → M .forceInner) (path base : String) :
    Maintains (Evolved s M c₀) (selectField s path base mode leaf) fun _ => True := by
  have hmode : M (if leaf.join = .inner then .forceInner else mode) := by
    split
    · next hinner => exact hleaf hinner
    · exact hM
  apply maintains_bind maintains_get
  intro c _
  apply maintains_bind (evolved_resolveScoped hmode path _)
  rintro ⟨r, applied⟩ _
  apply maintains_bind (evolved_takeScoped leaf applied)
  intro _ _
  apply maintains_bind (evolved_selectResolved leaf r)
  exact fun _ _ => maintains_pure trivial

theorem evolved_leaf (hM : M mode) {l : String × Leaf}
    (hl : ∀ leaf, l.2 = .field leaf → leaf.join = .inner → M .forceInner) (base : String) :
    Maintains (Evolved s M c₀) (leaf s base mode l) fun _ => True := by
  obtain ⟨path, l⟩ := l
  cases l with
  | column label => exact evolved_selectColumn hM _ label
  | field leaf => exact evolved_selectField hM (hl leaf rfl) _ base
  | list options inner =>
    apply maintains_bind (evolved_deferList _ base options inner)
    exact fun _ _ => maintains_pure trivial

theorem evolved_selectKey (hM : M mode) (base : String) :
    Maintains (Evolved s M c₀) (selectKey s base mode) fun _ => True := by
  apply maintains_bind (evolved_resolve hM _)
  intro key _
  apply maintains_bind (evolved_field key.column _)
  exact fun _ _ => evolved_addPrimitive key.column

theorem evolved_groupPrimitives (grouped : Bool) :
    Maintains (Evolved s M c₀) (groupPrimitives grouped) fun _ => True := by
  apply evolved_modify
  intro c
  split
  · obtain ⟨groupBy, hsource⟩ := QueryPair.foldl_group_source c.primitives c.query
    exact ⟨rfl, by simp only [hsource], by simp only [hsource], by simp only [hsource], rfl⟩
  · exact ⟨rfl, rfl, rfl, rfl, rfl⟩

theorem evolved_fields (hM : M mode) {p : Projection} (hp : p.Modes M) (base : String)
    (grouped : Bool) :
    Maintains (Evolved s M c₀) (fields s p base grouped mode) fun _ => True := by
  apply maintains_bind (maintains_mapM fun l hl => evolved_leaf hM (hp l hl) base)
  intro aggregates _
  apply maintains_bind (evolved_selectKey hM base)
  intro _ _
  apply maintains_bind (evolved_groupPrimitives _)
  exact fun _ _ => maintains_pure trivial

theorem evolved_setMiddlewares (p : Projection) :
    Maintains (Evolved s M c₀) (setMiddlewares p) fun _ => True :=
  evolved_modify fun _ => ⟨rfl, rfl, rfl, rfl, rfl⟩

theorem evolved_projection (hM : M .left) {p : Projection} (hp : p.Modes M) :
    Maintains (Evolved s M c₀) (projection s p) fun _ => True := by
  apply maintains_bind (evolved_setMiddlewares p)
  exact fun _ _ => evolved_fields hM hp "" false

theorem evolved_criteria (hM : M .left) (spec : CriteriaSpec) (bag : Value) (base : String) :
    Maintains (Evolved s M c₀) (criteria s spec bag base) fun _ => True :=
  evolved_of_amended hM fun _ => amended_criteria spec bag base

theorem evolved_setGrouped (b : Bool) :
    Maintains (Evolved s M c₀) (modify fun c => { c with grouped := b }) fun _ => True :=
  evolved_modify fun _ => ⟨rfl, rfl, rfl, rfl, rfl⟩

theorem evolved_ungroupedCriteria (hM : M .left) (spec : CriteriaSpec) (bag : Value)
    (base : String) :
    Maintains (Evolved s M c₀) (ungroupedCriteria s spec bag base) fun _ => True := by
  apply maintains_bind maintains_get
  intro c _
  apply maintains_bind (evolved_setGrouped false)
  intro _ _
  apply maintains_bind (evolved_criteria hM spec bag base)
  exact fun _ _ => evolved_setGrouped c.grouped

theorem evolved_nestedCriteria (hM : M .left) (task : NestedTask) :
    Maintains (Evolved s M c₀) (nestedCriteria s task) fun _ => True := by
  unfold nestedCriteria
  split
  · exact evolved_ungroupedCriteria hM _ _ _
  · exact maintains_pure trivial

theorem evolved_applyNested (hM : M .left) (task : NestedTask) (parentId : Value) :
    Maintains (Evolved s M c₀) (applyNested s task parentId) fun _ => True := by
  apply maintains_bind (evolved_of_amended hM fun _ => amended_nestedSort task)
  intro _ _
  apply maintains_bind (evolved_resolve hM _)
  intro parent _
  apply maintains_bind (maintains_modify fun _ hc => hc.tail (.filter _))
  exact fun _ _ => evolved_nestedCriteria hM task

theorem evolved_nestedSteps (hM : ∀ mode, M mode) (task : NestedTask) (parentId : Value) :
    Maintains (Evolved s M c₀) (nestedSteps s task parentId) fun _ => True := by
  apply maintains_bind (evolved_resolve (hM _) _)
  intro _ _
  apply maintains_bind (evolved_setMiddlewares task.inner)
  intro _ _
  apply maintains_bind (evolved_fields (hM _) (fun _ _ _ _ _ => hM _) _ _)
  exact fun _ _ => evolved_applyNested (hM _) task parentId

end Compilation

namespace Action

def Joins (M : JoinMode → Prop) : Action → Prop
  | .projection p => M .left ∧ p.Modes M
  | .fields p _ _ mode => M mode ∧ p.Modes M
  | .nested _ _ => ∀ mode, M mode
  | .sort _ _ | .criteria _ _ _ => M .left
  | .resolve _ mode => M mode
  | .edit (.join _) => False
  | .edit _ | .setGrouped _ => True

variable {s : Setting} {M : JoinMode → Prop} {c c₀ : Compilation}

theorem evolved_perform {a : Action} (ha : a.Joins M) :
    Maintains (Compilation.Evolved s M c₀) (a.perform s) fun _ => True := by
  cases a with
  | projection p =>
    exact maintains_map (Compilation.evolved_projection ha.1 ha.2) fun _ _ => trivial
  | fields p base grouped mode =>
    exact maintains_map (Compilation.evolved_fields ha.1 ha.2 base grouped) fun _ _ => trivial
  | nested task parentId => exact Compilation.evolved_nestedSteps ha task parentId
  | sort base order =>
    exact Compilation.evolved_of_amended ha fun _ => Compilation.amended_sort base order
  | criteria spec bag base => exact Compilation.evolved_criteria ha spec bag base
  | resolve path mode =>
    exact maintains_map (Compilation.evolved_resolve ha path) fun _ _ => trivial
  | setGrouped b => exact Compilation.evolved_setGrouped b
  | edit e =>
    cases e with
    | join j => exact ha.elim
    | filter d => exact maintains_modify fun _ hc => hc.tail (.filter d)
    | field | order | having | page =>
      exact Compilation.evolved_modify fun _ => ⟨rfl, rfl, rfl, rfl, rfl⟩
    | group x =>
      apply Compilation.evolved_modify
      intro c
      obtain ⟨groupBy, hgroup⟩ := c.query.source.group_eq x
      constructor <;> simp only [QueryPair.edit, QueryPair.group, hgroup]

theorem evolved_runAll {actions : List Action} (ha : ∀ a ∈ actions, a.Joins M) :
    Compilation.Evolved s M c (runAll s actions c) := by
  induction actions generalizing c with
  | nil => exact .refl
  | cons a actions ih =>
    have hstep : Compilation.Evolved s M c (a.perform s c).2 :=
      (evolved_perform (ha a List.mem_cons_self) c .refl).1
    exact hstep.trans (ih fun b hb => ha b (List.mem_cons_of_mem a hb))

end Action

theorem Provider.evolved_compileSteps {s : Setting} {M : JoinMode → Prop} (hM : M .left)
    {m : Model} {projection : Projection} (hp : projection.Modes M) {r : Request}
    {c₀ : Compilation} :
    Maintains (Compilation.Evolved s M c₀) (compileSteps s m projection r) fun _ => True := by
  apply maintains_bind (Compilation.evolved_projection hM hp)
  exact fun _ _ => Compilation.evolved_of_amended hM fun _ => amended_applyRequest

end RecordQuery
