import RecordQuery.Proofs.Caching.Fuel

namespace RecordQuery

open Steps

namespace Steps

variable {σ α β γ : Type}

def Ending (m : Steps σ α) : Prop := ∀ s, Ends (m s).1

variable {m : Steps σ α}

theorem ending_pure (a : α) : Ending (pure a : Steps σ α) := fun _ => ends_ok a

theorem ending_lift {x : Except Error α} (h : Ends x) : Ending (liftM x : Steps σ α) := fun _ => h

theorem ending_get : Ending (get : Steps σ σ) := fun s => ends_ok s

theorem ending_modify (f : σ → σ) : Ending (modify f : Steps σ Unit) := fun _ => ends_ok ()

theorem ending_bind_of_ok {f : α → Steps σ β} (hm : Ending m)
    (hf : ∀ s a t, m s = (.ok a, t) → Ends (f a t).1) : Ending (m >>= f) := by
  intro s
  have h := hm s
  rw [bind_apply]
  rcases hx : m s with ⟨x, t⟩
  rw [hx] at h
  cases x with
  | error e => exact ends_error.1 h
  | ok a => exact hf s a t hx

theorem ending_bind {f : α → Steps σ β} (hm : Ending m) (hf : ∀ a, Ending (f a)) :
    Ending (m >>= f) :=
  ending_bind_of_ok hm fun _ a t _ => hf a t

theorem ending_map (f : α → β) (hm : Ending m) : Ending (f <$> m) := by
  rw [← bind_pure_comp]
  exact ending_bind hm fun a => ending_pure (f a)

theorem ending_forM {xs : List γ} {f : γ → Steps σ PUnit} (h : ∀ x ∈ xs, Ending (f x)) :
    Ending (xs.forM f) := by
  induction xs with
  | nil => exact ending_pure _
  | cons x xs ih =>
    apply ending_bind (h x List.mem_cons_self)
    exact fun _ => ih fun y hy => h y (List.mem_cons_of_mem x hy)

theorem ending_mapM {xs : List γ} {f : γ → Steps σ α} (h : ∀ x ∈ xs, Ending (f x)) :
    Ending (xs.mapM f) := by
  induction xs with
  | nil => exact ending_pure _
  | cons x xs ih =>
    rw [List.mapM_cons]
    apply ending_bind (h x List.mem_cons_self)
    intro a
    apply ending_bind (ih fun y hy => h y (List.mem_cons_of_mem x hy))
    exact fun as => ending_pure (a :: as)

end Steps

namespace Entity

theorem ends_primary (e : Entity) : Ends e.primary := by
  unfold primary
  split <;> rfl

theorem ends_attributeNamed (e : Entity) (name : String) : Ends (e.attributeNamed name) := by
  unfold attributeNamed
  split <;> rfl

theorem ends_key (e : Entity) (name : Option String) : Ends (e.key name) := by
  cases name with
  | none => exact e.ends_primary
  | some name => exact e.ends_attributeNamed name

theorem ends_ending (e : Entity) (name : String) : Ends (e.ending name) := by
  unfold ending
  split
  · exact e.ends_primary
  · exact e.ends_attributeNamed name

end Entity

theorem Schema.ends_entity (σ : Schema) (name : String) : Ends (σ.entity name) := by
  unfold entity
  split <;> rfl

namespace Operator

theorem ends_scalar (value : Value) (parameter : String) : Ends (scalar value parameter) := by
  unfold scalar
  split <;> rfl

theorem ends_textOf (value : Value) (parameter : String) : Ends (textOf value parameter) := by
  unfold textOf
  split <;> rfl

theorem ends_compared (op : Comparison) (column : String) (value : Value) (parameter : String) :
    Ends (compared op column value parameter) := by
  unfold compared
  split
  · rfl
  · rfl
  · exact ends_map.2 (ends_scalar value parameter)

theorem ends_predicate (op : Operator) (column : String) (value : Value) (parameter : String) :
    Ends (op.predicate column value parameter) := by
  cases op with
  | equal => exact ends_compared .eq column value parameter
  | notEqual => exact ends_compared .ne column value parameter
  | lessEqual => exact ends_compared .le column value parameter
  | greaterEqual => exact ends_compared .ge column value parameter
  | lessThan => exact ends_compared .lt column value parameter
  | greaterThan => exact ends_compared .gt column value parameter
  | like | ilike | ilikeStart => exact ends_map.2 (ends_textOf value parameter)
  | between =>
    simp only [predicate]
    split <;> rfl
  | isNull | isNotNull | isIn | notIn | has => rfl

end Operator

theorem ScopedPredicate.ends_conditionAt (p : ScopedPredicate) (path : String) (target : Entity)
    (tableAlias : String) : Ends (p.conditionAt path target tableAlias) := by
  unfold conditionAt
  split
  · rfl
  · split
    · rfl
    · split
      · rfl
      · apply ends_bind (target.ends_ending _)
        intro a
        exact ends_bind (p.operator.ends_predicate _ _ _) fun _ => rfl

namespace Planning

variable {parent here : Position} {a : Association} {target : Entity}

theorem ending_associate (child : String) (type : JoinType) :
    Ending (associate parent a target child type) := by
  apply ending_bind (ending_lift (parent.entity.ends_key a.sourceKey))
  intro source
  apply ending_bind (ending_lift (target.ends_key a.targetKey))
  intro destination
  cases a.relation with
  | manyToMany link => exact ending_bind (ending_modify _) fun _ => ending_pure _
  | _ => exact ending_pure _

theorem ending_takeWaiting (path child : String) : Ending (takeWaiting path target child) := by
  apply ending_bind ending_get
  intro s
  cases s.waiting with
  | none => exact ending_pure []
  | some p =>
    apply ending_bind (ending_lift (p.ends_conditionAt path target child))
    intro found
    cases found with
    | none => exact ending_pure []
    | some c => exact ending_bind (ending_modify _) fun _ => ending_pure [c]

theorem ending_joinAt (mode : JoinMode) (segment path : String) :
    Ending (joinAt mode segment here a target path) := by
  apply ending_bind ending_get
  intro s
  cases s.plan.joined.get? path with
  | some joined => exact ending_pure joined
  | none =>
    apply ending_bind (fun _ => ends_ok _)
    intro child
    apply ending_bind (ending_associate child _)
    intro tie
    apply ending_bind (ending_takeWaiting path child)
    exact fun waiting => ending_bind (ending_modify _) fun _ =>
      ending_bind (ending_modify _) fun _ => ending_pure _

theorem ending_walk (σ : Schema) (path : String) (mode : JoinMode) (segments : List String)
    (here : Position) : Ending (walk σ path mode segments here) := by
  induction segments generalizing here with
  | nil => exact fun _ => rfl
  | cons segment rest ih =>
    unfold walk
    split
    · unfold endAt
      split
      · exact ending_bind (ending_lift (here.entity.ends_ending _)) fun _ => ending_pure _
      · exact fun _ => rfl
    · split
      · exact fun _ => rfl
      · apply ending_bind (ending_lift (σ.ends_entity _))
        intro target
        apply ending_bind (ending_bind (ending_joinAt mode segment _) fun _ => ending_pure _)
        intro next
        split
        · exact ending_bind (ending_lift next.entity.ends_primary) fun _ => ending_pure _
        · exact ih next

theorem ending_resolve (σ : Schema) (root : Entity) (path : String) (mode : JoinMode) :
    Ending (resolve σ root path mode) :=
  ending_bind ending_get fun _ => ending_walk σ path mode _ _

end Planning

namespace Compilation

variable {s : Setting} {base path label : String} {mode : JoinMode}

theorem ending_resolveScoped (waiting : Option ScopedPredicate) :
    Ending (resolveScoped s path mode waiting) :=
  fun _ => ends_map.2 (Planning.ending_resolve s.schema s.root path mode _)

theorem ending_resolve : Ending (resolve s path mode) :=
  ending_bind (ending_resolveScoped none) fun _ => ending_pure _

theorem ending_takeFromPool (name : String) : Ending (takeFromPool name) := fun _ => ends_ok _

theorem ending_selectPlain (column : String) (type : Option SqlType) :
    Ending (selectPlain column label type) := fun _ => ends_ok _

theorem ending_selectResolved (leaf : FieldLeaf) (r : Resolved) :
    Ending (selectResolved s leaf r) := by
  unfold selectResolved
  split
  · exact ending_selectPlain r.column _
  · apply ending_bind (ending_modify _)
    intro _
    apply ending_bind
    · split
      · exact ending_pure _
      · exact ending_modify _
    · exact fun _ => ending_modify _

theorem ending_selectField (leaf : FieldLeaf) : Ending (selectField s path base mode leaf) := by
  apply ending_bind ending_get
  intro c
  apply ending_bind (ending_resolveScoped _)
  rintro ⟨r, applied⟩
  apply ending_bind
  · unfold takeScoped
    split
    · exact ending_takeFromPool _
    · exact ending_pure none
  · exact fun _ => ending_bind (ending_selectResolved leaf r) fun _ => ending_pure _

theorem ending_dependency (entity : String) : Ending (dependency entity) := by
  apply ending_bind ending_get
  intro c
  split
  · exact ending_pure _
  · exact fun _ => ends_ok _

theorem ending_selectSiblings (r : Resolved) : Ending (selectSiblings s path label r) := by
  unfold selectSiblings
  split
  · apply ending_bind (ending_dependency r.entity)
    intro position
    apply ending_bind (ending_modify _)
    intro _
    apply ending_bind (ending_modify _)
    intro _
    split
    · exact ending_modify _
    · exact ending_pure _
  · exact fun _ => rfl

theorem ending_selectColumn : Ending (selectColumn s path mode label) := by
  apply ending_bind ending_resolve
  intro r
  apply ending_bind
  · split
    · exact ending_selectSiblings r
    · exact ending_selectPlain r.column _
  · exact fun _ => ending_pure r.tail

theorem ending_deferList (options : NestedOptions) (parent : String) (inner : Projection) :
    Ending (deferList path parent options inner) := by
  apply ending_bind
  · unfold takeCriteria
    split
    · exact ending_takeFromPool _
    · exact ending_pure none
  · exact fun _ => ending_modify _

theorem ending_leaf (l : String × Leaf) : Ending (leaf s base mode l) := by
  obtain ⟨path, l⟩ := l
  cases l with
  | column label => exact ending_selectColumn
  | field leaf => exact ending_selectField leaf
  | list options inner =>
    exact ending_bind (ending_deferList options base inner) fun _ => ending_pure false

theorem ending_fields (p : Projection) (grouped : Bool) : Ending (fields s p base grouped mode) := by
  apply ending_bind (ending_mapM fun l _ => ending_leaf l)
  intro aggregates
  apply ending_bind
  · apply ending_bind ending_resolve
    exact fun key => ending_bind (ending_modify _) fun _ => ending_modify _
  · exact fun _ => ending_bind (ending_modify _) fun _ => ending_pure _

theorem ending_projection (p : Projection) : Ending (projection s p) :=
  ending_bind (ending_modify _) fun _ => ending_fields p false

theorem ending_sort (order : SortSpec) : Ending (sort s base order) := by
  cases order with
  | random => exact ending_modify _
  | fields terms =>
    apply ending_forM
    intro t _
    apply ending_bind
    · unfold sortExpression
      split
      · exact ending_pure _
      · exact ending_map _ ending_resolve
    · exact fun _ => ending_modify _

theorem ending_criterion (bag : Value) (single : Bool) (item : Criterion) :
    Ending (criterion s bag single base item) := by
  apply ending_bind (fun _ => ends_ok _)
  intro value
  split
  · exact ending_pure none
  · apply ending_bind ending_resolve
    intro r
    apply ending_bind (ending_lift (item.operator.ends_predicate _ _ _))
    exact fun predicate => ending_pure _

theorem ending_criteria (spec : CriteriaSpec) (bag : Value) : Ending (criteria s spec bag base) := by
  apply ending_bind (ending_mapM fun item _ => ending_criterion bag _ item)
  intro found
  apply ending_bind
  · split
    · exact ending_pure _
    · exact ending_modify _
  · exact fun _ => ending_forM fun _ _ => ending_modify _

theorem ending_nestedSteps (task : NestedTask) (parentId : Value) :
    Ending (nestedSteps s task parentId) := by
  apply ending_bind ending_resolve
  intro _
  apply ending_bind (ending_modify _)
  intro _
  apply ending_bind (ending_fields task.inner true)
  intro _
  apply ending_bind
  · unfold nestedSort
    split
    · exact ending_sort _
    · exact ending_pure _
  intro _
  apply ending_bind ending_resolve
  intro parent
  apply ending_bind (ending_modify _)
  intro _
  unfold nestedCriteria
  split
  · apply ending_bind ending_get
    intro c
    apply ending_bind (ending_modify _)
    intro _
    exact ending_bind (ending_criteria _ _) fun _ => ending_modify _
  · exact ending_pure _

theorem ending_run {pool : Pool} {steps : Steps Compilation Unit} (h : Ending steps) :
    Ending (run s pool steps) :=
  fun uses => ends_map.2 (h (start s pool uses))

theorem ending_nestedQuery (task : NestedTask) (parentId : Value) :
    Ending (nestedQuery s task parentId) :=
  ending_run (ending_nestedSteps task parentId)

end Compilation

namespace Model

variable (m : Model) (name : String)

theorem ends_projection : Ends (m.projection name) := by
  unfold projection
  split <;> rfl

theorem ends_sort : Ends (m.sort name) := by
  unfold sort
  split <;> rfl

theorem ends_criteriaNamed : Ends (m.criteriaNamed name) := by
  unfold criteriaNamed
  split <;> rfl

end Model

theorem PageParam.ends_parse (parameter : String) (value : PageParam) :
    Ends (value.parse parameter) := by
  unfold parse
  split
  · rfl
  · split <;> rfl

theorem Page.ends_of? (number size : Int) : Ends (of? number size) := by
  unfold of?
  split
  · rfl
  · split
    · rfl
    · split <;> rfl

theorem Request.ends_pageParams (r : Request) : Ends r.pageParams := by
  unfold pageParams
  split
  · rename_i size _
    have hsize : ∀ number, Ends (size.parse "pageSize" >>= fun size =>
        some <$> Page.of? number size) := by
      intro number
      apply ends_bind (size.ends_parse "pageSize")
      exact fun size => ends_map.2 (Page.ends_of? number size)
    split
    · exact ends_bind (PageParam.ends_parse "page" _) hsize
    · exact hsize 1
  · rfl
  · rfl

theorem QueryPair.ends_rowStatement (δ : Dialect) (q : QueryPair) : Ends (q.rowStatement δ) := by
  unfold rowStatement Select.statement Select.fragment
  split <;> rfl

namespace Provider

variable {p : Provider} {s : Setting} {m : Model} {projection : Projection} {r : Request}

theorem ends_model (p : Provider) (name : String) : Ends (p.model name) := by
  unfold model
  split <;> rfl

theorem ending_applySort (name : String) : Ending (applySort s m name) :=
  ending_bind (ending_lift (m.ends_sort name)) fun _ => Compilation.ending_sort _

theorem ending_applyCriterion (c : String × Value) : Ending (applyCriterion s m c) := by
  unfold applyCriterion
  split
  split
  · exact ending_pure _
  · exact ending_bind (ending_lift (m.ends_criteriaNamed _)) fun _ =>
      Compilation.ending_criteria _ _

theorem ending_applyRequest : Ending (applyRequest s m r) := by
  apply ending_bind (ending_forM fun name _ => ending_applySort name)
  intro _
  apply ending_bind ending_get
  intro c
  apply ending_bind (ending_forM fun c _ => ending_applyCriterion c)
  intro _
  apply ending_bind (ending_lift r.ends_pageParams)
  intro page
  cases page with
  | none => exact ending_pure _
  | some page => exact ending_modify _

theorem ending_compileSteps : Ending (compileSteps s m projection r) :=
  ending_bind (Compilation.ending_projection projection) fun _ => ending_applyRequest

theorem ending_checkNested {depth : Nat} {tasks : List NestedTask}
    (h : ∀ task ∈ tasks, task.inner.depth < depth) : Ending (checkNested s depth tasks) := by
  -- on the fuel: lists inside a list nest less deep, so none is left when it runs out
  induction depth generalizing tasks with
  | zero =>
    cases tasks with
    | nil => exact ending_pure _
    | cons task rest => exact absurd (h task List.mem_cons_self) (Nat.not_lt_zero _)
  | succ depth ih =>
    cases tasks with
    | nil => exact ending_pure _
    | cons first rest =>
      apply ending_forM
      intro task ht
      apply ending_bind_of_ok (Compilation.ending_nestedQuery task .null)
      intro uses compiled uses' hq
      apply ending_bind (ending_lift (compiled.query.ends_rowStatement _))
      intro _
      apply ih
      intro inner hinner
      have hdepth := h task ht
      have := Compilation.within_nestedQuery (congrArg Prod.fst hq) inner hinner
      omega

/-- More fuel than lists nest changes nothing about their check. -/
theorem checkNested_of_le {depth fuel : Nat} {tasks : List NestedTask} (hfuel : depth ≤ fuel)
    (h : ∀ task ∈ tasks, task.inner.depth < depth) :
    checkNested s fuel tasks = checkNested s depth tasks := by
  induction depth generalizing fuel tasks with
  | zero =>
    cases tasks with
    | nil => cases fuel <;> rfl
    | cons task rest => exact absurd (h task List.mem_cons_self) (Nat.not_lt_zero _)
  | succ depth ih =>
    obtain ⟨fuel, rfl⟩ := Nat.exists_eq_add_of_le' (Nat.le_trans (Nat.succ_pos depth) hfuel)
    cases tasks with
    | nil => rfl
    | cons first rest =>
      apply forM_congr_mem
      intro task ht
      funext uses
      apply bind_congr_ok
      intro compiled uses' hq
      have hwithin : ∀ inner ∈ compiled.nested, inner.inner.depth < depth := by
        intro inner hinner
        have hdepth := h task ht
        have := Compilation.within_nestedQuery (congrArg Prod.fst hq) inner hinner
        omega
      rw [ih (Nat.le_of_succ_le_succ hfuel) hwithin]

theorem within_compileSteps {uses uses' : Nat} {q : CompiledQuery}
    (h : Compilation.run s r.criteria (compileSteps s m projection r) uses = (.ok q, uses')) :
    q.Within projection.depth :=
  (built_compileSteps (Compilation.names_true s) projection.charsets_true projection.lists_depth
    h).2

/-- The depth of a projection is fuel enough for the check of its lists, so no request is refused
for lists that need each other without end. -/
theorem compile_ne_endless (p : Provider) (model : String) (r : Request) (uses : Nat)
    (entity : String) : (p.compile model r uses).1 ≠ .error (.endless entity) := by
  have hends : Ending (p.compile model r) := by
    apply ending_bind (ending_lift (p.ends_model model))
    intro m
    apply ending_bind (ending_lift (p.schema.ends_entity m.entity))
    intro root
    apply ending_bind (ending_lift (m.ends_projection _))
    intro projection
    apply ending_bind_of_ok (Compilation.ending_run ending_compileSteps)
    intro _ compiled uses' hrun
    apply ending_bind (ending_checkNested (within_compileSteps hrun))
    exact fun _ => ending_pure compiled
  intro h
  have := hends uses
  rw [h] at this
  exact not_ends_endless entity this

end Provider

end RecordQuery
