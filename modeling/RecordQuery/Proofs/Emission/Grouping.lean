import RecordQuery.Proofs.Emission.Serving

namespace RecordQuery

open Steps

variable {δ : Dialect} {N : String → Prop} {s : Setting}

def Dialect.Aggregate (δ : Dialect) (expression : String) : Prop :=
  ∃ x, expression = δ.count x ∨ expression = δ.sum x ∨ expression = δ.groupConcat x

theorem Dialect.start_of_aggregate {x : String} (h : δ.Aggregate x) :
    x.toList.take 1 = ['S'] ∨ x.toList.take 1 = ['G'] ∨ x.toList.take 3 = ['C', 'O', 'U'] := by
  obtain ⟨y, rfl | rfl | rfl⟩ := h
  · exact .inr (.inr (by simp [Dialect.count]))
  · exact .inl (by simp [Dialect.sum])
  · cases δ with
    | postgres =>
      change ("STRING_AGG(CAST(" ++ y ++ " AS TEXT), ',')").toList.take 1 = ['S'] ∨ _
      exact .inl (by simp)
    | _ =>
      change _ ∨ ("GROUP_CONCAT(" ++ y ++ ")").toList.take 1 = ['G'] ∨ _
      exact .inr (.inl (by simp))

theorem ColumnRef.not_aggregate {x : String} (h : ColumnRef N x) : ¬δ.Aggregate x := by
  cases h with
  | @mk a column ha hn =>
    intro hx
    have hstart := Dialect.start_of_aggregate hx
    simp only [qualified, String.toList_append] at hstart
    have hletters := ha.letters
    cases hl : a.toList with
    | nil => simp [hl] at hstart
    | cons c cs =>
      have hc := hletters c (by simp [hl])
      simp only [hl, List.cons_append, List.take_succ_cons, List.cons.injEq] at hstart
      rcases hstart with ⟨rfl, -⟩ | ⟨rfl, -⟩ | ⟨rfl, -⟩ <;> exact absurd hc (by decide)

theorem ColumnRef.not_aggregate_convert {x : String} (h : ColumnRef N x)
    (charset : Option String) : ¬δ.Aggregate (δ.convert x charset) := by
  cases δ with
  | mysql =>
    intro hx
    have hstart := Dialect.start_of_aggregate hx
    simp [Dialect.convert] at hstart
  | _ => exact h.not_aggregate

namespace QueryPair

def Plain (δ : Dialect) (q : QueryPair) : Prop := ∀ f ∈ q.fields, ¬δ.Aggregate f.expression

/-- There are fields, and a query without groups lists no aggregate. -/
structure Settled (δ : Dialect) (q : QueryPair) : Prop where
  fields : q.fields ≠ []
  grouped : q.source.groupBy = [] → q.Plain δ

variable {q : QueryPair}

theorem fields_edit {e : Edit} (h : e.shapes = true) : (q.edit e).fields = q.fields := by
  cases e with
  | field => cases h
  | _ => rfl

theorem Plain.field (h : q.Plain δ) {x label : String} (hx : ¬δ.Aggregate x) :
    (q.field x label).Plain δ := by
  intro f hf
  rcases List.mem_append.1 hf with hf | hf
  · exact h f hf
  · exact List.mem_singleton.1 hf ▸ hx

theorem shaped_plain (agg : Bool) : Shaped δ N fun q => agg = false → q.Plain δ := by
  intro q e hq _ hs ha
  unfold Plain
  rw [fields_edit hs]
  exact hq ha

theorem group_ne_nil {x : String} : (q.group x).source.groupBy ≠ [] := by
  unfold group Source.group
  split
  · next h => exact List.ne_nil_of_mem h
  · simp

theorem shaped_settled : Shaped δ N (Settled δ) := by
  intro q e hq _ hs
  refine ⟨by rw [fields_edit hs]; exact hq.fields, ?_⟩
  intro hg
  unfold Plain
  rw [fields_edit hs]
  apply hq.grouped
  cases e with
  | group x => exact absurd hg group_ne_nil
  | _ => exact hg

theorem fields_foldl_group (xs : List String) : (xs.foldl group q).fields = q.fields := by
  induction xs generalizing q with
  | nil => rfl
  | cons x xs ih => exact ih

theorem foldl_group_ne_nil {xs : List String} (h : xs ≠ [] ∨ q.source.groupBy ≠ []) :
    (xs.foldl group q).source.groupBy ≠ [] := by
  induction xs generalizing q with
  | nil => simpa using h
  | cons x xs ih => exact ih (.inr group_ne_nil)

end QueryPair

namespace Compilation

/-- The invariant of leaves: unless one of them aggregated, no field does. -/
abbrev Pending (s : Setting) (agg : Bool) : Compilation → Prop :=
  OfQuery fun q => agg = false → q.Plain s.dialect

theorem every_true (l : Leaf) : l.Every (FieldLeaf.Charsets fun _ => True) fun _ => True := by
  cases l with
  | column => trivial
  | field => exact fun _ _ => trivial
  | list options inner => exact ⟨trivial, inner.charsets_true⟩

theorem Pending.weaken {c : Compilation} (h : Pending s false c) (agg : Bool) : Pending s agg c :=
  ⟨h.plan, fun _ => h.query rfl, h.primitives, h.nested⟩

theorem pending_column {agg : Bool} {x label : String} (hx : ColumnRef (fun _ => True) x)
    (q : QueryPair) (hq : agg = false → q.Plain s.dialect) :
    agg = false → (q.field x label).Plain s.dialect :=
  fun ha => (hq ha).field hx.not_aggregate

theorem pending_selectResolved (leaf : FieldLeaf) {r : Resolved}
    (hr : ColumnRef (fun _ => True) r.column) :
    Maintains (Pending s (leaf.function.any ColumnFunction.isAggregate))
      (selectResolved s leaf r) (fun _ => True) := by
  unfold selectResolved
  cases leaf.function with
  | none => exact maintains_selectPlain hr (pending_column hr)
  | some f =>
    apply maintains_selectFunction hr
    intro q hq ha
    cases f with
    | convert charset => exact (hq ha).field (hr.not_aggregate_convert charset)
    | _ => cases ha

theorem ensures_selectField (path base : String) (mode : JoinMode) (leaf : FieldLeaf) :
    Ensures (Pending s false) (selectField s path base mode leaf) (fun b => Pending s b) := by
  apply maintains_get.bind_ensures
  intro c _
  apply (maintains_resolveScoped (names_true s) (QueryPair.shaped_plain false) _ _ _).bind_ensures
  rintro ⟨r, applied⟩ hr
  apply (maintains_takeScoped leaf applied).bind_ensures
  intro _ _
  apply ((pending_selectResolved leaf hr).ensures_answer _).weaken _ |>.strengthen
  · exact fun _ h => Pending.weaken h _
  · rintro b t ⟨ht, rfl⟩
    exact ht

theorem ensures_selectColumn (path : String) (mode : JoinMode) (label : String) :
    Ensures (Pending s false) (selectColumn s path mode label) (fun b => Pending s b) := by
  apply (maintains_resolve (names_true s) (QueryPair.shaped_plain false) path mode).bind_ensures
  intro r hr
  have hselect : Maintains (Pending s r.tail) (if r.tail then selectSiblings s path label r
      else selectPlain r.column label (some r.type)) (fun _ => True) := by
    cases r.tail with
    | true => exact maintains_selectSiblings (fun _ _ _ _ _ => nofun) hr
    | false => exact maintains_selectPlain hr (pending_column hr)
  apply (hselect.ensures_answer _).weaken _ |>.strengthen
  · exact fun _ h => Pending.weaken h _
  · rintro b t ⟨ht, rfl⟩
    exact ht

theorem ensures_leaf (base : String) (mode : JoinMode) (l : String × Leaf) :
    Ensures (Pending s false) (leaf s base mode l) (fun b => Pending s b) := by
  obtain ⟨path, l⟩ := l
  cases l with
  | column label => exact ensures_selectColumn _ mode label
  | field leaf => exact ensures_selectField _ base mode leaf
  | list options inner =>
    apply ((maintains_deferList (T := fun _ => True) trivial).ensures_answer false).weaken
    rintro b t ⟨ht, rfl⟩
    exact ht

theorem ensures_leaves (base : String) (mode : JoinMode) (ls : List (String × Leaf))
    (agg : Bool) :
    Ensures (Pending s agg) (ls.mapM (leaf s base mode))
      (fun bs => Pending s (agg || bs.any id)) := by
  have hleaf : ∀ agg l, Ensures (Pending s agg) (leaf s base mode l)
      (fun b => Pending s (agg || b)) := by
    intro agg l
    cases agg with
    | false => exact ensures_leaf base mode l
    | true =>
      have hm := maintains_leaf (B := fun q => true = false → q.Plain s.dialect) (names_true s)
        (QueryPair.shaped_plain true) (fun _ _ _ _ _ => nofun) base mode
        (every_true l.2) (T := fun _ => True) fun _ _ _ => trivial
      exact hm.ensures.weaken fun _ _ h => h.1
  induction ls generalizing agg with
  | nil => exact ensures_pure fun _ h => by simpa using h
  | cons l ls ih =>
    rw [List.mapM_cons]
    apply ensures_bind (hleaf agg l)
    intro b
    apply ensures_bind (ih (agg || b))
    intro bs
    apply ensures_pure
    intro c hc
    simpa [Bool.or_assoc] using hc

theorem ensures_selectKey (base : String) (mode : JoinMode) (agg : Bool) :
    Ensures (Pending s agg) (selectKey s base mode)
      (fun _ c => Pending s agg c ∧ c.primitives ≠ [] ∧ c.query.fields ≠ []) := by
  apply (maintains_resolve (names_true s) (QueryPair.shaped_plain agg) _ mode).bind_ensures
  intro key hkey
  have hfield : Ensures (Pending s agg) (onQuery (·.field key.column Path.idSegment))
      (fun _ c => Pending s agg c ∧ c.query.fields ≠ []) := by
    apply ensures_modify
    intro c hc
    exact ⟨⟨hc.plan, pending_column hkey _ hc.query, hc.primitives, hc.nested⟩,
      by simp [QueryPair.field]⟩
  apply ensures_bind hfield
  intro _
  apply ensures_modify
  rintro c ⟨hc, hfields⟩
  have hadd := (maintains_addPrimitive hkey c hc).1
  refine ⟨hadd, ?_⟩
  split
  · next hmem => exact ⟨List.ne_nil_of_mem hmem, hfields⟩
  · exact ⟨by simp, hfields⟩

theorem ensures_fields (p : Projection) (base : String) (grouped : Bool) (mode : JoinMode) :
    Ensures (OfQuery (QueryPair.Plain s.dialect))
      (fields s p base grouped mode)
      (fun _ => OfQuery (QueryPair.Settled s.dialect)) := by
  apply (ensures_bind (ensures_leaves base mode p.leaves false) _).strengthen
  · exact fun c hc => ⟨hc.plan, fun _ => hc.query, hc.primitives, hc.nested⟩
  intro aggregates
  rw [Bool.false_or]
  apply ensures_bind (ensures_selectKey base mode _)
  intro _
  -- the key has been selected, so there is something to group by
  have hgroup : Ensures
      (fun c => Pending s (aggregates.any id) c ∧ c.primitives ≠ [] ∧ c.query.fields ≠ [])
      (groupPrimitives (grouped || aggregates.any id))
      (fun _ => OfQuery (QueryPair.Settled s.dialect)) := by
    apply ensures_modify
    rintro c ⟨hc, hprimitives, hfields⟩
    split
    · refine ⟨hc.plan, ⟨?_, ?_⟩, hc.primitives, hc.nested⟩
      · rw [QueryPair.fields_foldl_group]
        exact hfields
      · intro hnil
        exact absurd hnil (QueryPair.foldl_group_ne_nil (.inl hprimitives))
    · next hfalse =>
      have hagg : aggregates.any id = false := by
        cases hb : aggregates.any id with
        | false => rfl
        | true => simp [hb] at hfalse
      exact ⟨hc.plan, ⟨hfields, fun _ => hc.query hagg⟩, hc.primitives, hc.nested⟩
  apply ensures_bind hgroup
  intro _
  exact ensures_pure fun _ hc => hc

theorem plain_start (pool : Pool) (uses : Nat) :
    OfQuery (QueryPair.Plain s.dialect) (start s pool uses) := by
  have hstart := formed_start (T := fun _ => True) (names_true s) pool uses
  refine ⟨hstart.plan, ?_, hstart.primitives, hstart.nested⟩
  have hfields : ∀ (ds : List Condition) (q : QueryPair),
      (ds.foldl QueryPair.addFilter q).fields = q.fields := by
    intro ds
    induction ds with
    | nil => exact fun _ => rfl
    | cons d ds ih => exact fun q => ih _
  intro f hf
  have hnone : f ∈ ([] : List Field) := by
    simpa only [start, hfields, QueryPair.ofTable] using hf
  cases hnone

theorem settled_run {steps : Steps Compilation Unit} {pool : Pool} {uses uses' : Nat}
    {q : CompiledQuery}
    (hm : Ensures (OfQuery (QueryPair.Plain s.dialect)) steps
      (fun _ => OfQuery (QueryPair.Settled s.dialect)))
    (h : run s pool steps uses = (.ok q, uses')) : q.query.Settled s.dialect := by
  obtain ⟨c, hc, rfl, -⟩ := run_ok h
  exact (hm.ok _ (plain_start pool uses) _ _ hc).query

theorem shaped_plainQuery : QueryPair.Shaped s.dialect N (QueryPair.Plain s.dialect) := by
  intro q e hq he hs
  exact QueryPair.shaped_plain false q e (fun _ => hq) he hs rfl

theorem ensures_nestedSteps (task : NestedTask) (parentId : Value) :
    Ensures (OfQuery (QueryPair.Plain s.dialect))
      (nestedSteps s task parentId)
      (fun _ => OfQuery (QueryPair.Settled s.dialect)) := by
  apply (maintains_resolve (names_true s) shaped_plainQuery _ _).bind_ensures
  intro _ _
  apply (maintains_setMiddlewares task.inner).bind_ensures
  intro _ _
  apply ensures_bind (ensures_fields task.inner task.path true (nestedMode task.options))
  intro _
  have hrest := maintains_applyNested (T := fun _ => True) (names_true s)
    QueryPair.shaped_settled task parentId
  exact hrest.ensures.weaken fun _ _ h => h.1

end Compilation

namespace Provider

theorem ensures_compileSteps (m : Model) (projection : Projection) (r : Request) :
    Ensures (Compilation.OfQuery (QueryPair.Plain s.dialect))
      (compileSteps s m projection r)
      (fun _ => Compilation.OfQuery (QueryPair.Settled s.dialect)) := by
  apply ensures_bind (Q := fun _ => Compilation.OfQuery (QueryPair.Settled s.dialect))
  · apply (Compilation.maintains_setMiddlewares projection).bind_ensures
    intro _ _
    exact Compilation.ensures_fields projection "" false .left
  · intro _
    have hrest := maintains_applyRequest (T := fun _ => True) (r := r) (m := m)
      (Compilation.names_true s) QueryPair.shaped_settled
    exact hrest.ensures.weaken fun _ _ h => h.1

theorem settled_of_serves {p : Provider} {q : CompiledQuery} (h : p.Serves q) :
    q.query.Settled p.dialect := by
  cases h with
  | request h =>
    obtain ⟨m, root, projection, v, -, -, -, hrun, -⟩ := compile_ok h
    exact Compilation.settled_run (ensures_compileSteps m projection _) hrun
  | nested _ _ _ h => exact Compilation.settled_run (Compilation.ensures_nestedSteps _ _) h

theorem rowStatement_of_serves {p : Provider} {q : CompiledQuery} (h : p.Serves q) :
    ∃ statement, q.query.rowStatement p.dialect = .ok statement := by
  have hfields : q.query.fields.isEmpty = false := by
    simpa using (settled_of_serves h).fields
  unfold QueryPair.rowStatement Select.statement Select.fragment QueryPair.rows
  rw [hfields]
  exact ⟨_, rfl⟩

theorem firstStatement_of_serves {p : Provider} {q : CompiledQuery} (h : p.Serves q) :
    ∃ statement, q.query.firstStatement p.dialect = .ok statement := by
  have hfields : q.query.rows.fields.isEmpty = false := List.isEmpty_eq_false_iff.2
    (settled_of_serves h).fields
  unfold QueryPair.firstStatement Select.statement Select.fragment
  rw [hfields]
  exact ⟨_, rfl⟩

end Provider

end RecordQuery
