import RecordQuery.Proofs.Emission.Serving
import RecordQuery.Proofs.Selection.Picks

namespace RecordQuery

open Steps

theorem QueryPair.foldl_group {q : QueryPair} (h : q.source.groupBy = []) (xs : List String) :
    xs.foldl group q = { q with source := { q.source with groupBy := xs.eraseDups } } := by
  induction xs using List.reverseRecOn with
  | nil =>
    rw [List.foldl_nil, List.eraseDups_nil, ← h]
  | append_singleton xs x ih =>
    rw [List.foldl_concat, ih, eraseDups_concat]
    unfold group Source.group
    simp only [List.mem_eraseDups]
    by_cases hx : x ∈ xs
    · rw [if_pos hx, if_pos hx]
    · rw [if_neg hx, if_neg hx]

/-- The keys of the groups of a query that selects `leaves` below `base`. -/
structure Grouping (s : Setting) (base : String) (leaves : List (String × Leaf)) (nested : Bool)
    (picks : List Pick) (key : String) (q : QueryPair) (grouped : Bool) : Prop where
  selects : Selects s base q.source.aliases leaves picks
  located : ∃ d, Leads s q.source.aliases (Path.under base Path.idSegment) d key
  fields : q.fields = picks.map (Pick.field s.dialect) ++ [⟨key, some Path.idSegment⟩]
  flag : grouped = (nested || picks.any Pick.aggregates)
  groupBy : q.source.groupBy = if grouped then (Pick.plain picks ++ [key]).eraseDups else []
  having : grouped = false → q.source.having = none

namespace Compilation

variable {s : Setting} {base : String} {mode : JoinMode} {leaves : List (String × Leaf)}
  {nested : Bool} {picks : List Pick} {key : String} {c c' : Compilation}

theorem selectKey_ok (h : selectKey s base mode c = (.ok ⟨⟩, c')) :
    ∃ t r, Arrived s (Path.under base Path.idSegment) mode (c.planning none) t r ∧
      Picked s.dialect ⟨Path.idSegment, r.column, none⟩ (c.planned t) c' := by
  unfold selectKey at h
  obtain ⟨r, u, hr, h⟩ := bind_ok h
  obtain ⟨t, harrived, rfl⟩ := resolve_ok hr
  unfold onQuery at h
  rw [bind_of_ok (modify_apply _ _), addPrimitive_apply] at h
  cases h
  exact ⟨t, r, harrived, rfl, rfl, by simp [Pick.aggregates], rfl⟩

theorem Gathered.grouping {p : Projection} {b : Bool} (h : Gathered s base [] [] c)
    (hf : Compilation.fields s p base nested mode c = (.ok b, c')) :
    ∃ picks key, Grouping s base p.leaves nested picks key c'.query c'.grouped := by
  unfold Compilation.fields at hf
  obtain ⟨aggregates, u, hu, hf⟩ := bind_ok hf
  obtain ⟨_, v, hv, hf⟩ := bind_ok hf
  obtain ⟨picks, hpicks, hany⟩ := h.mapM hu
  rw [List.nil_append, List.nil_append] at hpicks
  obtain ⟨t, r, harrived, hkey⟩ := selectKey_ok hv
  have hplanned := hpicks.planned harrived.run
  obtain ⟨d, hleads, -⟩ := hpicks.arrived harrived
  have hsource : v.query.source = (u.planned t).query.source := by
    rw [hkey.query]
    rfl
  have hfields : v.query.fields
      = picks.map (Pick.field s.dialect) ++ [⟨r.column, some Path.idSegment⟩] := by
    rw [hplanned.fields_picked hkey, List.map_append]
    rfl
  have hprimitives : v.primitives = (Pick.plain picks ++ [r.column]).eraseDups := by
    rw [hplanned.primitives_picked hkey]
    simp [Pick.plain, Pick.aggregates]
  have hgroupBy : v.query.source.groupBy = [] := by
    rw [hsource]
    exact hplanned.groupBy
  have hselects : Selects s base v.query.source.aliases p.leaves picks := by
    rw [hsource]
    exact hplanned.selects
  rw [← hsource] at hleads
  rw [hany] at hf
  unfold groupPrimitives at hf
  rw [bind_of_ok (modify_apply _ v)] at hf
  -- only now does it matter whether the query is grouped
  refine ⟨picks, r.column, ?_⟩
  cases hb : nested || picks.any Pick.aggregates with
  | true =>
    rw [hb] at hf
    cases hf
    simp only [if_true, QueryPair.foldl_group hgroupBy]
    refine ⟨hselects, ⟨d, hleads⟩, hfields, hb.symm, ?_, by simp⟩
    rw [hprimitives, eraseDups_eraseDups, if_pos rfl]
  | false =>
    rw [hb] at hf
    cases hf
    have hgrouped : v.grouped = false := hkey.grouped.trans hplanned.grouped
    simp only [Bool.false_eq_true, if_false]
    rw [hgrouped]
    refine ⟨hselects, ⟨d, hleads⟩, hfields, hb.symm, hgroupBy, fun _ => ?_⟩
    rw [hsource]
    exact hplanned.having

end Compilation

theorem Grouping.keeps {s : Setting} {base : String} {leaves : List (String × Leaf)}
    {nested : Bool} {picks : List Pick} {key : String} {c c' : Compilation}
    (h : Grouping s base leaves nested picks key c.query c.grouped)
    (hk : Compilation.Keeps c c') :
    Grouping s base leaves nested picks key c'.query c'.grouped := by
  obtain ⟨d, hd⟩ := h.located
  rw [hk.grouped]
  refine ⟨h.selects.mono hk.aliases, ⟨d, hd.mono hk.aliases⟩, ?_, h.flag, ?_, ?_⟩
  · rw [hk.fields, h.fields]
  · rw [hk.groupBy, h.groupBy]
  · intro hgrouped
    rw [hk.having hgrouped, h.having hgrouped]

/-- No column that is selected beside an aggregate is left out of the groups. -/
structure Closed (picks : List Pick) (key : String) (q : QueryPair) (grouped : Bool) : Prop where
  distinct : q.source.groupBy.Nodup
  columns : grouped = true → ∀ p ∈ picks, p.aggregates = false → p.column ∈ q.source.groupBy
  key : grouped = true → key ∈ q.source.groupBy
  having : q.source.having.isSome = true → q.source.groupBy ≠ []

theorem Grouping.closed {s : Setting} {base : String} {leaves : List (String × Leaf)}
    {nested : Bool} {picks : List Pick} {key : String} {q : QueryPair} {grouped : Bool}
    (h : Grouping s base leaves nested picks key q grouped) : Closed picks key q grouped := by
  have hkeys : grouped = true → ∀ x ∈ Pick.plain picks ++ [key], x ∈ q.source.groupBy := by
    rintro rfl x hx
    rw [h.groupBy, if_pos rfl]
    exact List.mem_eraseDups.2 hx
  refine ⟨?_, ?_, fun hg => hkeys hg key (by simp), ?_⟩
  · rw [h.groupBy]
    split
    · exact nodup_eraseDups _
    · exact List.nodup_nil
  · intro hg p hp hplain
    apply hkeys hg
    refine List.mem_append_left _ (List.mem_map_of_mem (List.mem_filter.2 ⟨hp, ?_⟩))
    simp [hplain]
  · intro hhaving hempty
    cases grouped with
    | false =>
      rw [h.having rfl] at hhaving
      cases hhaving
    | true =>
      have hkey := hkeys rfl key (by simp)
      rw [hempty] at hkey
      cases hkey

namespace Compilation

variable {s : Setting} {base : String}

theorem gathered_start (s : Setting) (base : String) (pool : Pool) (uses : Nat) :
    Gathered s base [] [] (start s pool uses) := by
  have hstart : Planning.Reachable s.schema s.root
      ⟨.ofRoot s.root, .ofTable s.root.table (JoinPlan.ofRoot s.root).rootAlias, none⟩ := .start
  have horderly := hstart.orderly
  unfold start Planning.notDeleted
  cases s.root.softDelete with
  | none => exact ⟨.nil, rfl, rfl, rfl, rfl, rfl, horderly⟩
  | some column =>
    exact ⟨.nil, rfl, rfl, rfl, rfl, rfl,
      ⟨horderly.recorded, horderly.numbered, horderly.distinct, horderly.inScope⟩⟩

theorem grouping_nestedQuery {task : NestedTask} {parentId : Value} {i j : Nat}
    {q : CompiledQuery} (h : nestedQuery s task parentId i = (.ok q, j)) :
    ∃ picks key, Grouping s task.path task.inner.leaves true picks key q.query q.grouped := by
  obtain ⟨c, hc, rfl, -⟩ := run_ok h
  unfold nestedSteps at hc
  obtain ⟨r, u, hr, hc⟩ := bind_ok hc
  obtain ⟨t, harrived, rfl⟩ := resolve_ok hr
  rw [setMiddlewares, bind_of_ok (modify_apply _ _)] at hc
  obtain ⟨b, v, hv, hc⟩ := bind_ok hc
  have hstart := (gathered_start s task.path task.pool i).planned harrived.run
  obtain ⟨picks, key, hgrouping⟩ := (hstart.withMiddlewares _).grouping hv
  exact ⟨picks, key, hgrouping.keeps (keeps_applyNested hc)⟩

end Compilation

theorem Provider.grouping_compileSteps {s : Setting} {m : Model} {projection : Projection}
    {r : Request} {i j : Nat} {q : CompiledQuery}
    (h : Compilation.run s r.criteria (compileSteps s m projection r) i = (.ok q, j)) :
    ∃ picks key, Grouping s "" projection.leaves false picks key q.query q.grouped := by
  obtain ⟨c, hc, rfl, -⟩ := Compilation.run_ok h
  unfold compileSteps Compilation.projection at hc
  obtain ⟨b, v, hv, hc⟩ := bind_ok hc
  rw [Compilation.setMiddlewares, bind_of_ok (modify_apply _ _)] at hv
  have hstart := Compilation.gathered_start s "" r.criteria i
  obtain ⟨picks, key, hgrouping⟩ := (hstart.withMiddlewares _).grouping hv
  have hkeeps := (Compilation.amended_of_ok (Provider.amended_applyRequest (s := s)) hc).keeps
  exact ⟨picks, key, hgrouping.keeps hkeeps⟩

/-- The query of a request, and that of a list for any parent, is grouped exactly if it is that of
a list or selects an aggregate. Its keys are then the columns of all other leaves and its primary
key, in the order of their selection and once each. Without groups there are no keys, and no
conditions on groups. -/
theorem group_by_closed (p : Provider) :
    (∀ model r i q j, p.compile model r i = (.ok q, j) →
      ∃ m root projection picks key, p.model model = .ok m ∧ p.schema.entity m.entity = .ok root ∧
        m.projection (r.projection.getD p.config.defaultProjection) = .ok projection ∧
        Grouping (p.setting root) "" projection.leaves false picks key q.query q.grouped ∧
        Closed picks key q.query q.grouped) ∧
    ∀ s task parentId i q j, Compilation.nestedQuery s task parentId i = (.ok q, j) →
      ∃ picks key,
        Grouping s task.path task.inner.leaves true picks key q.query q.grouped ∧
        Closed picks key q.query q.grouped := by
  constructor
  · intro model r i q j h
    obtain ⟨m, root, projection, v, hm, hroot, hprojection, hrun, -⟩ := Provider.compile_ok h
    obtain ⟨picks, key, hgrouping⟩ := Provider.grouping_compileSteps hrun
    exact ⟨m, root, projection, picks, key, hm, hroot, hprojection, hgrouping, hgrouping.closed⟩
  · intro s task parentId i q j h
    obtain ⟨picks, key, hgrouping⟩ := Compilation.grouping_nestedQuery h
    exact ⟨picks, key, hgrouping, hgrouping.closed⟩

theorem group_by_closed_blog :
    ∃ q j picks key, (Blog.provider .sqlite).compile "Post" Blog.request 0 = (.ok q, j) ∧
      q.grouped = true ∧ q.query.source.groupBy = ["post_1.title", "post_1.id"] ∧
      Closed picks key q.query q.grouped := by
  obtain ⟨q, j, hq, hread⟩ := ok_of_toOption_map
    (m := (Blog.provider .sqlite).compile "Post" Blog.request) (s := 0)
    (f := fun q => (q.grouped, q.query.source.groupBy))
    (b := (true, ["post_1.title", "post_1.id"])) (by decide +kernel)
  obtain ⟨hgrouped, hkeys⟩ := Prod.mk.inj hread
  obtain ⟨m, root, projection, picks, key, -, -, -, -, hclosed⟩ :=
    (group_by_closed (Blog.provider .sqlite)).1 "Post" Blog.request 0 q j hq
  exact ⟨q, j, picks, key, hq, hgrouped, hkeys, hclosed⟩

end RecordQuery
