import RecordQuery.Proofs.Emission.Grouping
import RecordQuery.Proofs.Leaves
import RecordQuery.Proofs.NestedQuery
import RecordQuery.Proofs.Selection.GroupKeys

namespace RecordQuery

open Steps

namespace Schema

def Unshadowed (σ : Schema) (root : Entity) : Prop :=
  ∀ e ∈ root :: σ.entities, ∀ a ∈ e.associations, a.name ≠ Path.idSegment

variable {σ : Schema} {root e : Entity} {path base : String} {behind ahead : List String}
  {toMany : Bool} {d : Destination}

theorem Unshadowed.association? (h : σ.Unshadowed root) (he : e ∈ root :: σ.entities) :
    e.association? Path.idSegment = none := by
  by_contra hsome
  obtain ⟨a, ha⟩ := Option.ne_none_iff_exists'.1 hsome
  have hname : a.name = Path.idSegment := by simpa using List.find?_some ha
  exact h e he a (List.mem_of_find?_eq_some ha) hname

theorem follow_key (hkey : σ.Unshadowed root) (hcrosses : σ.Crosses root behind e)
    (h : σ.follow path (ahead.map Path.bare ++ [Path.idSegment]) e toMany = .ok d) :
    σ.Crosses root (behind ++ ahead) d.entity ∧ d.entity.primary = .ok d.leaf ∧
      d.tail = false := by
  induction ahead generalizing behind e toMany with
  | nil =>
    have hcolumn : σ.follow path [Path.idSegment] e toMany
        = (e.ending Path.idSegment).map fun leaf => ⟨e, leaf, toMany, false⟩ :=
      follow_column (hkey.association? hcrosses.mem)
    rw [List.map_nil, List.nil_append, hcolumn, Entity.ending, if_pos rfl] at h
    obtain ⟨key, hprimary, rfl⟩ := except_map_ok h
    rw [List.append_nil]
    exact ⟨hcrosses, hprimary, rfl⟩
  | cons segment ahead ih =>
    rw [List.map_cons, List.cons_append] at h
    have hmore : (ahead.map Path.bare ++ [Path.idSegment]).isEmpty = false := by simp
    cases ha : e.association? (Path.bare segment) with
    | none =>
      obtain ⟨next, rest, hrest⟩ := List.exists_cons_of_ne_nil
        (by simp : ahead.map Path.bare ++ [Path.idSegment] ≠ [])
      rw [hrest, follow_unknown ha] at h
      cases h
    | some a =>
      rw [follow_association path _ toMany ha, hmore] at h
      obtain ⟨target, ht, h⟩ := except_bind_ok h
      rw [List.append_cons]
      exact ih (hcrosses.hop ha ht) h

theorem destination_key (hkey : σ.Unshadowed root)
    (h : σ.destination root (Path.under base Path.idSegment) = .ok d) :
    σ.Crosses root (Path.crossings base) d.entity ∧ d.entity.primary = .ok d.leaf ∧
      d.crossed (Path.under base Path.idSegment) = Path.crossings base := by
  have hbare : Path.bare Path.idSegment = Path.idSegment := by decide +kernel
  unfold destination at h
  rw [Path.segments_key, List.map_append, List.map_singleton, hbare] at h
  obtain ⟨hcrosses, hprimary, htail⟩ := follow_key hkey .start h
  refine ⟨hcrosses, hprimary, ?_⟩
  rw [Destination.crossed, htail, Path.segments_key]
  simp

end Schema

namespace Planning

variable {σ : Schema} {root e : Entity} {path last : String} {s : Planning} {here : Position}
  {segments : List String}

theorem Standing.covers (hnamed : σ.Named root) (hs : Grown σ root s)
    (hcrosses : σ.Crosses root segments e) (hhere : Standing s here)
    (hlocated : here.path = Path.along segments) (hpath : Path.segments path = segments ++ [last])
    (hlast : e.association? (Path.bare last) = none) : Covers σ root s path := by
  intro behind ahead e' hsplit hne hbehind
  rw [hpath] at hsplit
  have hdots := Path.not_mem_of_segments hpath
  cases ahead using List.reverseRecOn with
  | nil =>
    -- the last name would be that of an association
    rw [List.append_nil] at hsplit
    subst hsplit
    generalize hall : segments ++ [last] = all at hbehind
    cases hbehind with
    | start => simp at hall
    | hop hbefore ha =>
      obtain ⟨rfl, hsame⟩ := List.append_inj' hall rfl
      cases hsame
      rw [hbefore.unique hcrosses, hlast] at ha
      cases ha
  | append_singleton more name =>
    rw [← List.append_assoc] at hsplit
    obtain ⟨rfl, -⟩ := List.append_inj' hsplit rfl
    obtain ⟨there, hthere, hpath'⟩ := hhere.behind hnamed hs hcrosses hdots hlocated
    rw [← hpath']
    refine hthere.closed.resolve_left fun hempty => ?_
    rw [hpath'] at hempty
    exact Path.along_ne_empty (hbehind.named hnamed)
      (fun name hname => hdots name (List.mem_append_left _ hname)) hne hempty

end Planning

namespace Compilation

variable {s : Setting} {M : JoinMode → Prop} {base : String} {mode : JoinMode} {p : Projection}
  {grouped b : Bool} {task : NestedTask} {parentId : Value} {pool : Pool} {uses i j : Nat}
  {c c' : Compilation} {x q : CompiledQuery} {e : Entity} {key : Attribute}

theorem fields_groupPrimitives (h : groupPrimitives grouped c = (.ok ⟨⟩, c')) :
    c'.query.fields = c.query.fields := by
  unfold groupPrimitives at h
  rw [modify_apply] at h
  cases h
  cases grouped with
  | false => rfl
  | true => exact QueryPair.fields_foldl_group c.primitives

theorem fields_ok (h : fields s p base grouped mode c = (.ok b, c')) :
    ∃ bs u v r, p.leaves.mapM (leaf s base mode) c = (.ok bs, u) ∧
      resolve s (Path.under base Path.idSegment) mode u = (.ok r, v) ∧
      c'.query.fields = v.query.fields ++ [⟨r.column, some Path.idSegment⟩] ∧
      c'.nested = v.nested ∧ Evolved s M v c' := by
  unfold fields at h
  obtain ⟨bs, u, hu, h⟩ := bind_ok h
  obtain ⟨_, w, hw, h⟩ := bind_ok h
  obtain ⟨_, w', hw', h⟩ := bind_ok h
  cases h
  unfold selectKey at hw
  obtain ⟨r, v, hv, hw⟩ := bind_ok hw
  have hselected : Maintains (Evolved s M v)
      (onQuery (·.field r.column Path.idSegment) >>= fun _ => addPrimitive r.column)
      fun _ => True :=
    maintains_bind (evolved_field _ _) fun _ _ => evolved_addPrimitive _
  have hevolved : Evolved s M v w := evolved_of_ok hselected hw
  have hgrouped : Evolved s M w c' := evolved_of_ok (evolved_groupPrimitives _) hw'
  obtain ⟨-, hnested, -⟩ := (blind_groupPrimitives _).holds hw'
  have hlast := fields_groupPrimitives hw'
  unfold onQuery at hw
  rw [bind_of_ok (modify_apply _ v), addPrimitive_apply] at hw
  cases hw
  exact ⟨bs, u, v, r, hu, hv, hlast, hnested, hevolved.trans hgrouped⟩

structure Identified (s : Setting) (base : String) (q : QueryPair) (e : Entity)
    (key : Attribute) : Prop where
  crosses : s.schema.Crosses s.root (Path.crossings base) e
  primary : e.primary = .ok key
  last : ∃ tableAlias js before,
    Planning.Linked s.schema s.root q.source (Path.crossings base) e tableAlias js ∧
    q.fields = before ++ [⟨qualified tableAlias key.column, some Path.idSegment⟩]

theorem identified_of_fields (hnamed : s.schema.Named s.root)
    (hkey : s.schema.Unshadowed s.root) {gathered : Compilation}
    (h : fields s p base grouped mode c = (.ok b, gathered)) (hafter : Evolved s M gathered c')
    (hfields : c'.query.fields = gathered.query.fields) (hplanted : Planted s c')
    (hrooted : Planning.Rooted s.root (c'.planning none)) :
    ∃ e key, Identified s base c'.query e key := by
  obtain ⟨_, u, v, r, -, hr, hlast, -, hevolved⟩ := fields_ok (M := M) h
  obtain ⟨d, there, hreached⟩ := reached_of_ok hr
  obtain ⟨hcrosses, hprimary, hcrossed⟩ := Schema.destination_key hkey hreached.destination
  have hall : Evolved s M v c' := hevolved.trans hafter
  have hthere := hreached.standing.extends hall.extends
  have hpath := hreached.located.path
  have hdots := d.not_mem_crossed (Path.under base Path.idSegment)
  rw [hcrossed] at hpath hdots
  obtain ⟨js, hlinked, -⟩ := hthere.linked hnamed hplanted.grown hrooted hcrosses hdots hpath
  refine ⟨d.entity, d.leaf, hcrosses, hprimary, there.tableAlias, js, v.query.fields, hlinked, ?_⟩
  rw [hfields, hlast, hreached.resolved]
  rfl

theorem nested_applyNested (h : applyNested s task parentId c = (.ok ⟨⟩, c')) :
    c'.nested = c.nested := by
  obtain ⟨t, u, ht, hu, rfl⟩ := applyNested_ok h
  exact hu.holds.1.trans ht.holds.1

/-- The queries of a request and of its lists, at every depth and for any parents: each for a
projection below a prefix. -/
inductive Level (s : Setting) : String → Projection → CompiledQuery → Prop
  | request {m p r i q j} :
    run s r.criteria (Provider.compileSteps s m p r) i = (.ok q, j) → Level s "" p q
  | list {base p q task v i x j} : Level s base p q → task ∈ q.nested →
    nestedQuery s task v i = (.ok x, j) → Level s task.path task.inner x

theorem Level.identified (hnamed : s.schema.Named s.root) (hkey : s.schema.Unshadowed s.root)
    (h : Level s base p q) :
    (∃ e key, Identified s base q.query e key) ∧
      q.nested.map NestedTask.place = p.leaves.filterMap (Leaf.place? base) := by
  cases h with
  | @request m _ r i _ j hrun =>
    obtain ⟨c, hc, rfl, -⟩ := run_ok hrun
    have hany : p.Modes fun _ => True := fun _ _ _ _ _ => trivial
    have hevolved : Evolved s (fun _ => True) (start s r.criteria i) c :=
      evolved_of_ok (Provider.evolved_compileSteps trivial hany) hc
    have hrooted : Planning.Rooted s.root (c.planning none) := by
      refine rooted_of_ok (Q := fun _ => True) ?_ hevolved hc
      apply maintains_bind (maintains_projection (names_true s) (QueryPair.shaped_of _ _ _)
        (QueryPair.fielded_of _ _ _) (Projection.charsets_true _) fun _ _ _ _ _ => trivial)
      exact fun _ _ => Provider.maintains_applyRequest (names_true s) (QueryPair.shaped_of _ _ _)
    have hplanted := hevolved.planted (planted_start s r.criteria i)
    unfold Provider.compileSteps projection at hc
    obtain ⟨b, gathered, hfields, hc⟩ := bind_ok hc
    rw [setMiddlewares, bind_of_ok (modify_apply _ _)] at hfields
    have hamended : Amended s gathered c := amended_of_ok Provider.amended_applyRequest hc
    -- what the request adds behind the projection keeps its fields and its lists
    have hafter : Evolved s (fun _ => True) gathered c :=
      Relation.ReflTransGen.mono (fun _ _ => Amends.evolves trivial) _ _ hamended
    refine ⟨identified_of_fields hnamed hkey hfields hafter hamended.keeps.fields hplanted hrooted,
      ?_⟩
    obtain ⟨_, u, v, _, hleaves, hr, -, hnested, -⟩ := fields_ok (M := fun _ => True) hfields
    obtain ⟨-, hresolved, -⟩ := (blind_resolve _ _).holds hr
    change c.nested.map _ = _
    rw [hamended.holds.1, hnested, hresolved, places_mapM hleaves]
    rfl
  | @list _ _ _ task v i _ j _ _ hx =>
    obtain ⟨c, hc, rfl, -⟩ := run_ok hx
    obtain ⟨_, anchored, b, gathered, hanchor, hfields, happly⟩ := nestedSteps_ok hc
    have hafter : Evolved s (fun _ => True) gathered c :=
      evolved_of_ok (evolved_applyNested trivial task v) happly
    refine ⟨identified_of_fields hnamed hkey hfields hafter (keeps_applyNested happly).fields
      (planted_nestedSteps hc) (rooted_nestedSteps hc), ?_⟩
    obtain ⟨_, u, w, _, hleaves, hr, -, hnested, -⟩ := fields_ok (M := fun _ => True) hfields
    obtain ⟨-, hresolved, -⟩ := (blind_resolve _ _).holds hr
    obtain ⟨-, hstart, -⟩ := (blind_resolve _ _).holds hanchor
    change c.nested.map _ = _
    rw [nested_applyNested happly, hnested, hresolved, places_mapM hleaves]
    change anchored.nested.map _ ++ _ = _
    rw [hstart]
    rfl

/-- A list's path is joined, and later the key of its parent compared, with no join in between:
`u` is the state before the comparison is added, and after its column was resolved. -/
structure Correlated (s : Setting) (task : NestedTask) (parentId : Value) (uses : Nat) (e : Entity)
    (key : Attribute) (tableAlias : String) (anchored u c : Compilation) : Prop where
  anchor : ∃ r, resolve s (Path.under task.path Path.idSegment) .forceInner
    (start s task.pool uses) = (.ok r, anchored)
  linked : ∃ js, Planning.Linked s.schema s.root anchored.query.source
    (Path.crossings task.parent) e tableAlias js
  before : Evolved s (fun _ => True) anchored u
  unchanged : ∃ r, resolve s (Path.under task.parent Path.idSegment) .left u = (.ok r, u) ∧
    r.column = qualified tableAlias key.column
  after : Evolved s (fun _ => True)
    { u with query := u.query.addFilter (.eq (qualified tableAlias key.column) parentId) } c

theorem correlated_nestedSteps (hnamed : s.schema.Named s.root)
    (hkey : s.schema.Unshadowed s.root)
    (h : nestedSteps s task parentId (start s task.pool uses) = (.ok ⟨⟩, c))
    (hparent : Path.crossings task.parent <+: Path.crossings task.path) :
    ∃ e key tableAlias anchored u, s.schema.Crosses s.root (Path.crossings task.parent) e ∧
      e.primary = .ok key ∧ Correlated s task parentId uses e key tableAlias anchored u c := by
  obtain ⟨anchor, anchored, b, gathered, hanchor, hfields, happly⟩ := nestedSteps_ok h
  obtain ⟨d, there, hreached⟩ := reached_of_ok hanchor
  have hplanted : Planted s anchored := Evolved.planted (M := fun _ => True)
    (planted_start s task.pool uses) (evolved_of_ok (evolved_resolve trivial _) hanchor)
  obtain ⟨here, e, hhere, hpath, hcrosses⟩ := hreached.behind hnamed hplanted hparent
  have hread := Path.segments_key task.parent
  obtain ⟨js, hlinked, -⟩ := hhere.linked hnamed hplanted.grown
    (hreached.trail.run.rooted (rooted_start s task.pool uses)) hcrosses
    (Path.not_mem_of_segments hread) hpath
  obtain ⟨u, w, r, d', there', hbefore, hresolve, hreached', hafter⟩ := applyNested_reached happly
  have hu : Evolved s (fun _ => True) anchored u :=
    (evolved_gathered hfields).trans hbefore
  have hplanted' : Planted s u := hu.planted hplanted
  have hhere' := hhere.extends hu.extends
  obtain ⟨hcrosses', hprimary, hcrossed⟩ := Schema.destination_key hkey hreached'.destination
  cases hcrosses'.unique hcrosses
  -- nothing is left to join for the key of the parent
  have hcovers : Planning.Covers s.schema s.root (u.planning none)
      (Path.under task.parent Path.idSegment) := by
    have hbare : Path.bare Path.idSegment = Path.idSegment := by decide +kernel
    refine hhere'.covers hnamed hplanted'.grown hcrosses hpath hread ?_
    rw [hbare]
    exact hkey.association? hcrosses.mem
  cases resolve_covered hcovers hresolve
  have halias : there'.tableAlias = here.tableAlias := by
    refine (hreached'.standing.unique hnamed hplanted'.grown hhere' ?_).1
    rw [hreached'.located.path, hcrossed, hpath]
  have hcolumn : r.column = qualified here.tableAlias d'.leaf.column := by
    rw [hreached'.resolved, halias]
    rfl
  rw [hcolumn] at hafter
  exact ⟨d'.entity, d'.leaf, here.tableAlias, anchored, u, hcrosses, hprimary,
    ⟨anchor, hanchor⟩, ⟨js, hlinked⟩, hu, ⟨r, hresolve, hcolumn⟩, hafter⟩

end Compilation

open Compilation in
/-- At every level, the query for a projection below a prefix selects, last and under the alias of
keys, the primary key of the entity that the prefix leads to; each list it puts aside belongs to
the prefix and goes on from it. The query of the list compares the same key with the id of its
parent, on an alias that the path of the list is joined under, and adds no join for it. -/
theorem lists_compare_own_parent (s : Setting) (hnamed : s.schema.Named s.root)
    (hkey : s.schema.Unshadowed s.root) {base : String} {p : Projection} {q : CompiledQuery}
    (h : Level s base p q) :
    q.nested.map NestedTask.place = p.leaves.filterMap (Leaf.place? base) ∧
    ∃ e key, Identified s base q.query e key ∧
      ∀ task ∈ q.nested, task.parent = base ∧ (∃ path, task.path = Path.under base path) ∧
        ∀ v i x j, nestedQuery s task v i = (.ok x, j) →
          ∃ tableAlias anchored u c, x = c.finish s ∧
            Correlated s task v i e key tableAlias anchored u c ∧
            .eq (qualified tableAlias key.column) v ∈ x.query.source.conjuncts ∧
            ∃ js, Planning.Linked s.schema s.root x.query.source (Path.crossings base) e
              tableAlias js := by
  obtain ⟨⟨e, key, hidentified⟩, hplaces⟩ := h.identified hnamed hkey
  refine ⟨hplaces, e, key, hidentified, ?_⟩
  intro task htask
  have hplace : task.place ∈ p.leaves.filterMap (Leaf.place? base) :=
    hplaces ▸ List.mem_map_of_mem htask
  obtain ⟨⟨path, l⟩, -, hl⟩ := List.mem_filterMap.1 hplace
  obtain ⟨hpath, hparent⟩ : task.path = Path.under base path ∧ task.parent = base := by
    cases l with
    | column | field => cases hl
    | list options inner =>
      have hsame := Option.some.inj hl
      exact ⟨(congrArg Prod.fst hsame).symm, (congrArg (fun x => x.2.1) hsame).symm⟩
  refine ⟨hparent, ⟨path, hpath⟩, ?_⟩
  intro v i x j hx
  obtain ⟨c, hc, rfl, -⟩ := run_ok hx
  have hfront : Path.crossings task.parent <+: Path.crossings task.path := by
    rw [hparent, hpath]
    exact Path.crossings_under base path
  obtain ⟨e', key', tableAlias, anchored, u, hcrosses, hprimary, hcorrelated⟩ :=
    correlated_nestedSteps hnamed hkey hc hfront
  rw [hparent] at hcrosses
  -- the prefix leads to one entity, so both speak of its key
  cases hcrosses.unique hidentified.crosses
  have hsame : key' = key := Except.ok.inj (hprimary.symm.trans hidentified.primary)
  subst hsame
  obtain ⟨hextends, hscope⟩ := hcorrelated.after.filtered rfl
  obtain ⟨js, hlinked⟩ := hcorrelated.linked
  rw [hparent] at hlinked
  refine ⟨tableAlias, anchored, u, c, rfl, hcorrelated, hscope, js, ?_⟩
  obtain ⟨_, hanchor⟩ := hcorrelated.anchor
  obtain ⟨_, _, hreached⟩ := reached_of_ok hanchor
  exact hlinked.extends (hcorrelated.before.extends.trans hextends)
    (hreached.trail.run.rooted (rooted_start s task.pool i)) (rooted_nestedSteps hc)

open Compilation in
theorem lists_compare_own_parent_blog :
    Blog.schema.Named Blog.post ∧ Blog.schema.Unshadowed Blog.post ∧
    ∃ q task x j e key tableAlias anchored u c,
      Level ((Blog.provider .sqlite).setting Blog.post) "" Blog.listing q ∧ task ∈ q.nested ∧
      nestedQuery ((Blog.provider .sqlite).setting Blog.post) task (.int 7) 0 = (.ok x, j) ∧
      Identified ((Blog.provider .sqlite).setting Blog.post) "" q.query e key ∧
      Correlated ((Blog.provider .sqlite).setting Blog.post) task (.int 7) 0 e key tableAlias
        anchored u c ∧
      .eq (qualified tableAlias key.column) (.int 7) ∈ x.query.source.conjuncts := by
  have hnamed : Blog.schema.Named Blog.post := by
    unfold Schema.Named
    decide
  have hkey : Blog.schema.Unshadowed Blog.post := by
    unfold Schema.Unshadowed
    decide
  obtain ⟨q, i, hq, hlists⟩ := ok_of_toOption_map
    (m := run ((Blog.provider .sqlite).setting Blog.post) Blog.request.criteria
      (Provider.compileSteps ((Blog.provider .sqlite).setting Blog.post) Blog.posts Blog.listing
        Blog.request)) (s := 0)
    (f := fun q => q.nested.map fun task =>
      (nestedQuery ((Blog.provider .sqlite).setting Blog.post) task (.int 7) 0).1.toBool)
    (b := [true]) (by decide +kernel)
  obtain ⟨task, htask, hlisted⟩ := List.mem_map.1 (hlists ▸ List.mem_singleton_self true)
  obtain ⟨-, e, key, hidentified, hcompared⟩ := lists_compare_own_parent
    ((Blog.provider .sqlite).setting Blog.post) hnamed hkey (.request hq)
  obtain ⟨x, hx⟩ := ok_of_toBool hlisted
  obtain ⟨-, -, hqueries⟩ := hcompared task htask
  obtain ⟨tableAlias, anchored, u, c, -, hcorrelated, hequal, -⟩ := hqueries _ _ _ _ hx
  exact ⟨hnamed, hkey, q, task, x, _, e, key, tableAlias, anchored, u, c, .request hq, htask,
    hx, hidentified, hcorrelated, hequal⟩

/-- The prefix of two associations without names leads from a team to players. They are not joined:
their key is asked of the alias of the squads. -/
theorem nameless_key_misplaced :
    Club.schema.Unshadowed Club.team ∧
    Club.schema.Crosses Club.team (Path.crossings ".") Club.player ∧
    Club.player.primary = .ok ⟨"id", "player_id", .bigInt⟩ ∧
    (Club.queries "Team" Club.team (.int 1)).map
      (fun x => x.query.source.joins.map fun j => (j.table, j.tableAlias)) = [[("squads", "_2")]] ∧
    (Club.queries "Team" Club.team (.int 1)).map
      (fun x => x.query.fields.map fun f => (f.expression, f.label))
        = [[("_2.player_id", some "$id")]] := by
  have hkey : Club.schema.Unshadowed Club.team := by
    unfold Schema.Unshadowed
    decide
  have hpath : Path.crossings "." = [] ++ [""] ++ [""] := by decide +kernel
  have hbare : Path.bare "" = "" := by decide +kernel
  have hcrosses : Club.schema.Crosses Club.team (Path.crossings ".") Club.player := by
    have hsquads : Club.team.association? (Path.bare "")
        = some ⟨"", .hasMany, "Squad", "of_id", none, none⟩ := by rw [hbare]; rfl
    have hplayers : Club.squad.association? (Path.bare "")
        = some ⟨"", .hasMany, "Player", "in_id", none, none⟩ := by rw [hbare]; rfl
    have hbetween : Club.schema.Crosses Club.team ([] ++ [""]) Club.squad := .hop .start hsquads rfl
    rw [hpath]
    exact hbetween.hop hplayers rfl
  exact ⟨hkey, hcrosses, rfl, by decide +kernel, by decide +kernel⟩

end RecordQuery
