import RecordQuery.Proofs.Confinement
import RecordQuery.Proofs.Joining.Linked

namespace RecordQuery

open Steps

def QueryPair.Of (root : Entity) (q : QueryPair) : Prop :=
  q.source.table = root.table ∧ q.source.tableAlias = (JoinPlan.ofRoot root).rootAlias

theorem QueryPair.shaped_of (δ : Dialect) (N : String → Prop) (root : Entity) :
    Shaped δ N (Of root) := by
  intro q e h _ _
  cases e with
  | group x =>
    obtain ⟨groupBy, hgroup⟩ := q.source.group_eq x
    unfold Of at h ⊢
    simpa only [edit, group, hgroup] using h
  | _ => exact h

theorem QueryPair.fielded_of (δ : Dialect) (N : String → Prop) (root : Entity) :
    Fielded δ N (Of root) :=
  fun _ _ _ h _ => h

theorem Destination.crossings_crossed (d : Destination) (base : String) :
    Path.crossings base <+: d.crossed (Path.under base Path.idSegment) := by
  unfold crossed
  rw [Path.segments_key]
  split
  · exact List.prefix_append _ _
  · have hbefore : Path.crossings base = (Path.crossings base ++ [Path.idSegment]).dropLast :=
      List.dropLast_concat.symm
    exact ⟨[], (List.append_nil _).trans hbefore⟩

namespace Compilation

variable {s : Setting} {M : JoinMode → Prop} {path base : String} {mode : JoinMode}
  {task : NestedTask} {parentId : Value} {pool : Pool} {uses : Nat} {c c' : Compilation}
  {r : Resolved}

/-- A path was resolved: its associations are joined up to a position, where its column stands. -/
structure Reached (s : Setting) (path : String) (mode : JoinMode) (c c' : Compilation)
    (r : Resolved) (d : Destination) (there : Position) : Prop where
  destination : s.schema.destination s.root path = .ok d
  trail : Planning.Trail s.schema s.root path mode (c.planning none) (c'.planning none)
  standing : Planning.Standing (c'.planning none) there
  located : Planning.Located s.schema s.root (d.crossed path) there
  entity : there.entity = d.entity
  resolved : r = d.under there.tableAlias

theorem reached_of_ok (h : resolve s path mode c = (.ok r, c')) :
    ∃ d there, Reached s path mode c c' r d there := by
  obtain ⟨x, t, hwalked, heq⟩ := resolve_walked s path mode c
  rw [heq] at h
  cases h
  generalize hd : s.schema.destination s.root path = d at hwalked
  cases hwalked with
  | @arrived d _ there htrail hthere hlocated hentity =>
    have hunscoped : t = (c.planned t).planning none := by
      have hwaiting := htrail.unscoped rfl
      obtain ⟨plan, query, waiting⟩ := t
      cases hwaiting
      rfl
    rw [hunscoped] at htrail hthere
    exact ⟨d, there, hd, htrail, hthere, hlocated, hentity, rfl⟩

theorem rooted_start (s : Setting) (pool : Pool) (uses : Nat) :
    Planning.Rooted s.root ((start s pool uses).planning none) := by
  unfold start Planning.notDeleted
  cases s.root.softDelete <;> exact ⟨rfl, rfl⟩

theorem rooted_of_ok {α : Type} {m : Steps Compilation α} {a : α} {Q : α → Prop}
    (hm : Maintains (OfQuery (QueryPair.Of s.root)) m Q)
    (he : Evolved s M (start s pool uses) c) (h : m (start s pool uses) = (.ok a, c)) :
    Planning.Rooted s.root (c.planning none) := by
  have hstart : (start s pool uses).OfQuery (QueryPair.Of s.root) := by
    have hformed := formed_start (T := fun _ => True) (names_true s) pool uses
    have hrooted := rooted_start s pool uses
    exact ⟨hformed.plan, ⟨hrooted.table, hrooted.tableAlias⟩, hformed.primitives, hformed.nested⟩
  have hquery := (hm _ hstart).1.query
  rw [h] at hquery
  have hroot : c.plan.rootAlias = (start s pool uses).plan.rootAlias := he.extends.rootAlias
  exact ⟨hquery.1, hquery.2.trans hroot.symm⟩

theorem nestedSteps_ok (h : nestedSteps s task parentId c = (.ok ⟨⟩, c')) :
    ∃ anchor anchored b gathered,
      resolve s (Path.under task.path Path.idSegment) .forceInner c = (.ok anchor, anchored) ∧
      fields s task.inner task.path true (nestedMode task.options)
        { anchored with middlewares := task.inner.middlewares } = (.ok b, gathered) ∧
      applyNested s task parentId gathered = (.ok ⟨⟩, c') := by
  unfold nestedSteps at h
  obtain ⟨anchor, anchored, hanchor, h⟩ := bind_ok h
  rw [setMiddlewares, bind_of_ok (modify_apply _ _)] at h
  obtain ⟨b, gathered, hfields, h⟩ := bind_ok h
  exact ⟨anchor, anchored, b, gathered, hanchor, hfields, h⟩

theorem evolved_gathered {anchored gathered : Compilation} {b : Bool}
    (h : fields s task.inner task.path true (nestedMode task.options)
      { anchored with middlewares := task.inner.middlewares } = (.ok b, gathered)) :
    Evolved s (fun _ => True) anchored gathered := by
  have hset : Evolved s (fun _ => True) anchored
      { anchored with middlewares := task.inner.middlewares } :=
    .single (.aside ⟨rfl, rfl, rfl, rfl, rfl⟩)
  exact hset.trans (evolved_of_ok
    (evolved_fields trivial (fun _ _ _ _ _ => trivial) _ _) h)

theorem applyNested_reached (h : applyNested s task parentId c = (.ok ⟨⟩, c')) :
    ∃ u w r d there, Evolved s (fun _ => True) c u ∧
      resolve s (Path.under task.parent Path.idSegment) .left u = (.ok r, w) ∧
      Reached s (Path.under task.parent Path.idSegment) .left u w r d there ∧
      Evolved s (fun _ => True) { w with query := w.query.addFilter (.eq r.column parentId) }
        c' := by
  unfold applyNested at h
  obtain ⟨_, u, hsort, h⟩ := bind_ok h
  obtain ⟨r, w, hparent, h⟩ := bind_ok h
  obtain ⟨_, filtered, hfilter, hcriteria⟩ := bind_ok h
  obtain ⟨d, there, hreached⟩ := reached_of_ok hparent
  cases hfilter
  exact ⟨u, w, r, d, there,
    evolved_of_ok (evolved_of_amended trivial fun _ => amended_nestedSort task) hsort, hparent,
    hreached, evolved_of_ok (evolved_nestedCriteria trivial task) hcriteria⟩

theorem Evolved.filtered {d : Condition} (hd : d.conjuncts = [d])
    (h : Evolved s M { c with query := c.query.addFilter d } c') :
    Planning.Extends (c.planning none) (c'.planning none) ∧ d ∈ c'.query.source.conjuncts := by
  refine ⟨?_, h.conjuncts (Source.mem_conjuncts_addFilter _ hd)⟩
  have hall : Evolved s M c c' := .head (.filter d) h
  exact hall.extends

theorem resolve_covered {x : Except Error Resolved}
    (hcovers : Planning.Covers s.schema s.root (c.planning none) path)
    (h : resolve s path mode c = (x, c')) : c' = c := by
  obtain ⟨_, t, hwalked, heq⟩ := resolve_walked s path mode c
  have hsame := hcovers.trail hwalked.trail
  rw [heq] at h
  cases h
  rw [hsame]
  rfl

theorem rooted_nestedSteps (h : nestedSteps s task parentId (start s pool uses) = (.ok ⟨⟩, c)) :
    Planning.Rooted s.root (c.planning none) := by
  have hevolved : Evolved s (fun _ => True) (start s pool uses) c :=
    evolved_of_ok (evolved_nestedSteps (fun _ => trivial) task parentId) h
  refine rooted_of_ok (maintains_nestedSteps (names_true s) (QueryPair.shaped_of _ _ _)
    (QueryPair.fielded_of _ _ _) (Projection.charsets_true _) ?_ parentId) hevolved h
  exact fun _ _ _ _ _ => trivial

theorem planted_nestedSteps (h : nestedSteps s task parentId (start s pool uses) = (.ok ⟨⟩, c)) :
    Planted s c :=
  Evolved.planted (M := fun _ => True) (planted_start s pool uses)
    (evolved_of_ok (evolved_nestedSteps (fun _ => trivial) task parentId) h)

theorem Reached.behind (hnamed : s.schema.Named s.root) {d : Destination} {there : Position}
    (h : Reached s (Path.under base Path.idSegment) mode c c' r d there) (hc' : Planted s c')
    {segments : List String} (hfront : segments <+: Path.crossings base) :
    ∃ here e, Planning.Standing (c'.planning none) here ∧ here.path = Path.along segments ∧
      s.schema.Crosses s.root segments e := by
  obtain ⟨more, hmore⟩ := hfront.trans (d.crossings_crossed base)
  have hcrosses := h.located.crosses
  have hpath := h.located.path
  have hdots := d.not_mem_crossed (Path.under base Path.idSegment)
  rw [← hmore] at hcrosses hpath hdots
  obtain ⟨here, hhere, hbehind⟩ := h.standing.behind hnamed hc'.grown hcrosses hdots hpath
  obtain ⟨e, he⟩ := hcrosses.of_append
  exact ⟨here, e, hhere, hbehind, he⟩

theorem linked_nestedSteps (hnamed : s.schema.Named s.root)
    (h : nestedSteps s task parentId (start s pool uses) = (.ok ⟨⟩, c)) {segments : List String}
    (hfront : segments <+: Path.crossings task.path)
    (hfirm : s.schema.Firm s.root segments) :
    ∃ e tableAlias js, Planning.Linked s.schema s.root c.query.source segments e tableAlias js ∧
      ∀ j ∈ js, j.type = .inner := by
  obtain ⟨anchor, anchored, b, gathered, hanchor, hfields, happly⟩ := nestedSteps_ok h
  obtain ⟨d, there, hreached⟩ := reached_of_ok hanchor
  have hplanted : Planted s anchored := Evolved.planted (M := fun _ => True)
    (planted_start s pool uses) (evolved_of_ok (evolved_resolve trivial _) hanchor)
  obtain ⟨here, e, hhere, hpath, hcrosses⟩ := hreached.behind hnamed hplanted hfront
  obtain ⟨more, hmore⟩ := hfront
  have hread : Path.segments (Path.under task.path Path.idSegment)
      = segments ++ (more ++ [Path.idSegment]) := by
    rw [Path.segments_key, ← hmore, List.append_assoc]
  have hinner : here.left = false :=
    hreached.trail.firm hnamed rfl hplanted.grown hread hcrosses hfirm hhere hpath
  have happlied : Evolved s (fun _ => True) gathered c :=
    evolved_of_ok (evolved_applyNested trivial task parentId) happly
  have hafter : Evolved s (fun _ => True) anchored c := (evolved_gathered hfields).trans happlied
  have hlast := hhere.extends hafter.extends
  obtain ⟨js, hlinked, hjs⟩ := hlast.linked hnamed (planted_nestedSteps h).grown
    (rooted_nestedSteps h) hcrosses (Path.not_mem_of_segments hread) hpath
  exact ⟨e, here.tableAlias, js, hlinked, hjs hinner⟩

theorem scoped_nestedSteps (hnamed : s.schema.Named s.root)
    (h : nestedSteps s task parentId (start s pool uses) = (.ok ⟨⟩, c)) :
    ∃ d tableAlias js,
      s.schema.destination s.root (Path.under task.parent Path.idSegment) = .ok d ∧
      Planning.Linked s.schema s.root c.query.source
        (d.crossed (Path.under task.parent Path.idSegment)) d.entity tableAlias js ∧
      .eq (qualified tableAlias d.leaf.column) parentId ∈ c.query.source.conjuncts := by
  obtain ⟨_, _, _, _, -, -, happly⟩ := nestedSteps_ok h
  obtain ⟨_, _, r, d, there, -, -, hreached, hevolved⟩ := applyNested_reached happly
  obtain ⟨hextends, hscope⟩ := hevolved.filtered rfl
  have hstanding := hreached.standing.extends hextends
  obtain ⟨js, hlinked, -⟩ := hstanding.linked hnamed (planted_nestedSteps h).grown
    (rooted_nestedSteps h) (hreached.entity ▸ hreached.located.crosses) (d.not_mem_crossed _)
    hreached.located.path
  rw [hreached.resolved] at hscope
  exact ⟨d, there.tableAlias, js, hreached.destination, hlinked, hscope⟩

end Compilation

namespace Club

def keyed (name table key : String) : Entity :=
  (Entity.ofTable name table).withPrimaryKey ⟨"id", key, .bigInt⟩

def member : Entity :=
  ((keyed "Member" "members" "member_id").withAssociation
    ⟨"card", .hasOne, "Card", "owner_id", none, none⟩).withAssociation
    ⟨"visits", .hasMany, "Visit", "visitor_id", none, none⟩

def card : Entity :=
  (keyed "Card" "cards" "card_id").withAssociation
    ⟨"stamps", .hasMany, "Stamp", "stamped_id", none, none⟩

def team : Entity :=
  (keyed "Team" "teams" "team_id").withAssociation ⟨"", .hasMany, "Squad", "of_id", none, none⟩

def squad : Entity :=
  (keyed "Squad" "squads" "squad_id").withAssociation ⟨"", .hasMany, "Player", "in_id", none, none⟩

def player : Entity := keyed "Player" "players" "player_id"

def schema : Schema where
  entities := [member, card, keyed "Stamp" "stamps" "stamp_id", keyed "Visit" "visits" "visit_id",
    team, squad, player]
  distinct := by decide
  keyed := by decide

def lists (paths : List String) : Projection :=
  .ofLeaves [] (paths.map fun path => (path, .list ⟨path, none, none, .left⟩ (.done [])))

def provider : Provider := ⟨schema, .sqlite, .standard,
  [("Member",
      (Model.ofEntity "Member").withProjection "default" (lists ["card.stamps", "visits?"])),
    ("Team", (Model.ofEntity "Team").withProjection "default" (lists ["."]))]⟩

def queries (model : String) (root : Entity) (id : Value) : List CompiledQuery :=
  (provider.compile model .empty 0).1.toOption.toList.flatMap fun q => q.nested.flatMap fun task =>
    (Compilation.nestedQuery (provider.setting root) task id 0).1.toOption.toList

def joins (q : CompiledQuery) : List (String × JoinType) :=
  q.query.source.joins.map fun j => (j.table, j.type)

end Club

end RecordQuery
