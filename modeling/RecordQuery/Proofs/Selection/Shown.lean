import RecordQuery.Proofs.Joining.Ranging
import RecordQuery.Proofs.Selection.GroupKeys
import RecordQuery.Proofs.Selection.Order

namespace RecordQuery

open Steps

namespace Compilation

variable {s : Setting} {base path : String} {l : String × Leaf} {leaves : List (String × Leaf)}
  {p : Projection} {b : Bool} {c c' u : Compilation} {t : Planning} {segments : List String}
  {a : String} {pick : Pick} {plain : Prop}

def Undemanding (l : String × Leaf) : Prop :=
  Unscoped l ∧ ∀ leaf, l.2 = .field leaf → leaf.join ≠ .inner

inductive Shows (s : Setting) (base : String) (c : Compilation) :
    String × Leaf → List String → String → Pick → Prop
  | column {path label d there} : s.schema.destination s.root (Path.under base path) = .ok d →
    Planning.Standing (c.planning none) there →
    Planning.Located s.schema s.root (d.crossed (Path.under base path)) there →
    Shows s base c (path, .column label) (d.crossed (Path.under base path)) there.tableAlias
      ⟨label, qualified there.tableAlias d.leaf.column,
        if d.tail then some .groupConcat else none⟩
  | field {path leaf d there} : s.schema.destination s.root (Path.under base path) = .ok d →
    Planning.Standing (c.planning none) there →
    Planning.Located s.schema s.root (d.crossed (Path.under base path)) there →
    Shows s base c (path, .field leaf) (d.crossed (Path.under base path)) there.tableAlias
      ⟨leaf.label, qualified there.tableAlias d.leaf.column, leaf.function⟩

theorem Shows.extends (h : Shows s base c l segments a pick)
    (hext : Planning.Extends (c.planning none) (c'.planning none)) :
    Shows s base c' l segments a pick := by
  cases h with
  | column hd hthere hlocated => exact .column hd (hthere.extends hext) hlocated
  | field hd hthere hlocated => exact .field hd (hthere.extends hext) hlocated

/-- Paths are joined, in LEFT mode while no predicate waits if the joins are `plain`; or none is. -/
inductive Widens (s : Setting) (plain : Prop) (c : Compilation) : Compilation → Prop
  | join {mode : JoinMode} {waiting : Option ScopedPredicate} {t : Planning} :
    (plain → mode = .left ∧ waiting = none) →
    Planning.Strides s.schema s.root mode (c.planning waiting) t → Widens s plain c (c.planned t)
  | same {c' : Compilation} : c'.plan = c.plan →
    c'.query.source.tableAlias = c.query.source.tableAlias →
    c'.query.source.joins = c.query.source.joins → Widens s plain c c'

abbrev Widened (s : Setting) (plain : Prop) : Compilation → Compilation → Prop :=
  Relation.ReflTransGen (Widens s plain)

theorem Picked.widens (h : Picked s.dialect pick c c') : Widens s plain c c' :=
  .same h.plan (by rw [h.query]; rfl) (by rw [h.query]; rfl)

theorem Kept.widens (h : Kept c c') : Widens s plain c c' :=
  .same h.plan (by rw [h.query]) (by rw [h.query])

theorem Widened.extends (h : Widened s plain c c') :
    Planning.Extends (c.planning none) (c'.planning none) := by
  induction h with
  | refl => exact .refl _
  | tail _ hstep ih =>
    refine ih.trans ?_
    cases hstep with
    | @join _ waiting t _ hstrides =>
      have hext := hstrides.run.extends
      exact ⟨hext.rootAlias, hext.joined, hext.joins⟩
    | same hplan _ hjoins => exact extends_same hplan hjoins

section Rows

variable {ρ : Type} {db : Database ρ} {kin : Kin ρ} {all : List String} {e : Entity}

theorem measured_same (h : Planning.Measured s.schema s.root db kin all plain (c.planning none))
    (hplan : c'.plan = c.plan) (halias : c'.query.source.tableAlias = c.query.source.tableAlias)
    (hjoins : c'.query.source.joins = c.query.source.joins) :
    Planning.Measured s.schema s.root db kin all plain (c'.planning none) := by
  have hplanted : Planted s c := ⟨h.sound.orderly, h.sound.grown⟩
  have hsame := hplanted.same hplan halias hjoins
  refine h.same ⟨hsame.orderly, hsame.grown, fun a ha => ?_⟩ hplan halias hjoins
  refine h.sound.aliases a ?_
  unfold planning at ha
  rwa [hplan] at ha

theorem Widened.measured (h : Widened s plain c c') (hnamed : s.schema.Named s.root)
    (hdb : db.Relates s.schema s.root kin) (hall : s.schema.Crosses s.root all e)
    (hdots : ∀ name ∈ all, '.' ∉ name.toList)
    (hc : Planning.Measured s.schema s.root db kin all plain (c.planning none)) :
    Planning.Measured s.schema s.root db kin all plain (c'.planning none) := by
  induction h with
  | refl => exact hc
  | @tail u _ _ hstep ih =>
    cases hstep with
    | @join mode waiting t hplain hstrides =>
      have hsound := ih.sound
      have hwaiting : Planning.Measured s.schema s.root db kin all plain (u.planning waiting) :=
        ih.same ⟨hsound.orderly.awaiting waiting, hsound.grown.awaiting waiting, hsound.aliases⟩
          rfl rfl rfl
      have ht := hwaiting.strides hnamed hdb hall hdots hplain hstrides
      exact ht.same ⟨ht.sound.orderly.awaiting none, ht.sound.grown.awaiting none,
        ht.sound.aliases⟩ rfl rfl rfl
    | same hplan halias hjoins => exact measured_same ih hplan halias hjoins

end Rows

theorem resolveScoped_shows {mode : JoinMode} {waiting : Option ScopedPredicate} {r : Resolved}
    {applied : Bool} (h : resolveScoped s path mode waiting c = (.ok (r, applied), c')) :
    ∃ t d there, Planning.Strides s.schema s.root mode (c.planning waiting) t ∧ c' = c.planned t ∧
      s.schema.destination s.root path = .ok d ∧ Planning.Standing t there ∧
      Planning.Located s.schema s.root (d.crossed path) there ∧ r = d.under there.tableAlias := by
  unfold resolveScoped at h
  have hwalked := Planning.walked_resolve s.schema s.root path mode (c.planning waiting)
  generalize hresolve : Planning.resolve s.schema s.root path mode (c.planning waiting) = outcome
    at hwalked
  change Planning.resolve s.schema s.root path mode ⟨c.plan, c.query, waiting⟩ = outcome
    at hresolve
  rw [hresolve] at h
  obtain ⟨x, t⟩ := outcome
  generalize hd : s.schema.destination s.root path = dest at hwalked
  cases hwalked with
  | astray => cases h
  | stuck => cases h
  | @arrived d _ there htrail hthere hlocated =>
    cases h
    exact ⟨t, d, there, Planning.strides_resolve hresolve, rfl, rfl, hthere, hlocated, rfl⟩

theorem resolve_shows {mode : JoinMode} {r : Resolved} (h : resolve s path mode c = (.ok r, c')) :
    ∃ t d there, Planning.Strides s.schema s.root mode (c.planning none) t ∧ c' = c.planned t ∧
      s.schema.destination s.root path = .ok d ∧ Planning.Standing t there ∧
      Planning.Located s.schema s.root (d.crossed path) there ∧ r = d.under there.tableAlias := by
  obtain ⟨⟨r', applied⟩, u, hu, h⟩ := bind_ok h
  cases h
  exact resolveScoped_shows hu

theorem selectKey_shows (h : selectKey s "" .left c = (.ok ⟨⟩, c')) :
    ∃ t d there, Planning.Strides s.schema s.root .left (c.planning none) t ∧
      s.schema.destination s.root Path.idSegment = .ok d ∧ Planning.Standing t there ∧
      Planning.Located s.schema s.root (d.crossed Path.idSegment) there ∧
      Picked s.dialect ⟨Path.idSegment, qualified there.tableAlias d.leaf.column, none⟩
        (c.planned t) c' := by
  unfold selectKey at h
  obtain ⟨r, u, hr, h⟩ := bind_ok h
  obtain ⟨t, d, there, hstrides, rfl, hd, hthere, hlocated, hcolumn⟩ := resolve_shows hr
  have hpicked : Picked s.dialect ⟨Path.idSegment, r.column, none⟩ (c.planned t) c' := by
    unfold onQuery at h
    rw [bind_of_ok (modify_apply _ _), addPrimitive_apply] at h
    cases h
    exact ⟨rfl, rfl, by simp [Pick.aggregates], rfl⟩
  rw [hcolumn] at hpicked
  exact ⟨t, d, there, hstrides, hd, hthere, hlocated, hpicked⟩

theorem leaf_shows (h : leaf s base .left l c = (.ok b, c')) :
    Kept c c' ∧ route? base .left l = none ∨
    ∃ mode waiting t pick segments a, (Undemanding l → mode = .left ∧ waiting = none) ∧
      Planning.Strides s.schema s.root mode (c.planning waiting) t ∧
      Picked s.dialect pick (c.planned t) c' ∧ Shows s base (c.planned t) l segments a pick := by
  obtain ⟨path, l⟩ := l
  cases l with
  | column label =>
    obtain ⟨r, u, hr, h⟩ := bind_ok h
    obtain ⟨_, v, hv, h⟩ := bind_ok h
    cases h
    obtain ⟨t, d, there, hstrides, rfl, hd, hthere, hlocated, rfl⟩ := resolve_shows hr
    refine .inr ⟨_, _, t, _, _, _, fun _ => ⟨rfl, rfl⟩, hstrides, ?_,
      .column hd (hthere.extends ⟨rfl, id, List.prefix_rfl⟩) hlocated⟩
    cases htail : d.tail with
    | true =>
      rw [show (d.under there.tableAlias).tail = true from htail] at hv
      exact picked_selectSiblings hv
    | false =>
      rw [show (d.under there.tableAlias).tail = false from htail] at hv
      exact picked_selectPlain hv
  | field leaf =>
    change selectField s (Path.under base path) base .left leaf c = (.ok b, c') at h
    unfold selectField at h
    rw [bind_of_ok (get_apply c)] at h
    obtain ⟨⟨r, applied⟩, u, hr, h⟩ := bind_ok h
    obtain ⟨_, v, hv, h⟩ := bind_ok h
    obtain ⟨_, w, hw, h⟩ := bind_ok h
    cases h
    obtain ⟨t, d, there, hstrides, rfl, hd, hthere, hlocated, rfl⟩ := resolveScoped_shows hr
    have hkept := kept_takeScoped hv
    have hpicked := picked_selectResolved hw
    -- an undemanding field asks neither for INNER joins nor for a predicate
    refine .inr ⟨_, _, t, _, _, _, fun hl => ⟨if_neg (hl.2 leaf rfl), ?_⟩, hstrides,
      ⟨hpicked.plan.trans hkept.plan, ?_, ?_, hpicked.grouped.trans hkept.grouped⟩,
      .field hd (hthere.extends ⟨rfl, id, List.prefix_rfl⟩) hlocated⟩
    · rw [scopedPredicate?, hl.1 leaf rfl]
      rfl
    · rw [hpicked.query, hkept.query]
      rfl
    · rw [hpicked.primitives, hkept.primitives]
      rfl
  | list options inner =>
    obtain ⟨_, u, hu, h⟩ := bind_ok h
    cases h
    exact .inl ⟨kept_deferList hu, rfl⟩

structure Shown (s : Setting) (base : String) (plain : Prop) (leaves : List (String × Leaf))
    (picks : List Pick) (c c' : Compilation) : Prop where
  widened : Widened s plain c c'
  fields : c'.query.fields = c.query.fields ++ picks.map (Pick.field s.dialect)
  groupBy : c'.query.source.groupBy = c.query.source.groupBy
  grouped : c'.grouped = c.grouped
  primitives : ∀ x ∈ c'.primitives,
    x ∈ c.primitives ∨ ∃ pick ∈ picks, pick.aggregates = false ∧ pick.column = x
  every : ∀ l ∈ leaves, (route? base .left l).isSome →
    ∃ pick ∈ picks, ∃ segments a, Shows s base c' l segments a pick
  only : ∀ pick ∈ picks, ∃ l ∈ leaves, ∃ segments a, Shows s base c' l segments a pick

theorem Shown.append {leaves' : List (String × Leaf)} {picks picks' : List Pick}
    (h : Shown s base plain leaves picks c u) (h' : Shown s base plain leaves' picks' u c') :
    Shown s base plain (leaves ++ leaves') (picks ++ picks') c c' where
  widened := h.widened.trans h'.widened
  fields := by rw [h'.fields, h.fields, List.map_append, List.append_assoc]
  groupBy := h'.groupBy.trans h.groupBy
  grouped := h'.grouped.trans h.grouped
  primitives := by
    intro x hx
    rcases h'.primitives x hx with hx | ⟨pick, hpick, hplain⟩
    · refine (h.primitives x hx).imp_right fun ⟨pick, hpick, hplain⟩ => ?_
      exact ⟨pick, List.mem_append_left _ hpick, hplain⟩
    · exact .inr ⟨pick, List.mem_append_right _ hpick, hplain⟩
  every := by
    intro l hl hroute
    rcases List.mem_append.1 hl with hl | hl
    · obtain ⟨pick, hpick, segments, a, hshows⟩ := h.every l hl hroute
      exact ⟨pick, List.mem_append_left _ hpick, segments, a, hshows.extends h'.widened.extends⟩
    · obtain ⟨pick, hpick, hshows⟩ := h'.every l hl hroute
      exact ⟨pick, List.mem_append_right _ hpick, hshows⟩
  only := by
    intro pick hpick
    rcases List.mem_append.1 hpick with hpick | hpick
    · obtain ⟨l, hl, segments, a, hshows⟩ := h.only pick hpick
      exact ⟨l, List.mem_append_left _ hl, segments, a, hshows.extends h'.widened.extends⟩
    · obtain ⟨l, hl, hshows⟩ := h'.only pick hpick
      exact ⟨l, List.mem_append_right _ hl, hshows⟩

theorem shown_picked {mode : JoinMode} {waiting : Option ScopedPredicate}
    (hplain : plain → mode = .left ∧ waiting = none)
    (hstrides : Planning.Strides s.schema s.root mode (c.planning waiting) t)
    (hpick : Picked s.dialect pick (c.planned t) c') : Widened s plain c c' ∧
      c'.query.fields = c.query.fields ++ [pick.field s.dialect] ∧
      c'.query.source.groupBy = c.query.source.groupBy ∧ c'.grouped = c.grouped ∧
      ∀ x ∈ c'.primitives, x ∈ c.primitives ∨ pick.aggregates = false ∧ pick.column = x := by
  have hkeeps := keeps_planned hstrides.run
  refine ⟨.tail (.single (.join hplain hstrides)) hpick.widens, ?_, ?_, hpick.grouped,
    fun x hx => ?_⟩
  · rw [hpick.query]
    exact congrArg (· ++ [pick.field s.dialect]) hkeeps.fields
  · rw [hpick.query]
    exact hkeeps.groupBy
  · rw [hpick.primitives] at hx
    split at hx
    · exact .inl hx
    · next hnew =>
      rcases List.mem_append.1 hx with hx | hx
      · exact .inl hx
      · refine .inr ⟨?_, (List.mem_singleton.1 hx).symm⟩
        by_contra haggregates
        exact hnew (by simp [haggregates])

theorem leaf_shown (hl : plain → Undemanding l) (h : leaf s base .left l c = (.ok b, c')) :
    ∃ picks, Shown s base plain [l] picks c c' := by
  rcases leaf_shows h with ⟨hkept, hroute⟩ |
    ⟨mode, waiting, t, pick, segments, a, hleft, hstrides, hpicked, hshows⟩
  · refine ⟨[], .single hkept.widens, ?_, ?_, hkept.grouped,
      fun x hx => .inl (hkept.primitives ▸ hx), ?_, nofun⟩
    · rw [hkept.query, List.map_nil, List.append_nil]
    · rw [hkept.query]
    · intro l' hl' hsome
      rw [List.mem_singleton.1 hl', hroute] at hsome
      cases hsome
  · obtain ⟨hwidened, hfields, hgroupBy, hgrouped, hprimitives⟩ :=
      shown_picked (fun hp : plain => hleft (hl hp)) hstrides hpicked
    have hthere : Shows s base c' l segments a pick :=
      hshows.extends (extends_same hpicked.plan (by rw [hpicked.query]; rfl))
    refine ⟨[pick], hwidened, hfields, hgroupBy, hgrouped, fun x hx => ?_, fun l' hl' _ => ?_,
      fun pick' hpick' => ?_⟩
    · exact (hprimitives x hx).imp_right fun hplain => ⟨pick, List.mem_cons_self, hplain⟩
    · rw [List.mem_singleton.1 hl']
      exact ⟨pick, List.mem_cons_self, segments, a, hthere⟩
    · rw [List.mem_singleton.1 hpick']
      exact ⟨l, List.mem_cons_self, segments, a, hthere⟩

theorem mapM_shown {bs : List Bool} (hl : plain → ∀ l ∈ leaves, Undemanding l)
    (h : leaves.mapM (leaf s base .left) c = (.ok bs, c')) :
    ∃ picks, Shown s base plain leaves picks c c' := by
  induction leaves generalizing c bs with
  | nil =>
    cases h
    exact ⟨[], .refl, by simp, rfl, rfl, fun _ => .inl, nofun, nofun⟩
  | cons l leaves ih =>
    obtain ⟨b, u, bs', hb, hbs, rfl⟩ := mapM_cons_ok h
    obtain ⟨picks, hpicks⟩ := leaf_shown (fun hp => hl hp l List.mem_cons_self) hb
    obtain ⟨picks', hpicks'⟩ := ih (fun hp l' hl' => hl hp l' (List.mem_cons_of_mem l hl')) hbs
    exact ⟨picks ++ picks', hpicks.append hpicks'⟩

structure Projected (s : Setting) (leaves : List (String × Leaf)) (picks : List Pick)
    (key : String) (c : Compilation) : Prop where
  fields : c.query.fields = picks.map (Pick.field s.dialect) ++ [⟨key, some Path.idSegment⟩]
  every : ∀ l ∈ leaves, (route? "" .left l).isSome →
    ∃ pick ∈ picks, ∃ segments a, Shows s "" c l segments a pick
  only : ∀ pick ∈ picks, ∃ l ∈ leaves, ∃ segments a, Shows s "" c l segments a pick
  located : ∃ d there, s.schema.destination s.root Path.idSegment = .ok d ∧
    Planning.Standing (c.planning none) there ∧
    Planning.Located s.schema s.root (d.crossed Path.idSegment) there ∧
    key = qualified there.tableAlias d.leaf.column
  grouped : c.grouped = true → key ∈ c.query.source.groupBy
  groupBy : ∀ x ∈ c.query.source.groupBy,
    x = key ∨ ∃ pick ∈ picks, pick.aggregates = false ∧ pick.column = x

theorem Projected.same (h : Projected s leaves picks key c) (hplan : c'.plan = c.plan)
    (hquery : c'.query.fields = c.query.fields)
    (hjoins : c'.query.source.joins = c.query.source.joins)
    (hgrouped : c'.grouped = true → key ∈ c'.query.source.groupBy)
    (hgroupBy : ∀ x ∈ c'.query.source.groupBy,
      x = key ∨ ∃ pick ∈ picks, pick.aggregates = false ∧ pick.column = x) :
    Projected s leaves picks key c' := by
  have hext : Planning.Extends (c.planning none) (c'.planning none) := extends_same hplan hjoins
  refine ⟨hquery.trans h.fields, fun l hl hroute => ?_, fun pick hpick => ?_, ?_, hgrouped,
    hgroupBy⟩
  · obtain ⟨pick, hpick, segments, a, hshows⟩ := h.every l hl hroute
    exact ⟨pick, hpick, segments, a, hshows.extends hext⟩
  · obtain ⟨l, hl, segments, a, hshows⟩ := h.only pick hpick
    exact ⟨l, hl, segments, a, hshows.extends hext⟩
  · obtain ⟨d, there, hd, hthere, hlocated, hkey⟩ := h.located
    exact ⟨d, there, hd, hthere.extends hext, hlocated, hkey⟩

theorem fields_projected (hp : plain → ∀ l ∈ p.leaves, Undemanding l)
    (hfields : c.query.fields = []) (hprimitives : c.primitives = []) (hgroupBy : c.query.source.groupBy = [])
    (hgrouped : c.grouped = false) (h : fields s p "" false .left c = (.ok b, c')) :
    Widened s plain c c' ∧ ∃ picks key, Projected s p.leaves picks key c' := by
  unfold fields at h
  obtain ⟨aggregates, u, hu, h⟩ := bind_ok h
  obtain ⟨_, v, hv, h⟩ := bind_ok h
  obtain ⟨picks, hshown⟩ := mapM_shown hp hu
  obtain ⟨t, d, there, hstrides, hd, hthere, hlocated, hpicked⟩ := selectKey_shows hv
  obtain ⟨hwidened, hfields', hgroupBy', hgrouped', hprimitives'⟩ :=
    shown_picked (fun _ : plain => ⟨rfl, rfl⟩) hstrides hpicked
  have hnone : v.query.source.groupBy = [] := by rw [hgroupBy', hshown.groupBy, hgroupBy]
  have hungrouped : v.grouped = false := by rw [hgrouped', hshown.grouped, hgrouped]
  have hthere' : Planning.Standing (v.planning none) there := by
    have hplanned : Planning.Standing ((u.planned t).planning none) there :=
      hthere.extends ⟨rfl, id, List.prefix_rfl⟩
    exact hplanned.extends (extends_same hpicked.plan (by rw [hpicked.query]; rfl))
  have hplain : ∀ x ∈ v.primitives, x = qualified there.tableAlias d.leaf.column ∨
      ∃ pick ∈ picks, pick.aggregates = false ∧ pick.column = x := by
    intro x hx
    rcases hprimitives' x hx with hx | ⟨-, rfl⟩
    · refine .inr ((hshown.primitives x hx).resolve_left ?_)
      simp [hprimitives]
    · exact .inl rfl
  -- the key is kept once, whether or not a leaf has selected its column
  have hkey : qualified there.tableAlias d.leaf.column ∈ v.primitives := by
    rw [hpicked.primitives]
    split
    · next hmem => simpa [Pick.aggregates] using hmem
    · exact List.mem_append_right _ List.mem_cons_self
  have hprojected : Projected s p.leaves picks (qualified there.tableAlias d.leaf.column) v := by
    refine ⟨?_, fun l hl hroute => ?_, fun pick hpick => ?_,
      ⟨d, there, hd, hthere', hlocated, rfl⟩, ?_, ?_⟩
    · rw [hfields', hshown.fields, hfields, List.nil_append]
      rfl
    · obtain ⟨pick, hpick, segments, a, hshows⟩ := hshown.every l hl hroute
      exact ⟨pick, hpick, segments, a, hshows.extends hwidened.extends⟩
    · obtain ⟨l, hl, segments, a, hshows⟩ := hshown.only pick hpick
      exact ⟨l, hl, segments, a, hshows.extends hwidened.extends⟩
    · simp [hungrouped]
    · simp [hnone]
  -- grouping comes last and touches nothing that is shown
  unfold groupPrimitives at h
  rw [bind_of_ok (modify_apply _ v)] at h
  cases hb : false || aggregates.any id with
  | true =>
    have hsame : v.primitives.foldl QueryPair.group v.query
        = { v.query with source :=
            { v.query.source with groupBy := v.primitives.eraseDups } } :=
      QueryPair.foldl_group hnone _
    rw [hb] at h
    simp only [if_true, hsame] at h
    cases h
    exact ⟨(hshown.widened.trans hwidened).tail (.same rfl rfl rfl), picks, _,
      hprojected.same rfl rfl rfl (fun _ => List.mem_eraseDups.2 hkey)
        fun x hx => hplain x (List.mem_eraseDups.1 hx)⟩
  | false =>
    rw [hb] at h
    cases h
    exact ⟨hshown.widened.trans hwidened, picks, _, hprojected⟩

theorem Shows.position (h : Shows s base c l segments a pick) :
    ∃ there column, Planning.Standing (c.planning none) there ∧
      Planning.Located s.schema s.root segments there ∧ there.tableAlias = a ∧
      pick.column = qualified a column ∧ ∀ name ∈ segments, '.' ∉ name.toList := by
  cases h with
  | @column path _ d there _ hthere hlocated =>
    exact ⟨there, d.leaf.column, hthere, hlocated, rfl, rfl, d.not_mem_crossed _⟩
  | @field path _ d there _ hthere hlocated =>
    exact ⟨there, d.leaf.column, hthere, hlocated, rfl, rfl, d.not_mem_crossed _⟩

end Compilation

end RecordQuery
