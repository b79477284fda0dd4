import RecordQuery.Proofs.Joining.Scope
import RecordQuery.Proofs.Joining.Segments

/-!
Joined paths form a tree. Each hangs on the position its walk came from, under an alias of its own,
and stays there whatever is joined later. Names tell the paths apart if none of them is empty.
-/

namespace RecordQuery

open Steps

def Path.init (path : String) : String := ".".intercalate (Path.segments path).dropLast

namespace Schema

variable {σ : Schema} {root e : Entity} {segments : List String}

def Named (σ : Schema) (root : Entity) : Prop :=
  ∀ e ∈ root :: σ.entities, ∀ a ∈ e.associations, a.name ≠ ""

theorem Named.of_association? (h : σ.Named root) (he : e ∈ root :: σ.entities) {name : String}
    {a : Association} (ha : e.association? name = some a) : name ≠ "" := by
  have hname : a.name = name := by simpa using List.find?_some ha
  rw [← hname]
  exact h e he a (List.mem_of_find?_eq_some ha)

theorem Crosses.named (hnamed : σ.Named root) (h : σ.Crosses root segments e) :
    ∀ name ∈ segments.map Path.bare, name ≠ "" := by
  induction h with
  | start => simp
  | hop hcrosses ha _ ih =>
    rw [List.map_append, List.map_singleton]
    exact List.forall_mem_append.2
      ⟨ih, List.forall_mem_singleton.2 (hnamed.of_association? hcrosses.mem ha)⟩

theorem Crosses.named_concat (hnamed : σ.Named root) (h : σ.Crosses root segments e)
    {segment : String} {a : Association} (ha : e.association? (Path.bare segment) = some a) :
    ∀ name ∈ (segments ++ [segment]).map Path.bare, name ≠ "" := by
  rw [List.map_append, List.map_singleton]
  exact List.forall_mem_append.2
    ⟨h.named hnamed, List.forall_mem_singleton.2 (hnamed.of_association? h.mem ha)⟩

end Schema

namespace Path

variable {segments : List String}

theorem segments_along (hnamed : ∀ name ∈ segments.map bare, name ≠ "")
    (hdots : ∀ segment ∈ segments, '.' ∉ segment.toList) (hne : segments ≠ []) :
    Path.segments (along segments) = segments.map bare := by
  rw [along, foldl_under hnamed]
  apply segments_intercalate (by simpa using hne)
  intro name hname
  obtain ⟨segment, hsegment, rfl⟩ := List.mem_map.1 hname
  exact not_mem_bare (hdots segment hsegment)

theorem along_ne_empty (hnamed : ∀ name ∈ segments.map bare, name ≠ "")
    (hdots : ∀ segment ∈ segments, '.' ∉ segment.toList) (hne : segments ≠ []) :
    along segments ≠ "" := by
  intro hempty
  have hread := segments_along hnamed hdots hne
  rw [hempty] at hread
  have hone : Path.segments "" = [""] := by decide
  rw [hone] at hread
  exact hnamed "" (by rw [← hread]; exact List.mem_cons_self) rfl

theorem bare_of_along {xs ys : List String} (hxs : ∀ name ∈ xs.map bare, name ≠ "")
    (hys : ∀ name ∈ ys.map bare, name ≠ "") (hx : ∀ segment ∈ xs, '.' ∉ segment.toList)
    (hy : ∀ segment ∈ ys, '.' ∉ segment.toList) (h : along xs = along ys) :
    xs.map bare = ys.map bare := by
  by_cases hxe : xs = []
  · subst hxe
    by_cases hye : ys = []
    · rw [hye]
    · exact absurd h.symm (along_ne_empty hys hy hye)
  · by_cases hye : ys = []
    · subst hye
      exact absurd h (along_ne_empty hxs hx hxe)
    · rw [← segments_along hxs hx hxe, h, segments_along hys hy hye]

end Path

namespace Planning

variable {σ : Schema} {root : Entity} {path p : String} {mode : JoinMode} {s t u : Planning}
  {parent : Position} {joined : JoinedPath} {j : Join} {js : List Join}

structure Extends (s t : Planning) : Prop where
  rootAlias : t.plan.rootAlias = s.plan.rootAlias
  joined : ∀ {p joined}, s.plan.joined.get? p = some joined → t.plan.joined.get? p = some joined
  joins : s.query.source.joins <+: t.query.source.joins

theorem Extends.refl (s : Planning) : Extends s s := ⟨rfl, id, List.prefix_rfl⟩

theorem Extends.trans (h : Extends s t) (h' : Extends t u) : Extends s u :=
  ⟨h'.rootAlias.trans h.rootAlias, h'.joined ∘ h.joined, h.joins.trans h'.joins⟩

theorem extends_awaiting (s : Planning) (waiting : Option ScopedPredicate) :
    Extends s (s.awaiting waiting) :=
  ⟨rfl, id, List.prefix_rfl⟩

theorem Step.extends (h : Step σ root path mode s t) : Extends s t where
  rootAlias := h.rootAlias
  joined := h.joined
  joins := by
    obtain ⟨js, hquery⟩ := Run.query (.single ⟨path, h⟩)
    rw [hquery]
    exact List.prefix_append _ js

theorem Standing.closed (h : Standing s parent) :
    parent.path = "" ∨ (s.plan.joined.get? parent.path).isSome := by
  cases h with
  | root _ hp => exact .inl hp
  | joined hj => exact .inr (by rw [hj]; rfl)

theorem Run.extends (h : Run σ root mode s t) : Extends s t := by
  induction h with
  | refl => exact .refl s
  | tail _ hstep ih =>
    obtain ⟨path, hstep⟩ := hstep
    exact ih.trans hstep.extends

theorem Standing.extends (h : Standing s parent) (hext : Extends s t) : Standing t parent := by
  cases h with
  | root ha hp hl => exact .root (ha.trans hext.rootAlias.symm) hp hl
  | joined hj => exact .joined (hext.joined hj)

/-- The joins of a joined path, that of a link among them. They bind its alias to that of the
position its walk came from, and are LEFT joins if those of the position are. -/
inductive Hangs (σ : Schema) (root : Entity) (s : Planning) (parent : Position) :
    String → JoinedPath → List Join → Prop
  | mk {path behind segment ahead a target joined source destination conditions} :
    Path.segments path = behind ++ segment :: ahead → Standing s parent →
    Located σ root behind parent → parent.entity.association? (Path.bare segment) = some a →
    σ.entity a.target = .ok target → parent.entity.key a.sourceKey = .ok source →
    target.key a.targetKey = .ok destination → (parent.left = true → joined.left = true) →
    newJoins parent a target joined.tableAlias joined.left source destination conditions
      <:+: s.query.source.joins →
    Hangs σ root s parent (Path.along (behind ++ [segment])) joined
      (newJoins parent a target joined.tableAlias joined.left source destination conditions)

/-- Where a join of the query comes from: it is one of those of a joined path, or that of the link
to an association that failed to be joined. -/
inductive Sprung (σ : Schema) (root : Entity) (s : Planning) (parent : Position) (j : Join) : Prop
  | path {p : String} {joined : JoinedPath} {js : List Join} :
    s.plan.joined.get? p = some joined → Hangs σ root s parent p joined js → j ∈ js →
    Sprung σ root s parent j
  | link {behind segment a child left source} : Standing s parent → Located σ root behind parent →
    parent.entity.association? (Path.bare segment) = some a →
    (parent.left = true → left = true) → j ∈ linkJoins parent a child (joinType left) source →
    Sprung σ root s parent j

theorem Hangs.standing (h : Hangs σ root s parent p joined js) : Standing s parent := by
  cases h with
  | mk _ hstanding => exact hstanding

theorem Hangs.alias_mem (h : Hangs σ root s parent p joined js) :
    joined.tableAlias ∈ s.query.source.joins.map Join.tableAlias := by
  cases h with
  | mk _ _ _ _ _ _ _ _ hjoins =>
    refine (hjoins.map Join.tableAlias).subset ?_
    rw [aliases_newJoins]
    exact List.mem_append_right _ List.mem_cons_self

theorem Hangs.extends (h : Hangs σ root s parent p joined js) (hext : Extends s t) :
    Hangs σ root t parent p joined js := by
  cases h with
  | mk hpath hstanding hlocated ha ht hs hd hleft hjoins =>
    exact .mk hpath (hstanding.extends hext) hlocated ha ht hs hd hleft
      (hjoins.trans hext.joins.isInfix)

theorem Sprung.extends (h : Sprung σ root s parent j) (hext : Extends s t) :
    Sprung σ root t parent j := by
  cases h with
  | path hj hparent hmem => exact .path (hext.joined hj) (hparent.extends hext) hmem
  | link hstanding hlocated ha hleft hj =>
    exact .link (hstanding.extends hext) hlocated ha hleft hj

/-- Every joined path hangs on its parent, no two share an alias, and every join has its place. -/
structure Grown (σ : Schema) (root : Entity) (s : Planning) : Prop where
  hangs : ∀ {p joined}, s.plan.joined.get? p = some joined →
    ∃ parent js, Hangs σ root s parent p joined js
  apart : ∀ {p q i j}, s.plan.joined.get? p = some i → s.plan.joined.get? q = some j →
    i.tableAlias = j.tableAlias → p = q
  sprung : ∀ j ∈ s.query.source.joins, ∃ parent, Sprung σ root s parent j

theorem Grown.extends (h : Grown σ root s) (hext : Extends s t)
    (hjoined : t.plan.joined = s.plan.joined)
    (hjoins : ∀ j ∈ t.query.source.joins,
      j ∈ s.query.source.joins ∨ ∃ parent, Sprung σ root t parent j) :
    Grown σ root t where
  hangs := by
    intro p joined hj
    rw [hjoined] at hj
    obtain ⟨parent, js, hparent⟩ := h.hangs hj
    exact ⟨parent, js, hparent.extends hext⟩
  apart := by
    rw [hjoined]
    exact h.apart
  sprung := by
    intro j hj
    rcases hjoins j hj with hj | hj
    · obtain ⟨parent, hparent⟩ := h.sprung j hj
      exact ⟨parent, hparent.extends hext⟩
    · exact hj

theorem Orderly.unused (h : Orderly s) {a : String} (ha : Numbered (s.plan.counter + 1) a) :
    a ∉ s.query.source.aliases := by
  intro hmem
  obtain ⟨n, hle, hn⟩ := h.numbered _ hmem
  have hsame := hn.unique ha
  omega

theorem Orderly.fresh (h : Orderly s) (a : Association) : s.childAlias a ∉ s.plan.aliases :=
  fun hmem => h.unused (numbered_aliasNumbered _ _) (h.recorded hmem)

theorem Grown.record (h : Grown σ root s) (ho : Orderly s) {a : Association} {left : Bool}
    (hjoined : t.plan.joined = s.plan.joined.insert p ⟨s.childAlias a, left⟩)
    (hext : Extends s t) (hjoins : t.query.source.joins = s.query.source.joins ++ js)
    (hparent : Hangs σ root t parent p ⟨s.childAlias a, left⟩ js) : Grown σ root t where
  hangs := by
    intro q joined hj
    rw [hjoined] at hj
    rcases Fields.get?_insert_cases hj with ⟨rfl, rfl⟩ | hj
    · exact ⟨parent, js, hparent⟩
    · obtain ⟨parent, js, hparent⟩ := h.hangs hj
      exact ⟨parent, js, hparent.extends hext⟩
  apart := by
    -- the number of the new alias was not used before
    have hfresh : ∀ {q joined}, s.plan.joined.get? q = some joined →
        joined.tableAlias ≠ s.childAlias a := by
      intro q joined hj halias
      refine ho.fresh a ?_
      rw [← halias]
      exact List.mem_cons_of_mem _ (List.mem_map_of_mem (Fields.mem_of_get? hj))
    intro q q' i j hi hj halias
    rw [hjoined] at hi hj
    rcases Fields.get?_insert_cases hi with ⟨rfl, rfl⟩ | hi' <;>
      rcases Fields.get?_insert_cases hj with ⟨rfl, rfl⟩ | hj'
    · rfl
    · exact absurd halias.symm (hfresh hj')
    · exact absurd halias (hfresh hi')
    · exact h.apart hi' hj' halias
  sprung := by
    have hself : t.plan.joined.get? p = some ⟨s.childAlias a, left⟩ := by
      rw [hjoined]
      exact Fields.get?_insert_self _ _ _
    intro j hj
    rw [hjoins] at hj
    rcases List.mem_append.1 hj with hj | hj
    · obtain ⟨parent, hparent⟩ := h.sprung j hj
      exact ⟨parent, hparent.extends hext⟩
    · exact ⟨parent, .path hself hparent hj⟩

theorem joins_foldl_join (js : List Join) (q : QueryPair) :
    (js.foldl QueryPair.join q).source.joins = q.source.joins ++ js := by
  rw [QueryPair.foldl_join]

theorem hopIsLeft_of_parent {optional : Bool} {a : Association} (h : parent.left = true) :
    hopIsLeft mode optional parent a = true := by
  simp [hopIsLeft, h]

theorem Grown.step (h : Grown σ root s) (ho : Orderly s) (hstep : Step σ root path mode s t) :
    Grown σ root t := by
  have hext := hstep.extends
  obtain ⟨x, @⟨parent, behind, segment, ahead, a, target, _, _, hstanding, hpath, hlocated, ha, ht,
    hnew, hjoining⟩⟩ := hstep
  cases hjoining with
  | unkeyed => exact h.extends hext rfl fun j hj => .inl hj
  | refused =>
    refine h.extends hext rfl fun j hj => ?_
    rw [addJoins, joins_foldl_join] at hj
    rcases List.mem_append.1 hj with hj | hj
    · exact .inl hj
    · exact .inr ⟨parent, .link (hstanding.extends hext) hlocated ha hopIsLeft_of_parent hj⟩
  | @joined source destination conditions w hs hd =>
    have hjoins := joins_foldl_join (newJoins parent a target (s.childAlias a)
      (hopIsLeft mode (Path.isOptional segment) parent a) source destination conditions) s.query
    refine h.record ho rfl hext hjoins (.mk hpath (hstanding.extends hext) hlocated ha ht hs hd
      hopIsLeft_of_parent ?_)
    rw [hjoins]
    exact (List.suffix_append _ _).isInfix

theorem Grown.run (h : Grown σ root s) (ho : Orderly s) (hrun : Run σ root mode s t) :
    Grown σ root t := by
  induction hrun with
  | refl => exact h
  | tail hrun hstep ih =>
    obtain ⟨path, hstep⟩ := hstep
    exact ih.step (ho.run hrun) hstep

theorem Grown.start (σ : Schema) (root : Entity) :
    Grown σ root ⟨.ofRoot root, .ofTable root.table (JoinPlan.ofRoot root).rootAlias, none⟩ where
  hangs := nofun
  apart := nofun
  sprung := nofun

theorem Grown.awaiting (h : Grown σ root s) (waiting : Option ScopedPredicate) :
    Grown σ root (s.awaiting waiting) :=
  h.extends (extends_awaiting s waiting) rfl fun _ hj => .inl hj

theorem Reachable.grown (h : Reachable σ root s) : Grown σ root s := by
  induction h with
  | start => exact .start σ root
  | next path mode waiting hu ih =>
    exact (ih.awaiting waiting).run (hu.orderly.awaiting waiting)
      (walked_resolve σ root path mode _).run

section Named

variable (hnamed : σ.Named root)
include hnamed

theorem Hangs.read (h : Hangs σ root s parent p joined js) :
    Path.normalize p = p ∧ p ≠ "" ∧ parent.path = Path.init p := by
  obtain @⟨path, behind, segment, ahead, _, _, _, _, _, _, hpath, -, hlocated, ha⟩ := h
  have hnames := hlocated.crosses.named_concat hnamed ha
  have hsplit : Path.segments path = (behind ++ [segment]) ++ ahead := by simpa using hpath
  have hdots := Path.not_mem_of_segments hsplit
  have hread := Path.segments_along hnames hdots (by simp)
  have hbare : ((behind ++ [segment]).map Path.bare).map Path.bare
      = (behind ++ [segment]).map Path.bare := by
    rw [List.map_map]
    exact List.map_congr_left fun name _ => Path.bare_bare name
  refine ⟨?_, Path.along_ne_empty hnames hdots (by simp), ?_⟩
  · rw [Path.normalize, hread, hbare, Path.along, Path.foldl_under hnames]
  · rw [hlocated.path, Path.init, hread, List.map_append, List.map_singleton, List.dropLast_concat,
      Path.along, Path.foldl_under (hlocated.crosses.named hnamed)]

theorem Grown.get?_empty (h : Grown σ root s) : s.plan.joined.get? "" = none := by
  by_contra hsome
  obtain ⟨joined, hj⟩ := Option.ne_none_iff_exists'.1 hsome
  obtain ⟨parent, js, hparent⟩ := h.hangs hj
  exact (hparent.read hnamed).2.1 rfl

theorem Standing.unique (hs : Grown σ root s) {here there : Position} (h : Standing s here)
    (h' : Standing s there) (hpath : here.path = there.path) :
    here.tableAlias = there.tableAlias ∧ here.left = there.left := by
  have hroot := hs.get?_empty hnamed
  cases h with
  | root ha hp hl =>
    cases h' with
    | root ha' _ hl' => exact ⟨ha.trans ha'.symm, hl.trans hl'.symm⟩
    | joined hj' =>
      rw [← hpath, hp, hroot] at hj'
      cases hj'
  | joined hj =>
    cases h' with
    | root _ hp' =>
      rw [hpath, hp', hroot] at hj
      cases hj
    | joined hj' =>
      rw [hpath, hj', Option.some.injEq, JoinedPath.mk.injEq] at hj
      exact ⟨hj.1.symm, hj.2.symm⟩

end Named

end Planning

end RecordQuery
