import RecordQuery.Proofs.Joining.Outer
import RecordQuery.Proofs.Joining.Reuse

namespace RecordQuery

open Steps

namespace Planning

inductive Linked (σ : Schema) (root : Entity) (q : Source) :
    List String → Entity → String → List Join → Prop
  | root : q.table = root.table → Linked σ root q [] root q.tableAlias []
  | hop {segments segment a target child left source destination conditions js}
    {parent : Position} : Linked σ root q segments parent.entity parent.tableAlias js →
    parent.entity.association? (Path.bare segment) = some a → σ.entity a.target = .ok target →
    parent.entity.key a.sourceKey = .ok source → target.key a.targetKey = .ok destination →
    newJoins parent a target child left source destination conditions <:+: q.joins →
    Linked σ root q (segments ++ [segment]) target child
      (js ++ newJoins parent a target child left source destination conditions)

variable {σ : Schema} {root e : Entity} {q q' : Source} {segments : List String}
  {tableAlias : String} {js : List Join} {path segment : String} {mode : JoinMode}
  {s t : Planning} {here : Position}

theorem Linked.subset (h : Linked σ root q segments e tableAlias js) : js ⊆ q.joins := by
  induction h with
  | root => exact List.nil_subset _
  | hop _ _ _ _ _ hjoins ih => exact List.append_subset.2 ⟨ih, hjoins.subset⟩

theorem Linked.joins_ne_nil (h : Linked σ root q (segment :: segments) e tableAlias js) :
    js ≠ [] := by
  generalize hall : segment :: segments = all at h
  cases h with
  | root => cases hall
  | hop => simp [newJoins]

theorem Linked.mono (h : Linked σ root q segments e tableAlias js) (htable : q'.table = q.table)
    (halias : q'.tableAlias = q.tableAlias) (hjoins : q.joins <+: q'.joins) :
    Linked σ root q' segments e tableAlias js := by
  induction h with
  | root hroot =>
    rw [← halias]
    exact .root (htable.trans hroot)
  | hop _ ha ht hs hd hnew ih => exact .hop ih ha ht hs hd (hnew.trans hjoins.isInfix)

structure Rooted (root : Entity) (s : Planning) : Prop where
  table : s.query.source.table = root.table
  tableAlias : s.query.source.tableAlias = s.plan.rootAlias

theorem Run.rooted (h : Rooted root s) (hrun : Run σ root mode s t) : Rooted root t := by
  obtain ⟨js, hquery⟩ := hrun.query
  constructor
  · rw [hquery]
    exact h.table
  · rw [hquery, hrun.extends.rootAlias]
    exact h.tableAlias

theorem Linked.extends (h : Linked σ root s.query.source segments e tableAlias js)
    (hext : Extends s t) (hs : Rooted root s) (ht : Rooted root t) :
    Linked σ root t.query.source segments e tableAlias js :=
  h.mono (ht.table.trans hs.table.symm)
    (ht.tableAlias.trans (hext.rootAlias.trans hs.tableAlias.symm)) hext.joins

structure Tied (σ : Schema) (root : Entity) (s : Planning) (segments : List String)
    (segment : String) (here : Position) (e : Entity) (parent : Position) (a : Association)
    (js : List Join) : Prop where
  standing : Standing s parent
  path : parent.path = Path.along segments
  crosses : σ.Crosses root segments parent.entity
  association : parent.entity.association? (Path.bare segment) = some a
  target : σ.entity a.target = .ok e
  joins : ∃ source destination conditions, parent.entity.key a.sourceKey = .ok source ∧
    e.key a.targetKey = .ok destination ∧
    js = newJoins parent a e here.tableAlias here.left source destination conditions
  placed : js <:+: s.query.source.joins
  left : parent.left = true → here.left = true

variable (hnamed : σ.Named root)
include hnamed

theorem Standing.tied (hs : Grown σ root s) (hcrosses : σ.Crosses root (segments ++ [segment]) e)
    (hdots : ∀ name ∈ segments ++ [segment], '.' ∉ name.toList) (hhere : Standing s here)
    (hpath : here.path = Path.along (segments ++ [segment])) :
    ∃ parent a js, Tied σ root s segments segment here e parent a js := by
  have hnames := hcrosses.named hnamed
  cases hhere with
  | root _ hempty _ =>
    exact absurd (hpath.symm.trans hempty) (Path.along_ne_empty hnames hdots (by simp))
  | joined hj =>
    obtain ⟨parent, js, hparent⟩ := hs.hangs hj
    generalize here.path = p at hpath hparent
    generalize hjoined : JoinedPath.mk here.tableAlias here.left = joined at hparent
    obtain @⟨path, behind, segment', ahead, a, target, _, source, destination, conditions, hread,
      hstanding, hlocated, ha, ht, hsource, hdestination, hleft, hjoins⟩ := hparent
    subst hjoined
    have hsplit : Path.segments path = (behind ++ [segment']) ++ ahead := by simpa using hread
    have hbare := Path.bare_of_along (hlocated.crosses.named_concat hnamed ha) hnames
      (Path.not_mem_of_segments hsplit) hdots hpath
    rw [List.map_append, List.map_append] at hbare
    obtain ⟨hbehind, hlast⟩ := List.append_inj' hbare rfl
    have hsegment : Path.bare segment' = Path.bare segment := by simpa using hlast
    rw [hsegment] at ha
    have hbefore : σ.Crosses root segments parent.entity := hlocated.crosses.congr hbehind.symm
    cases (hbefore.hop ha ht).unique hcrosses
    refine ⟨parent, a, _, hstanding, ?_, hbefore, ha, ht, ⟨source, destination, conditions,
      hsource, hdestination, rfl⟩, hjoins, hleft⟩
    rw [hlocated.path, Path.along, Path.along, hbehind]

theorem Standing.linked (hs : Grown σ root s) (hrooted : Rooted root s)
    (hcrosses : σ.Crosses root segments e) (hdots : ∀ name ∈ segments, '.' ∉ name.toList)
    (hhere : Standing s here) (hpath : here.path = Path.along segments) :
    ∃ js, Linked σ root s.query.source segments e here.tableAlias js ∧
      (here.left = false → ∀ j ∈ js, j.type = .inner) := by
  -- on the segments from the last, since a position knows its parent
  induction segments using List.reverseRecOn generalizing here e with
  | nil =>
    have hroot : e = root := hcrosses.unique .start
    subst hroot
    refine ⟨[], ?_, by simp⟩
    cases hhere with
    | root halias =>
      rw [halias, ← hrooted.tableAlias]
      exact .root hrooted.table
    | joined hj =>
      have hempty : here.path = "" := hpath
      rw [hempty, hs.get?_empty hnamed] at hj
      cases hj
  | append_singleton segments segment ih =>
    obtain ⟨parent, a, js, htied⟩ := hhere.tied hnamed hs hcrosses hdots hpath
    obtain ⟨before, hlinked, hinner⟩ := ih htied.crosses
      (fun name hname => hdots name (List.mem_append_left _ hname)) htied.standing htied.path
    obtain ⟨source, destination, conditions, hsource, hdestination, rfl⟩ := htied.joins
    refine ⟨_, .hop hlinked htied.association htied.target hsource hdestination htied.placed, ?_⟩
    intro hleft j hj
    rcases List.mem_append.1 hj with hj | hj
    · refine hinner ?_ j hj
      by_contra hparent
      rw [htied.left (by simpa using hparent)] at hleft
      cases hleft
    · rw [type_newJoins hj, hleft]
      rfl

theorem Standing.behind (hs : Grown σ root s) {more : List String}
    (hcrosses : σ.Crosses root (segments ++ more) e)
    (hdots : ∀ name ∈ segments ++ more, '.' ∉ name.toList) (hhere : Standing s here)
    (hpath : here.path = Path.along (segments ++ more)) :
    ∃ there, Standing s there ∧ there.path = Path.along segments := by
  induction more using List.reverseRecOn generalizing here e with
  | nil =>
    rw [List.append_nil] at hpath
    exact ⟨here, hhere, hpath⟩
  | append_singleton more segment ih =>
    rw [← List.append_assoc] at hcrosses hdots hpath
    obtain ⟨parent, a, js, htied⟩ := hhere.tied hnamed hs hcrosses hdots hpath
    exact ih htied.crosses (fun name hname => hdots name (List.mem_append_left _ hname))
      htied.standing htied.path

end Planning

namespace Schema

/-- No marker stands on the way, and no association to one row that may be missing. -/
def Firm (σ : Schema) (root : Entity) (segments : List String) : Prop :=
  ∀ behind segment ahead e a, segments = behind ++ segment :: ahead → σ.Crosses root behind e →
    e.association? (Path.bare segment) = some a →
    Path.isOptional segment = false ∧ a.relation ≠ .hasOne

variable {σ : Schema} {root : Entity} {segments more : List String}

theorem Firm.of_append (h : σ.Firm root (segments ++ more)) : σ.Firm root segments := by
  intro behind segment ahead e a hsplit
  exact h behind segment (ahead ++ more) e a (by simp [hsplit])

end Schema

namespace Planning

variable {σ : Schema} {root e : Entity} {path : String} {s t : Planning} {here : Position}

theorem Trail.firm (hnamed : σ.Named root) (htrail : Trail σ root path .forceInner s t)
    (hs : s.plan.joined = []) (ht : Grown σ root t) {segments ahead : List String}
    (hpath : Path.segments path = segments ++ ahead) (hcrosses : σ.Crosses root segments e)
    (hfirm : σ.Firm root segments) (hhere : Standing t here)
    (hlocated : here.path = Path.along segments) : here.left = false := by
  -- on the segments from the last: a LEFT join would be so for its parent or for itself
  induction segments using List.reverseRecOn generalizing here e ahead with
  | nil =>
    cases hhere with
    | root _ _ hleft => exact hleft
    | joined hj =>
      have hempty : here.path = "" := hlocated
      rw [hempty, ht.get?_empty hnamed] at hj
      cases hj
  | append_singleton segments segment ih =>
    have hdots := Path.not_mem_of_segments hpath
    obtain ⟨parent, a, js, htied⟩ := hhere.tied hnamed ht hcrosses hdots hlocated
    rw [List.append_assoc, List.singleton_append] at hpath
    have hnew : s.plan.joined.get? (Path.along (segments ++ [segment])) = none := by
      rw [hs]
      rfl
    cases hhere with
    | root _ _ hleft => exact hleft
    | joined hj =>
      rw [hlocated] at hj
      obtain ⟨parent', hstanding, hparent, hiff⟩ :=
        htrail.left_iff hnamed hpath htied.crosses htied.association hnew hj
      have hbefore := ih hpath htied.crosses hfirm.of_append hstanding hparent
      obtain ⟨hmarker, hone⟩ :=
        hfirm segments segment [] parent.entity a rfl htied.crosses htied.association
      by_contra hleft
      rcases hiff.1 (by simpa using hleft) with h | h | h | h | ⟨-, h⟩
      · rw [hbefore] at h
        cases h
      · cases h
      · rw [hmarker] at h
        cases h
      · exact hone h
      · cases h

end Planning

end RecordQuery
