import RecordQuery.Proofs.Joining.Linked
import RecordQuery.Proofs.Storage.Tables

namespace RecordQuery

open Steps

def Join.origin (j : Join) : String × String := (j.tableAlias, j.table)

def Source.origins (s : Source) : List (String × String) :=
  (s.tableAlias, s.table) :: s.joins.map Join.origin

inductive Refers (S : String → String → Prop) (origins : List (String × String)) : String → Prop
  | mk {tableAlias table column : String} : (tableAlias, table) ∈ origins → S table column →
    Refers S origins (qualified tableAlias column)

section

variable {σ : Schema} {S S' : String → String → Prop} {origins more : List (String × String)}
  {x : String}

theorem Refers.mono (hsub : origins ⊆ more) (h : Refers S origins x) : Refers S more x := by
  cases h with
  | mk ha hx => exact .mk (hsub ha) hx

theorem Refers.imp (hS : ∀ table column, S table column → S' table column)
    (h : Refers S origins x) : Refers S' origins x := by
  cases h with
  | mk ha hx => exact .mk ha (hS _ _ hx)

theorem Schema.leaf_of_follow {path : String} {names : List String} {e : Entity} {toMany : Bool}
    {d : Destination} (h : σ.follow path names e toMany = .ok d) :
    d.leaf ∈ d.entity.attributes := by
  induction names generalizing e toMany with
  | nil => cases h
  | cons name rest ih =>
    cases ha : e.association? name with
    | none =>
      cases rest with
      | nil =>
        rw [follow_column ha] at h
        obtain ⟨leaf, hleaf, rfl⟩ := except_map_ok h
        exact Entity.mem_of_ending hleaf
      | cons next rest =>
        rw [follow_unknown ha] at h
        cases h
    | some a =>
      rw [follow_association path rest toMany ha] at h
      split at h
      · cases h
      obtain ⟨target, -, h⟩ := except_bind_ok h
      split at h
      · obtain ⟨key, hkey, rfl⟩ := except_map_ok h
        exact Entity.mem_of_primary hkey
      · exact ih h

end

namespace Planning

variable {σ : Schema} {root e : Entity} {path child segment : String} {mode : JoinMode}
  {s t : Planning} {parent here : Position} {a : Association} {target : Entity} {left : Bool}
  {type : JoinType} {source destination : Attribute} {conditions : List Condition}
  {origins : List (String × String)} {w w' : Option ScopedPredicate} {q : Source}
  {segments : List String} {js : List Join}

section Joins

variable (hparent : (parent.tableAlias, parent.entity.table) ∈ origins)
  (he : parent.entity ∈ σ.entities) (ha : a ∈ parent.entity.associations)
  (hsource : parent.entity.key a.sourceKey = .ok source)
include hparent he ha hsource

theorem refers_linkJoins
    (hlink : (linkJoins parent a child type source).map Join.origin ⊆ origins) :
    ∀ j ∈ linkJoins parent a child type source, j.on.Over (Refers σ.Stored origins) := by
  unfold linkJoins at hlink ⊢
  cases hr : a.relation with
  | manyToMany l =>
    rw [hr] at hlink
    have hl : l ∈ σ.links := Schema.mem_links.2 ⟨parent.entity, he, a, ha, hr⟩
    intro j hj
    rw [List.mem_singleton.1 hj]
    refine .columnsEq (.mk hparent (.own he (Entity.mem_of_key hsource))) ?_
    exact .mk (hlink List.mem_cons_self) (.linkSource hl)
  | _ => simp

theorem refers_tie (hlink : (linkJoins parent a child type source).map Join.origin ⊆ origins)
    (hchild : (child, target.table) ∈ origins) (ht : σ.entity a.target = .ok target)
    (hdestination : target.key a.targetKey = .ok destination) :
    (tie parent a child source destination).Over (Refers σ.Stored origins) := by
  have htarget : Refers σ.Stored origins (qualified child destination.column) :=
    .mk hchild (.own (Schema.mem_of_entity ht) (Entity.mem_of_key hdestination))
  have hown : Refers σ.Stored origins (qualified parent.tableAlias source.column) :=
    .mk hparent (.own he (Entity.mem_of_key hsource))
  unfold tie
  unfold linkJoins at hlink
  cases hr : a.relation with
  | belongsTo => exact .columnsEq (.mk hparent (.foreign he ha (.source hr))) htarget
  | hasOne => exact .columnsEq hown (.mk hchild (.foreign he ha (.target (.inl hr) ht)))
  | hasMany => exact .columnsEq hown (.mk hchild (.foreign he ha (.target (.inr hr) ht)))
  | manyToMany l =>
    rw [hr] at hlink
    have hl : l ∈ σ.links := Schema.mem_links.2 ⟨parent.entity, he, a, ha, hr⟩
    exact .columnsEq (.mk (hlink List.mem_cons_self) (.linkTarget hl)) htarget

theorem refers_newJoins
    (hnew : (newJoins parent a target child left source destination conditions).map Join.origin
      ⊆ origins)
    (ht : σ.entity a.target = .ok target) (hdestination : target.key a.targetKey = .ok destination)
    (hw : Taken path target child w conditions w') :
    ∀ j ∈ newJoins parent a target child left source destination conditions,
      j.on.Over (Refers σ.Stored origins) := by
  unfold newJoins at hnew ⊢
  rw [List.map_append] at hnew
  obtain ⟨hlink, hown⟩ := List.append_subset.1 hnew
  have hchild : (child, target.table) ∈ origins := hown List.mem_cons_self
  have htarget := Schema.mem_of_entity ht
  intro j hj
  rcases List.mem_append.1 hj with hj | hj
  · exact refers_linkJoins hparent he ha hsource hlink j hj
  · rw [List.mem_singleton.1 hj]
    apply Condition.over_combine
    intro c hc
    rcases List.mem_append.1 hc with hc | hc
    · rcases List.mem_cons.1 hc with rfl | hc
      · exact refers_tie hparent he ha hsource hlink hchild ht hdestination
      · exact over_notDeleted (fun _ hd => .mk hchild (.deleted htarget hd)) c hc
    · refine over_taken (fun _ leaf hleaf => ?_) hw c hc
      exact .mk hchild (.own htarget (Entity.mem_of_ending hleaf))

end Joins

theorem Linked.origin (h : Linked σ root q segments e child js) : (child, e.table) ∈ q.origins := by
  cases h with
  | root hroot =>
    rw [← hroot]
    exact List.mem_cons_self
  | hop _ _ _ _ _ hnew =>
    have hmem := hnew.subset (List.mem_append_right _ List.mem_cons_self)
    exact List.mem_cons_of_mem _ (List.mem_map_of_mem (f := Join.origin) hmem)

theorem Standing.origin (hnamed : σ.Named root) (hs : Grown σ root s) (hrooted : Rooted root s)
    (hlocated : Located σ root segments here) (hdots : ∀ name ∈ segments, '.' ∉ name.toList)
    (hhere : Standing s here) :
    (here.tableAlias, here.entity.table) ∈ s.query.source.origins := by
  obtain ⟨_, hlinked, -⟩ :=
    hhere.linked hnamed hs hrooted hlocated.crosses hdots hlocated.path
  exact hlinked.origin

theorem origins_foldl_join (js : List Join) (q : QueryPair) :
    (js.foldl QueryPair.join q).source.origins = q.source.origins ++ js.map Join.origin := by
  simp [QueryPair.foldl_join, Source.origins]

theorem Run.origins_subset (h : Run σ root mode s t) :
    s.query.source.origins ⊆ t.query.source.origins := by
  obtain ⟨js, hquery⟩ := h.query
  rw [hquery]
  simp [Source.origins]

/-- A plan from a root whose joins speak of columns that are stored behind its aliases. -/
structure Traced (σ : Schema) (root : Entity) (s : Planning) : Prop where
  orderly : Orderly s
  grown : Grown σ root s
  rooted : Rooted root s
  joins : ∀ j ∈ s.query.source.joins, j.on.Over (Refers σ.Stored s.query.source.origins)

theorem Traced.start (σ : Schema) (root : Entity) :
    Traced σ root ⟨.ofRoot root, .ofTable root.table (JoinPlan.ofRoot root).rootAlias, none⟩ where
  orderly := (Reachable.start : Reachable σ root _).orderly
  grown := .start σ root
  rooted := ⟨rfl, rfl⟩
  joins := nofun

theorem Traced.awaiting (h : Traced σ root s) (waiting : Option ScopedPredicate) :
    Traced σ root (s.awaiting waiting) :=
  ⟨h.orderly.awaiting waiting, h.grown.awaiting waiting, ⟨h.rooted.table, h.rooted.tableAlias⟩,
    h.joins⟩

theorem over_foldl_join {u : QueryPair}
    (h : ∀ j ∈ u.source.joins, j.on.Over (Refers σ.Stored u.source.origins))
    (hjs : ∀ j ∈ js, j.on.Over (Refers σ.Stored (u.source.origins ++ js.map Join.origin))) :
    ∀ j ∈ (js.foldl QueryPair.join u).source.joins,
      j.on.Over (Refers σ.Stored (js.foldl QueryPair.join u).source.origins) := by
  intro j hj
  rw [origins_foldl_join]
  rw [joins_foldl_join] at hj
  rcases List.mem_append.1 hj with hj | hj
  · exact (h j hj).mono fun _ => .mono (List.subset_append_left _ _)
  · exact hjs j hj

section Registered

variable (hroot : root ∈ σ.entities) (hnamed : σ.Named root)
include hroot hnamed

theorem Traced.step (h : Traced σ root s) (hstep : Step σ root path mode s t) :
    Traced σ root t := by
  refine ⟨h.orderly.step hstep, h.grown.step h.orderly hstep,
    Run.rooted h.rooted (.single ⟨path, hstep⟩), ?_⟩
  obtain ⟨_, @⟨parent, behind, segment, ahead, a, target, _, _, hstanding, hpath, hlocated, ha, ht,
    -, hjoining⟩⟩ := hstep
  have hregistered := List.cons_subset.2 ⟨hroot, List.Subset.refl _⟩ hlocated.crosses.mem
  have hmem := List.mem_of_find?_eq_some ha
  have hparent := hstanding.origin hnamed h.grown h.rooted hlocated (Path.not_mem_of_segments hpath)
  cases hjoining with
  | unkeyed => exact h.joins
  | refused hsource =>
    refine over_foldl_join h.joins ?_
    exact refers_linkJoins (List.mem_append_left _ hparent) hregistered hmem hsource
      (List.subset_append_right _ _)
  | joined hsource hdestination hw =>
    refine over_foldl_join h.joins ?_
    exact refers_newJoins (List.mem_append_left _ hparent) hregistered hmem hsource
      (List.subset_append_right _ _) ht hdestination hw

theorem Traced.run (h : Traced σ root s) (hrun : Run σ root mode s t) : Traced σ root t := by
  induction hrun with
  | refl => exact h
  | tail _ hstep ih =>
    obtain ⟨path, hstep⟩ := hstep
    exact ih.step hroot hnamed hstep

theorem Traced.walked (h : Traced σ root s) {x : Except Error Resolved}
    (hwalked : Walked σ root path mode s (σ.destination root path) x t) :
    Traced σ root t ∧ s.query.source.origins ⊆ t.query.source.origins ∧
      ∀ r, x = .ok r → Refers σ.Stored t.query.source.origins r.column := by
  have htraced := h.run hroot hnamed hwalked.run
  refine ⟨htraced, Run.origins_subset hwalked.run, ?_⟩
  rintro r rfl
  generalize hd : σ.destination root path = d at hwalked
  cases hwalked with
  | @arrived d _ there _ hthere hlocated hentity =>
    have horigin := hthere.origin hnamed htraced.grown htraced.rooted hlocated
      (d.not_mem_crossed path)
    have hregistered := List.cons_subset.2 ⟨hroot, List.Subset.refl _⟩ hlocated.crosses.mem
    rw [hentity] at horigin hregistered
    exact .mk horigin (.own hregistered (Schema.leaf_of_follow hd))

theorem Reachable.traced (h : Reachable σ root s) : Traced σ root s := by
  induction h with
  | start => exact .start σ root
  | next path mode waiting _ ih =>
    exact ((ih.awaiting waiting).walked hroot hnamed (walked_resolve σ root path mode _)).1

end Registered

end Planning

end RecordQuery
