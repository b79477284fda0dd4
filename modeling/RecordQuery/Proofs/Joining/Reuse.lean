import RecordQuery.Proofs.Joining.Tree

namespace RecordQuery

open Steps

/-- The same error, with the path quoted as it was written this time. -/
def Error.quoting (path : String) : Error → Error
  | .selectedWholeAssociation _ => .selectedWholeAssociation path
  | e => e

namespace Schema

variable {σ : Schema} {root e : Entity} {path path' : String} {segments segments' : List String}

theorem Crosses.congr (h : σ.Crosses root segments e)
    (hbare : segments'.map Path.bare = segments.map Path.bare) : σ.Crosses root segments' e := by
  induction h generalizing segments' with
  | start =>
    rw [List.map_nil, List.map_eq_nil_iff] at hbare
    rw [hbare]
    exact .start
  | @hop _ segment _ _ _ _ ha ht ih =>
    rw [List.map_append, List.map_singleton] at hbare
    obtain ⟨behind, last, rfl, hbehind, hlast⟩ := List.map_eq_append_iff.1 hbare
    obtain ⟨segment', rfl, hsegment⟩ := List.map_eq_singleton_iff.1 hlast
    rw [← hsegment] at ha
    exact .hop (ih hbehind) ha ht

theorem mapError_map {α β : Type} (x : Except Error α) (f : α → β) (g : Error → Error) :
    (x.map f).mapError g = (x.mapError g).map f := by
  cases x <;> rfl

theorem mapError_bind {α β : Type} (x : Except Error α) (f : α → Except Error β)
    (g : Error → Error) : (x >>= f).mapError g = x.mapError g >>= fun a => (f a).mapError g := by
  cases x <;> rfl

theorem quoting_entity (σ : Schema) (name path : String) :
    (σ.entity name).mapError (Error.quoting path) = σ.entity name := by
  unfold entity
  cases σ.entity? name <;> rfl

theorem quoting_primary (e : Entity) (path : String) :
    e.primary.mapError (Error.quoting path) = e.primary := by
  unfold Entity.primary
  cases e.primary? <;> rfl

theorem quoting_ending (e : Entity) (name path : String) :
    (e.ending name).mapError (Error.quoting path) = e.ending name := by
  unfold Entity.ending Entity.attributeNamed
  split
  · exact quoting_primary e path
  · cases e.attribute? name <;> rfl

theorem follow_quoting {names : List String} (hne : names ≠ []) (toMany : Bool) :
    σ.follow path' names e toMany
      = (σ.follow path names e toMany).mapError (Error.quoting path') := by
  induction names generalizing e toMany with
  | nil => exact absurd rfl hne
  | cons name rest ih =>
    cases ha : e.association? name with
    | none =>
      cases rest with
      | nil => rw [follow_column ha, follow_column ha, mapError_map, quoting_ending]
      | cons next rest =>
        rw [follow_unknown ha, follow_unknown ha]
        rfl
    | some a =>
      rw [follow_association path' rest toMany ha, follow_association path rest toMany ha]
      split
      · rfl
      rw [mapError_bind, quoting_entity]
      congr 1
      funext target
      split
      · rw [mapError_map, quoting_primary]
      · next hrest => exact ih (by simpa using hrest) _

theorem destination_quoting (h : Path.normalize path' = Path.normalize path) :
    σ.destination root path' = (σ.destination root path).mapError (Error.quoting path') := by
  unfold destination
  rw [Path.bare_of_normalize h]
  exact follow_quoting (by simpa using Path.segments_ne_nil path) false

end Schema

namespace Planning

variable {σ : Schema} {root : Entity} {path path' : String} {mode : JoinMode} {s t : Planning}

/-- All associations of a path are joined. -/
def Covers (σ : Schema) (root : Entity) (s : Planning) (path : String) : Prop :=
  ∀ behind ahead e, Path.segments path = behind ++ ahead → behind ≠ [] → σ.Crosses root behind e →
    (s.plan.joined.get? (Path.along behind)).isSome

theorem Covers.extends (h : Covers σ root s path) (hext : Extends s t) : Covers σ root t path := by
  intro behind ahead e hpath hne hcrosses
  obtain ⟨joined, hj⟩ := Option.isSome_iff_exists.1 (h behind ahead e hpath hne hcrosses)
  rw [hext.joined hj]
  rfl

theorem Covers.congr (h : Covers σ root s path)
    (hpath : Path.normalize path' = Path.normalize path) : Covers σ root s path' := by
  intro behind' ahead' e hsplit hne hcrosses
  have hbare := Path.bare_of_normalize hpath
  rw [hsplit, List.map_append] at hbare
  obtain ⟨behind, ahead, hsegments, hbehind, -⟩ := List.map_eq_append_iff.1 hbare.symm
  have hne' : behind ≠ [] := by
    rintro rfl
    exact hne (List.map_eq_nil_iff.1 hbehind.symm)
  have hj := h behind ahead e hsegments hne' (hcrosses.congr hbehind)
  rwa [Path.along, hbehind] at hj

theorem Covers.single {segment : String} (hpath : Path.segments path = [segment])
    (hj : (s.plan.joined.get? (Path.bare segment)).isSome) : Covers σ root s path := by
  intro behind ahead e hsplit hne _
  rw [hpath, eq_comm, List.append_eq_singleton_iff] at hsplit
  obtain ⟨rfl, -⟩ := hsplit.resolve_left fun h => hne h.1
  exact hj

theorem Covers.not_attempt {x : Except Error JoinedPath} (h : Covers σ root s path) :
    ¬ Attempt σ root path mode s x t := by
  rintro @⟨_, behind, segment, ahead, _, _, _, _, -, hpath, hlocated, ha, ht, hnew, -⟩
  have hj := h (behind ++ [segment]) ahead _ (by rw [hpath]; simp) (by simp)
    (.hop hlocated.crosses ha ht)
  rw [hnew] at hj
  cases hj

theorem Covers.trail (h : Covers σ root s path) (htrail : Trail σ root path mode s t) : t = s := by
  cases htrail.cases_head with
  | inl hsame => exact hsame.symm
  | inr hstep =>
    obtain ⟨_, ⟨_, hattempt⟩, -⟩ := hstep
    exact absurd hattempt h.not_attempt

theorem Covers.resolve (h : Covers σ root s path) (mode : JoinMode) :
    (Planning.resolve σ root path mode s).2 = s ∧
    Both (fun r d => ∃ there, Standing s there ∧ there.path = Path.along (d.crossed path) ∧
        r = d.under there.tableAlias)
      (Planning.resolve σ root path mode s).1 (σ.destination root path) := by
  have hwalked := walked_resolve σ root path mode s
  generalize Planning.resolve σ root path mode s = outcome at hwalked ⊢
  generalize σ.destination root path = d at hwalked ⊢
  obtain ⟨x, t⟩ := outcome
  have hsame : t = s := h.trail hwalked.trail
  subst hsame
  refine ⟨rfl, ?_⟩
  cases hwalked with
  | arrived _ hthere hlocated => exact ⟨_, hthere, hlocated.path, rfl⟩
  | astray => exact rfl
  | stuck htrail hattempt =>
    exact absurd hattempt (h.extends (Trail.run htrail).extends).not_attempt

theorem along_crossed (d : Destination) (h : Path.normalize path' = Path.normalize path) :
    Path.along (d.crossed path') = Path.along (d.crossed path) := by
  have hbare := Path.bare_of_normalize h
  unfold Path.along Destination.crossed
  split
  · rw [hbare]
  · rw [List.map_dropLast, List.map_dropLast, hbare]

theorem Covers.again {mode' : JoinMode} (hnamed : σ.Named root) (h : Covers σ root s path)
    (hext : Extends s t) (ht : Grown σ root t)
    (hpath : Path.normalize path' = Path.normalize path) :
    Planning.resolve σ root path' mode' t
      = ((Planning.resolve σ root path mode s).1.mapError (Error.quoting path'), t) := by
  obtain ⟨-, hbefore⟩ := h.resolve mode
  obtain ⟨hsame, hafter⟩ := ((h.extends hext).congr hpath).resolve mode'
  refine Prod.ext ?_ hsame
  rw [Schema.destination_quoting hpath] at hafter
  dsimp only
  generalize (Planning.resolve σ root path mode s).1 = x at hbefore ⊢
  generalize (Planning.resolve σ root path' mode' t).1 = y at hafter ⊢
  -- the schema leads the path to one end, and one alias stands there
  cases hd : σ.destination root path with
  | error e =>
    rw [hd] at hbefore hafter
    rw [hbefore.of_error]
    exact hafter.of_error
  | ok d =>
    rw [hd] at hbefore hafter
    cases x with
    | error e' => exact hbefore.elim
    | ok r =>
      cases y with
      | error e'' => exact hafter.elim
      | ok r' =>
        obtain ⟨there, hthere, hpath₁, rfl⟩ := hbefore
        obtain ⟨there', hthere', hpath₂, rfl⟩ := hafter
        have halias := (hthere'.unique hnamed ht (hthere.extends hext)
          (by rw [hpath₁, hpath₂, along_crossed d hpath])).1
        rw [halias]
        rfl

abbrev Later (σ : Schema) (root : Entity) : Planning → Planning → Prop :=
  Relation.ReflTransGen fun s t =>
    ∃ path mode waiting, t = (Planning.resolve σ root path mode (s.awaiting waiting)).2

theorem Later.extends (h : Later σ root s t) : Extends s t := by
  induction h with
  | refl => exact .refl s
  | tail _ hnext ih =>
    obtain ⟨path, mode, waiting, rfl⟩ := hnext
    exact (ih.trans (extends_awaiting _ waiting)).trans
      (walked_resolve σ root path mode _).run.extends

theorem Reachable.later (h : Reachable σ root s) (hlater : Later σ root s t) :
    Reachable σ root t := by
  induction hlater with
  | refl => exact h
  | tail _ hnext ih =>
    obtain ⟨path, mode, waiting, rfl⟩ := hnext
    exact ih.next path mode waiting

end Planning

open Planning in
/-- However paths were resolved, a joined path is written without markers, its parent is the root
or joined, one join of the query has its alias, and its joins hang on those of the parent; another
path has another alias, and every other join is that of a link. What is joined stays joined. If all
associations of a path are joined, it has one outcome from then on, in any mode and with any
markers, but for the path that an error quotes as it was written, and nothing changes. -/
theorem joined_once (σ : Schema) (root : Entity) (hnamed : σ.Named root) (s : Planning)
    (h : Reachable σ root s) :
    (∀ p joined, s.plan.joined.get? p = some joined →
      Path.normalize p = p ∧
      (Path.init p = "" ∨ (s.plan.joined.get? (Path.init p)).isSome) ∧
      (s.query.source.joins.map Join.tableAlias).count joined.tableAlias = 1 ∧
      ∃ parent js, parent.path = Path.init p ∧ Hangs σ root s parent p joined js) ∧
    (∀ p q i j, s.plan.joined.get? p = some i → s.plan.joined.get? q = some j →
      i.tableAlias = j.tableAlias → p = q) ∧
    (∀ j ∈ s.query.source.joins, ∃ parent, Sprung σ root s parent j) ∧
    (∀ t, Later σ root s t → ∀ p joined, s.plan.joined.get? p = some joined →
      t.plan.joined.get? p = some joined) ∧
    ∀ path, Covers σ root s path → ∃ x : Except Error Resolved, ∀ t, Later σ root s t →
      ∀ path', Path.normalize path' = Path.normalize path → ∀ mode waiting,
        resolve σ root path' mode (t.awaiting waiting)
          = (x.mapError (Error.quoting path'), t.awaiting waiting) := by
  refine ⟨?_, fun p q i j => h.grown.apart, h.grown.sprung, ?_, ?_⟩
  · intro p joined hj
    obtain ⟨parent, js, hparent⟩ := h.grown.hangs hj
    obtain ⟨hnormal, -, hinit⟩ := hparent.read hnamed
    have hclosed := hparent.standing.closed
    rw [hinit] at hclosed
    have hdistinct := (List.nodup_cons.1 h.orderly.distinct).2
    exact ⟨hnormal, hclosed, List.count_eq_one_of_mem hdistinct hparent.alias_mem, parent, js,
      hinit, hparent⟩
  · intro t hlater p joined hj
    exact hlater.extends.joined hj
  · intro path hcovers
    refine ⟨(resolve σ root path .left s).1, ?_⟩
    intro t hlater path' hpath mode waiting
    exact hcovers.again hnamed (hlater.extends.trans (extends_awaiting t waiting))
      ((h.later hlater).grown.awaiting waiting) hpath

open Planning in
theorem joined_once_shelf :
    Shelf.schema.Named Shelf.book ∧ ∃ s, Reachable Shelf.schema Shelf.book s ∧
      s.plan.joined.map (fun entry => (entry.1, entry.2.tableAlias))
        = [("Authors", "authors_2"), ("editor", "editor_3")] ∧
      (s.query.source.joins.map Join.tableAlias).count "authors_2" = 1 ∧
      Covers Shelf.schema Shelf.book s "Authors" ∧ ∃ x : Except Error Resolved,
        resolve Shelf.schema Shelf.book "Authors" .left (s.awaiting none)
          = (x.mapError (Error.quoting "Authors"), s.awaiting none) ∧
        resolve Shelf.schema Shelf.book "Authors?" .forceInner (s.awaiting none)
          = (x.mapError (Error.quoting "Authors?"), s.awaiting none) := by
  have hnamed : Shelf.schema.Named Shelf.book := by
    unfold Schema.Named
    decide
  obtain ⟨s, hs, hpairs, hentry⟩ : ∃ s, Reachable Shelf.schema Shelf.book s ∧
      s.plan.joined.map (fun entry => (entry.1, entry.2.tableAlias))
        = [("Authors", "authors_2"), ("editor", "editor_3")] ∧
      s.plan.joined.get? "Authors" = some ⟨"authors_2", true⟩ :=
    ⟨_, (Reachable.start.next "Authors.name" .left none).next "editor.name" .inner none,
      by decide +kernel, by decide +kernel⟩
  have hjoined : (s.plan.joined.get? (Path.bare "Authors")).isSome := by
    have hbare : Path.bare "Authors" = "Authors" := by decide +kernel
    rw [hbare, hentry]
    rfl
  have hcovers : Covers Shelf.schema Shelf.book s "Authors" :=
    .single (by decide +kernel) hjoined
  have htree := joined_once Shelf.schema Shelf.book hnamed s hs
  obtain ⟨x, hx⟩ := htree.2.2.2.2 "Authors" hcovers
  exact ⟨hnamed, s, hs, hpairs, (htree.1 _ _ hentry).2.2.1, hcovers, x,
    hx s .refl "Authors" rfl .left none, hx s .refl "Authors?" (by decide +kernel) .forceInner none⟩

open Planning in
/-- An error quotes the path as it was written: with a marker the message is another one, though
the association is joined. -/
theorem marked_path_quoted : ∃ s, Reachable Shelf.schema Shelf.book s ∧
    Covers Shelf.schema Shelf.book s "editor" ∧ Path.normalize "editor?" = Path.normalize "editor" ∧
    (resolve Shelf.schema Shelf.book "editor?" .left s).1
      ≠ (resolve Shelf.schema Shelf.book "editor" .left s).1 := by
  obtain ⟨s, hs, hjoined⟩ : ∃ s, Reachable Shelf.schema Shelf.book s ∧
      (s.plan.joined.get? (Path.bare "editor")).isSome :=
    ⟨_, Reachable.start.next "editor.name" .left none, by decide +kernel⟩
  have hcovers : Covers Shelf.schema Shelf.book s "editor" := .single (by decide +kernel) hjoined
  have hnormal : Path.normalize "editor?" = Path.normalize "editor" := by decide +kernel
  refine ⟨s, hs, hcovers, hnormal, ?_⟩
  have hquoted : ∀ path, Path.normalize path = Path.normalize "editor" →
      Shelf.schema.destination Shelf.book path = .error (.selectedWholeAssociation path) →
      (resolve Shelf.schema Shelf.book path .left s).1
        = .error (.selectedWholeAssociation path) := by
    intro path hpath hd
    obtain ⟨-, hresolved⟩ := (hcovers.congr hpath).resolve .left
    rw [hd] at hresolved
    exact hresolved.of_error
  rw [hquoted "editor?" hnormal (by rfl), hquoted "editor" rfl (by rfl)]
  simp

end RecordQuery
