import RecordQuery.Proofs.Evolution

namespace RecordQuery

open Steps

namespace Condition

def conjuncts : Condition → List Condition
  | .group .and conditions => conditions
  | c => [c]

theorem conjuncts_andAlso (c d : Condition) : (c.andAlso d).conjuncts = c.conjuncts ++ [d] := by
  cases c with
  | group op conditions => cases op <;> rfl
  | _ => rfl

end Condition

namespace Source

def conjuncts (s : Source) : List Condition :=
  match s.filter with
  | some c => c.conjuncts
  | none => []

variable {s : Source} {c : Condition}

theorem conjuncts_addFilter (s : Source) (c : Condition) :
    (s.addFilter c).conjuncts
      = s.conjuncts ++ if s.filter.isSome then [c] else c.conjuncts := by
  unfold conjuncts addFilter conjoin
  cases s.filter with
  | none => rfl
  | some existing => exact Condition.conjuncts_andAlso existing c

theorem conjuncts_subset (s : Source) (c : Condition) :
    s.conjuncts ⊆ (s.addFilter c).conjuncts := by
  rw [conjuncts_addFilter]
  exact List.subset_append_left _ _

theorem mem_conjuncts_addFilter (s : Source) (h : c.conjuncts = [c]) :
    c ∈ (s.addFilter c).conjuncts := by
  rw [conjuncts_addFilter, h, ite_self]
  exact List.mem_append_right _ List.mem_cons_self

end Source

namespace Planning

theorem notDeleted_of_softDelete {e : Entity} {column : String} (h : e.softDelete = some column)
    (tableAlias : String) : notDeleted e tableAlias = [.isNull (qualified tableAlias column)] := by
  unfold notDeleted
  rw [h]

theorem Hangs.notDeleted {σ : Schema} {root : Entity} {s : Planning} {parent : Position}
    {p : String} {joined : JoinedPath} {js : List Join} (h : Hangs σ root s parent p joined js) :
    ∃ segments target, p = Path.along segments ∧ σ.Crosses root segments target ∧
      ∃ k ∈ s.query.source.joins, k.tableAlias = joined.tableAlias ∧ k.table = target.table ∧
        ∀ column, target.softDelete = some column →
          .isNull (qualified k.tableAlias column) ∈ k.on.conjuncts := by
  cases h with
  | @mk _ behind segment _ a target _ _ _ _ _ _ hlocated ha ht _ _ _ hjoins =>
    refine ⟨behind ++ [segment], target, rfl, hlocated.crosses.hop ha ht, _,
      hjoins.subset (List.mem_append_right _ List.mem_cons_self), rfl, rfl, ?_⟩
    intro column hdeleted
    dsimp only
    rw [notDeleted_of_softDelete hdeleted]
    exact List.mem_cons_of_mem _ List.mem_cons_self

end Planning

namespace Compilation

variable {s : Setting} {M : JoinMode → Prop} {path : String} {mode : JoinMode}
  {c c' : Compilation} {r : Resolved}

theorem Evolves.conjuncts (h : Evolves s M c c') :
    c.query.source.conjuncts ⊆ c'.query.source.conjuncts := by
  cases h with
  | join _ hrun =>
    obtain ⟨js, hquery⟩ := hrun.query
    simp only [planned, hquery]
    exact List.Subset.refl _
  | filter d => exact c.query.source.conjuncts_subset d
  | sibling => exact List.Subset.refl _
  | aside haside =>
    unfold Source.conjuncts
    rw [haside.filter]
    exact List.Subset.refl _

theorem Evolved.conjuncts (h : Evolved s M c c') :
    c.query.source.conjuncts ⊆ c'.query.source.conjuncts := by
  induction h with
  | refl => exact List.Subset.refl _
  | tail _ hstep ih => exact List.Subset.trans ih hstep.conjuncts

theorem resolve_reached (h : resolve s path mode c = (.ok r, c')) :
    ∃ d there, s.schema.destination s.root path = .ok d ∧
      Planning.Standing (c'.planning none) there ∧ there.path = Path.along (d.crossed path) ∧
      r = d.under there.tableAlias := by
  obtain ⟨x, t, hwalked, heq⟩ := resolve_walked s path mode c
  rw [heq] at h
  cases h
  generalize s.schema.destination s.root path = d at hwalked ⊢
  cases hwalked with
  | @arrived d _ there _ hthere hlocated =>
    have hext : Planning.Extends t ((c.planned t).planning none) :=
      ⟨rfl, id, List.prefix_rfl⟩
    exact ⟨d, there, rfl, hthere.extends hext, hlocated.path, rfl⟩

/-- Deleted rows of the root and of every joined association are left out. -/
structure Guarded (s : Setting) (c : Compilation) : Prop where
  root : ∀ column, s.root.softDelete = some column →
    ∀ q ∈ [c.query.rows, c.query.counted],
      .isNull (qualified c.plan.rootAlias column) ∈ q.source.conjuncts
  joined : ∀ p joined, c.plan.joined.get? p = some joined →
    ∃ segments target, p = Path.along segments ∧ s.schema.Crosses s.root segments target ∧
      ∃ k ∈ c.query.source.joins, k.tableAlias = joined.tableAlias ∧ k.table = target.table ∧
        ∀ column, target.softDelete = some column →
          .isNull (qualified k.tableAlias column) ∈ k.on.conjuncts

theorem mem_statements {q : QueryPair} {d : Condition} (h : d ∈ q.source.conjuncts) :
    ∀ statement ∈ [q.rows, q.counted], d ∈ statement.source.conjuncts := by
  intro statement hmem
  rcases List.mem_cons.1 hmem with rfl | hmem
  · exact h
  · rw [List.mem_singleton.1 hmem]
    exact h

theorem guarded_of_evolved {pool : Pool} {uses : Nat} (h : Evolved s M (start s pool uses) c) :
    Guarded s c where
  root := by
    intro column hdeleted
    have hstart : .isNull (qualified (start s pool uses).plan.rootAlias column)
        ∈ (start s pool uses).query.source.conjuncts := by
      simp only [start, Planning.notDeleted_of_softDelete hdeleted]
      exact List.mem_cons_self
    have hmem := h.conjuncts hstart
    have hroot : c.plan.rootAlias = (start s pool uses).plan.rootAlias := h.extends.rootAlias
    rw [hroot]
    exact mem_statements hmem
  joined := by
    intro p joined hj
    obtain ⟨parent, js, hparent⟩ := (h.planted (planted_start s pool uses)).grown.hangs hj
    exact hparent.notDeleted

/-- The rows are those of one parent. -/
def OfParent (s : Setting) (task : NestedTask) (parentId : Value) (c : Compilation) : Prop :=
  ∃ d there, s.schema.destination s.root (Path.under task.parent Path.idSegment) = .ok d ∧
    Planning.Standing (c.planning none) there ∧
    there.path = Path.along (d.crossed (Path.under task.parent Path.idSegment)) ∧
    ∀ q ∈ [c.query.rows, c.query.counted],
      .eq (qualified there.tableAlias d.leaf.column) parentId ∈ q.source.conjuncts

theorem OfParent.evolved {task : NestedTask} {parentId : Value} (h : OfParent s task parentId c)
    (he : Evolved s M c c') : OfParent s task parentId c' := by
  obtain ⟨d, there, hd, hthere, hpath, hmem⟩ := h
  refine ⟨d, there, hd, hthere.extends he.extends, hpath, mem_statements ?_⟩
  exact he.conjuncts (hmem c.query.rows List.mem_cons_self)

theorem ofParent_nestedSteps {task : NestedTask} {parentId : Value}
    (h : nestedSteps s task parentId c = (.ok (), c')) : OfParent s task parentId c' := by
  unfold nestedSteps applyNested at h
  obtain ⟨_, c₁, -, h⟩ := bind_ok h
  obtain ⟨_, c₂, -, h⟩ := bind_ok h
  obtain ⟨_, c₃, -, h⟩ := bind_ok h
  obtain ⟨_, c₄, -, h⟩ := bind_ok h
  obtain ⟨parent, c₅, hparent, h⟩ := bind_ok h
  obtain ⟨_, c₆, hfilter, hcriteria⟩ := bind_ok h
  obtain ⟨d, there, hd, hthere, hpath, rfl⟩ := resolve_reached hparent
  have hevolved : Evolved s (fun _ => True) c₆ c' :=
    evolved_of_ok (evolved_nestedCriteria trivial task) hcriteria
  refine OfParent.evolved ⟨d, there, hd, ?_, hpath, mem_statements ?_⟩ hevolved
  · cases hfilter
    exact hthere.extends (extends_same rfl rfl)
  · cases hfilter
    exact Source.mem_conjuncts_addFilter _ rfl

end Compilation

theorem Action.joins_any {a : Action} (h : ∀ j, a ≠ .edit (.join j)) :
    a.Joins fun _ => True := by
  cases a with
  | edit e =>
    cases e with
    | join j => exact (h j rfl).elim
    | _ => trivial
  | projection => exact ⟨trivial, fun _ _ _ _ _ => trivial⟩
  | fields => exact ⟨trivial, fun _ _ _ _ _ => trivial⟩
  | nested => exact fun _ => trivial
  | _ => trivial

open Compilation in
/-- After any projections, sorts and criteria, succeeding or failing, the filter of both statements
is a conjunction that leaves the deleted rows of the root out, and in the query of a list also the
rows of other parents. Each joined association leaves the deleted rows of its target out by a
conjunct of its own ON clause. Whatever is done to a compilation, the conjuncts of its filter stay,
and criteria stand beside them. -/
theorem guards_stay_conjuncts (s : Setting) (pool : Pool) (uses : Nat) :
    (∀ actions : List Action, (∀ a ∈ actions, ∀ j, a ≠ .edit (.join j)) →
      Guarded s (Action.runAll s actions (start s pool uses))) ∧
    (∀ m projection r,
      Guarded s (Provider.compileSteps s m projection r (start s pool uses)).2) ∧
    (∀ task parentId c, nestedSteps s task parentId (start s pool uses) = (.ok (), c) →
      ∀ actions : List Action, (∀ a ∈ actions, ∀ j, a ≠ .edit (.join j)) →
        Guarded s (Action.runAll s actions c) ∧
        OfParent s task parentId (Action.runAll s actions c)) ∧
    ∀ (a : Action) c, (∀ j, a ≠ .edit (.join j)) →
      c.query.source.conjuncts ⊆ (a.perform s c).2.query.source.conjuncts := by
  have hactions : ∀ {actions : List Action} {c}, (∀ a ∈ actions, ∀ j, a ≠ .edit (.join j)) →
      Evolved s (fun _ => True) c (Action.runAll s actions c) :=
    fun h => Action.evolved_runAll fun a ha => Action.joins_any (h a ha)
  refine ⟨?_, ?_, ?_, ?_⟩
  · intro actions h
    exact guarded_of_evolved (hactions h)
  · intro m projection r
    have hany : projection.Modes fun _ => True := fun _ _ _ _ _ => trivial
    exact guarded_of_evolved (Provider.evolved_compileSteps trivial hany _ .refl).1
  · intro task parentId c hc actions h
    have hnested : Evolved s (fun _ => True) (start s pool uses) c :=
      evolved_of_ok (evolved_nestedSteps (fun _ => trivial) task parentId) hc
    exact ⟨guarded_of_evolved (hnested.trans (hactions h)),
      (ofParent_nestedSteps hc).evolved (hactions h)⟩
  · intro a c h
    exact Evolved.conjuncts (Action.evolved_perform (Action.joins_any h) c .refl).1

namespace Blog

def commentList : NestedTask where
  path := "comments"
  parent := ""
  options := ⟨"comments", none, some ⟨"saying", ⟨.or,
    [⟨"body", "body", .equal, none⟩, ⟨"id", "$id", .equal, none⟩]⟩⟩, .left⟩
  inner := .column "body" "body" (.done [])
  criteria := some (.record [("body", .text "yes"), ("id", .int 3)])
  pool := []

end Blog

open Compilation in
theorem guards_stay_conjuncts_blog :
    ∃ c, nestedSteps ((Blog.provider .sqlite).setting Blog.post) Blog.commentList (.int 7)
        (start ((Blog.provider .sqlite).setting Blog.post) [] 0) = (.ok (), c) ∧
      (c.query.source.joins.map Join.tableAlias, c.query.source.conjuncts.length)
        = (["comments_2"], 2) ∧
      Guarded ((Blog.provider .sqlite).setting Blog.post)
        (Action.runAll ((Blog.provider .sqlite).setting Blog.post)
          [.criteria (.single "name" "author.name" .equal) (.text "Ann") ""] c) ∧
      OfParent ((Blog.provider .sqlite).setting Blog.post) Blog.commentList (.int 7)
        (Action.runAll ((Blog.provider .sqlite).setting Blog.post)
          [.criteria (.single "name" "author.name" .equal) (.text "Ann") ""] c) := by
  obtain ⟨⟨⟩, hc⟩ := ok_of_toBool
    (m := nestedSteps ((Blog.provider .sqlite).setting Blog.post) Blog.commentList (.int 7))
    (s := start ((Blog.provider .sqlite).setting Blog.post) [] 0) (by decide +kernel)
  obtain ⟨-, -, hnested, -⟩ := guards_stay_conjuncts ((Blog.provider .sqlite).setting Blog.post)
    [] 0
  obtain ⟨hguarded, hparent⟩ := hnested Blog.commentList (.int 7) _ hc
    [.criteria (.single "name" "author.name" .equal) (.text "Ann") ""] (by simp)
  exact ⟨_, hc, by decide +kernel, hguarded, hparent⟩

end RecordQuery
