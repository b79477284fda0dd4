import RecordQuery.Proofs.Joining.Reuse

namespace RecordQuery

open Steps

namespace Planning

variable {σ : Schema} {root : Entity} {path : String} {mode : JoinMode} {s t u : Planning}
  {p : ScopedPredicate} {k : Join} {js ks : List Join} {w w' w'' : Option ScopedPredicate}

def Bare (k : Join) : Prop :=
  ∃ parent a target child left source destination,
    k ∈ newJoins parent a target child left source destination []

/-- The join of an association on the path, which was not joined before, with the predicate in its
ON clause. -/
structure Scopes (σ : Schema) (root : Entity) (path : String) (s : Planning) (p : ScopedPredicate)
    (k : Join) : Prop where
  waiting : p.applied = false
  join : ∃ here behind segment ahead a target left source destination c,
    Path.segments path = behind ++ segment :: ahead ∧ Located σ root behind here ∧
    here.entity.association? (Path.bare segment) = some a ∧ σ.entity a.target = .ok target ∧
    s.plan.joined.get? (Path.along (behind ++ [segment])) = none ∧
    p.conditionAt (Path.along (behind ++ [segment])) target k.tableAlias = .ok (some c) ∧
    k = ⟨joinType left, target.table, k.tableAlias,
      .all (tie here a k.tableAlias source destination :: notDeleted target k.tableAlias ++ [c])⟩

/-- Joins that are added while a predicate waits or none does, and what waits from then on. -/
inductive Added (σ : Schema) (root : Entity) (path : String) (s : Planning) :
    Option ScopedPredicate → List Join → Option ScopedPredicate → Prop
  | bare {w : Option ScopedPredicate} {js : List Join} : (∀ j ∈ js, Bare j) →
    Added σ root path s w js w
  | placed {p : ScopedPredicate} {before after : List Join} {k : Join} :
    Scopes σ root path s p k → (∀ j ∈ before, Bare j) → (∀ j ∈ after, Bare j) →
    Added σ root path s (some p) (before ++ k :: after) (some { p with applied := true })

theorem Scopes.before (h : Scopes σ root path t p k) (hext : Extends s t) :
    Scopes σ root path s p k := by
  obtain ⟨here, behind, segment, ahead, a, target, left, source, destination, c, hpath, hlocated,
    ha, ht, hnew, hrest⟩ := h.join
  refine ⟨h.waiting, here, behind, segment, ahead, a, target, left, source, destination, c, hpath,
    hlocated, ha, ht, ?_, hrest⟩
  by_contra hsome
  obtain ⟨joined, hj⟩ := Option.ne_none_iff_exists'.1 hsome
  rw [hext.joined hj] at hnew
  cases hnew

theorem Added.trans (h : Added σ root path s w js w') (h' : Added σ root path t w' ks w'')
    (hext : Extends s t) : Added σ root path s w (js ++ ks) w'' := by
  cases h with
  | bare hjs =>
    cases h' with
    | bare hks => exact .bare (List.forall_mem_append.2 ⟨hjs, hks⟩)
    | placed hk hbefore hafter =>
      rw [← List.append_assoc]
      exact .placed (hk.before hext) (List.forall_mem_append.2 ⟨hjs, hbefore⟩) hafter
  | placed hk hbefore hafter =>
    cases h' with
    | bare hks =>
      rw [List.append_assoc, List.cons_append]
      exact .placed hk hbefore (List.forall_mem_append.2 ⟨hafter, hks⟩)
    | placed hk' => exact absurd hk'.waiting (by simp)

theorem bare_linkJoins {parent : Position} {a : Association} {child : String} {left : Bool}
    {source : Attribute} (target : Entity) (destination : Attribute)
    (h : k ∈ linkJoins parent a child (joinType left) source) : Bare k :=
  ⟨parent, a, target, child, left, source, destination, List.mem_append_left _ h⟩

theorem conditionAt_waiting {target : Entity} {child : String} {c : Condition}
    (h : p.conditionAt path target child = .ok (some c)) : p.applied = false := by
  unfold ScopedPredicate.conditionAt at h
  split at h
  · cases h
  · next happlied => simpa using happlied

theorem conditionAt_parent {target : Entity} {child : String} {c : Condition}
    (h : p.conditionAt path target child = .ok (some c)) :
    ∃ leaf, Path.parentAndLeaf? p.path = some (path, leaf) := by
  unfold ScopedPredicate.conditionAt at h
  split at h
  · cases h
  split at h
  · cases h
  next parent leaf hparent =>
    split at h
    · cases h
    · next hpath => exact ⟨leaf, by rw [hparent, Decidable.not_not.1 hpath]⟩

theorem Step.added (h : Step σ root path mode s t) :
    ∃ js, t.query.source.joins = s.query.source.joins ++ js ∧
      Added σ root path s s.waiting js t.waiting := by
  obtain ⟨x, @⟨parent, behind, segment, ahead, a, target, _, _, hstanding, hpath, hlocated, ha, ht,
    hnew, hjoining⟩⟩ := h
  cases hjoining with
  | unkeyed => exact ⟨[], (List.append_nil _).symm, .bare (by simp)⟩
  | @refused source destination =>
    exact ⟨_, joins_foldl_join _ _, .bare fun j => bare_linkJoins target destination⟩
  | @joined source destination conditions w _ _ htaken =>
    refine ⟨_, joins_foldl_join _ _, ?_⟩
    dsimp only
    generalize s.waiting = waiting at htaken ⊢
    cases htaken with
    | none => exact .bare fun j hj => ⟨_, _, _, _, _, _, _, hj⟩
    | @some p c hp =>
      exact .placed ⟨conditionAt_waiting hp, parent, behind, segment, ahead, a, target, _, source,
        destination, c, hpath, hlocated, ha, ht, hnew, hp, rfl⟩
        (fun j => bare_linkJoins target destination) (by simp)

theorem Trail.added (h : Trail σ root path mode s t) :
    ∃ js, t.query.source.joins = s.query.source.joins ++ js ∧
      Added σ root path s s.waiting js t.waiting := by
  induction h with
  | refl => exact ⟨[], (List.append_nil _).symm, .bare (by simp)⟩
  | @tail u v htrail hstep ih =>
    obtain ⟨js, hjs, hadded⟩ := ih
    obtain ⟨ks, hks, hadded'⟩ := hstep.added
    refine ⟨js ++ ks, ?_, hadded.trans hadded' (Trail.run htrail).extends⟩
    rw [hks, hjs, List.append_assoc]

theorem Run.bare (h : Run σ root mode s t) (hs : s.waiting = none) :
    t.waiting = none ∧ ∃ js, t.query.source.joins = s.query.source.joins ++ js ∧
      ∀ j ∈ js, Bare j := by
  induction h with
  | refl => exact ⟨hs, [], (List.append_nil _).symm, by simp⟩
  | @tail u v _ hstep ih =>
    obtain ⟨hwaiting, js, hjs, hbare⟩ := ih
    obtain ⟨path, hstep⟩ := hstep
    obtain ⟨ks, hks, hadded⟩ := hstep.added
    generalize v.waiting = w at hadded ⊢
    rw [hwaiting] at hadded
    cases hadded with
    | bare hbare' =>
      refine ⟨rfl, js ++ ks, ?_, List.forall_mem_append.2 ⟨hbare, hbare'⟩⟩
      rw [hks, hjs, List.append_assoc]

end Planning

end RecordQuery
