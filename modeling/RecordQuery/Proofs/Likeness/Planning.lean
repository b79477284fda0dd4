import RecordQuery.Proofs.Likeness

namespace RecordQuery.Planning

open Steps

variable {L : Likeness}

structure Alike (L : Likeness) (s t : Planning) : Prop where
  plan : s.plan = t.plan
  query : L.query s.query = L.query t.query
  waiting : Option.Rel L.Scoped s.waiting t.waiting

theorem parallel_same {σ τ α : Type} {R : σ → τ → Prop} (x : Except Error α) :
    Parallel R (liftM x) (liftM x) Eq :=
  parallel_lift (both_refl (fun _ => rfl) x)

theorem parallel_nextAlias (name : String) :
    Parallel (Alike L) (nextAlias name) (nextAlias name) Eq := by
  apply parallel_bind parallel_get
  intro s t h
  dsimp only
  rw [h.plan]
  apply parallel_bind (parallel_set ⟨rfl, h.query, h.waiting⟩)
  intro _ _ _
  exact parallel_pure rfl

theorem parallel_addJoin {j k : Join} (h : L.join j = L.join k) :
    Parallel (Alike L) (addJoin j) (addJoin k) (fun _ _ => True) := by
  apply parallel_modify
  intro s t hst
  refine ⟨hst.plan, ?_, hst.waiting⟩
  rw [L.query_join, L.query_join, hst.query, h]

theorem parallel_record (path : String) (joined : JoinedPath) :
    Parallel (Alike L) (record path joined) (record path joined) (fun _ _ => True) := by
  apply parallel_modify
  intro s t hst
  refine ⟨?_, hst.query, hst.waiting⟩
  dsimp only
  rw [hst.plan]

theorem parallel_associate (parent : Position) (a : Association) (target : Entity)
    (child : String) (type : JoinType) :
    Parallel (Alike L) (associate parent a target child type)
      (associate parent a target child type) Eq := by
  apply parallel_bind (parallel_same _)
  rintro source _ rfl
  apply parallel_bind (parallel_same _)
  rintro destination _ rfl
  cases a.relation with
  | manyToMany link =>
    apply parallel_bind (parallel_addJoin rfl)
    intro _ _ _
    exact parallel_pure rfl
  | _ => exact parallel_pure rfl

theorem both_conditionAt {p q : ScopedPredicate} (h : L.Scoped p q) (path : String)
    (target : Entity) (child : String) :
    Both (Option.Rel fun c d => L.view c = L.view d) (p.conditionAt path target child)
      (q.conditionAt path target child) := by
  unfold ScopedPredicate.conditionAt
  rw [h.path, h.operator, h.parameter, h.applied]
  split
  · exact .none
  split
  · exact .none
  split
  · exact .none
  apply both_bind (both_refl (fun _ => rfl) _)
  rintro a _ rfl
  apply both_bind (L.predicate q.operator (qualified child a.column) q.parameter h.value)
  rintro _ _ (hcd | hcd)
  · exact .some hcd
  · exact .some hcd

theorem parallel_takeWaiting (path : String) (target : Entity) (child : String) :
    Parallel (Alike L) (takeWaiting path target child) (takeWaiting path target child)
      (fun cs ds => cs.map L.view = ds.map L.view) := by
  apply parallel_bind parallel_get
  intro s t h
  have hwaiting := h.waiting
  revert hwaiting
  generalize s.waiting = x
  generalize t.waiting = y
  rintro (@⟨p, q, hpq⟩ | _)
  · apply parallel_bind (parallel_lift (both_conditionAt hpq path target child))
    rintro _ _ (@⟨c, d, hcd⟩ | _)
    · apply parallel_bind (Q := fun _ _ => True)
      · apply parallel_modify
        intro s t hst
        exact ⟨hst.plan, hst.query, .some ⟨hpq.path, hpq.operator, hpq.value, hpq.parameter, rfl⟩⟩
      · intro _ _ _
        exact parallel_pure (by simpa using hcd)
    · exact parallel_pure rfl
  · exact parallel_pure rfl

theorem parallel_joinNew (parent : Position) (a : Association) (target : Entity) (path : String)
    (left : Bool) :
    Parallel (Alike L) (joinNew parent a target path left) (joinNew parent a target path left)
      Eq := by
  apply parallel_bind (parallel_nextAlias a.name)
  rintro child _ rfl
  apply parallel_bind (parallel_associate parent a target child _)
  rintro tie _ rfl
  apply parallel_bind (parallel_takeWaiting path target child)
  intro ws vs hw
  apply parallel_bind (Q := fun _ _ => True)
  · apply parallel_addJoin
    unfold Likeness.join
    simp only [Condition.all, L.view_combine, List.map_append, List.map_cons, hw]
  intro _ _ _
  apply parallel_bind (parallel_record path _)
  intro _ _ _
  exact parallel_pure rfl

theorem parallel_hop (mode : JoinMode) (segment : String) (here : Position) (a : Association)
    (target : Entity) :
    Parallel (Alike L) (hop mode segment here a target) (hop mode segment here a target) Eq := by
  have hjoin : ∀ path, Parallel (Alike L) (joinAt mode segment here a target path)
      (joinAt mode segment here a target path) Eq := by
    intro path
    apply parallel_bind parallel_get
    intro s t h
    rw [h.plan]
    cases t.plan.joined.get? path with
    | none => exact parallel_joinNew here a target path _
    | some joined => exact parallel_pure rfl
  apply parallel_bind (hjoin _)
  rintro joined _ rfl
  exact parallel_pure rfl

theorem parallel_endAt (here : Position) (name : String) (rest : List String) :
    Parallel (Alike L) (endAt here name rest) (endAt here name rest) Eq := by
  apply parallel_ite Iff.rfl
  · intro _
    apply parallel_bind (parallel_same _)
    rintro a _ rfl
    exact parallel_pure rfl
  · exact fun _ => parallel_throw

theorem parallel_keyAt (here : Position) :
    Parallel (Alike L) (keyAt here) (keyAt here) Eq := by
  apply parallel_bind (parallel_same _)
  rintro key _ rfl
  exact parallel_pure rfl

theorem parallel_walk (σ : Schema) (path : String) (mode : JoinMode) (segments : List String)
    (here : Position) :
    Parallel (Alike L) (walk σ path mode segments here) (walk σ path mode segments here) Eq := by
  induction segments generalizing here with
  | nil => exact parallel_throw
  | cons segment rest ih =>
    unfold walk
    cases here.entity.association? (Path.bare segment) with
    | none => exact parallel_endAt here _ rest
    | some a =>
      apply parallel_ite Iff.rfl
      · exact fun _ => parallel_throw
      · intro _
        apply parallel_bind (parallel_same _)
        rintro target _ rfl
        apply parallel_bind (parallel_hop mode segment here a target)
        rintro next _ rfl
        apply parallel_ite Iff.rfl
        · exact fun _ => parallel_keyAt next
        · exact fun _ => ih next

theorem parallel_resolve (σ : Schema) (root : Entity) (path : String) (mode : JoinMode) :
    Parallel (Alike L) (resolve σ root path mode) (resolve σ root path mode) Eq := by
  apply parallel_bind parallel_get
  intro s t h
  rw [h.plan]
  exact parallel_walk σ path mode _ _

end RecordQuery.Planning
