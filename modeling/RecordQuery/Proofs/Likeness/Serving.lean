import RecordQuery.Proofs.Likeness.Compiling

namespace RecordQuery

open Steps
open Planning (parallel_same)

variable {L : Likeness} {s : Setting}

/-- Equal but for the values of conditions. -/
structure CompiledQuery.Alike (L : Likeness) (q r : CompiledQuery) : Prop where
  entity : q.entity = r.entity
  query : L.query q.query = L.query r.query
  handlers : q.handlers = r.handlers
  nested : List.Forall₂ (Compilation.TaskAlike L) q.nested r.nested
  dependencies : q.dependencies = r.dependencies
  middlewares : q.middlewares = r.middlewares
  grouped : q.grouped = r.grouped

namespace Compilation

theorem alike_start {a b : Pool} (h : L.pool a b) (i j : Nat) :
    Alike L (start s a i) (start s b j) :=
  ⟨rfl, rfl, rfl, rfl, .nil, rfl, rfl, rfl, h⟩

theorem parallel_run {a b : Pool} (hpool : L.pool a b) {m n : Steps Compilation Unit}
    (h : Parallel (Alike L) m n fun _ _ => True) :
    Parallel (fun _ _ => True) (run s a m) (run s b n) (CompiledQuery.Alike L) := by
  intro i j _
  have hrun := h (start s a i) (start s b j) (alike_start hpool i j)
  unfold run
  rcases hm : m (start s a i) with ⟨x, c⟩
  rcases hn : n (start s b j) with ⟨y, d⟩
  rw [hm, hn] at hrun
  obtain ⟨hcd, hxy⟩ := hrun
  refine ⟨trivial, hxy.map ?_⟩
  intro _ _ _
  exact ⟨rfl, hcd.query, hcd.handlers, hcd.nested, hcd.dependencies, hcd.middlewares, hcd.grouped⟩

theorem parallel_nestedQuery {t u : NestedTask} (h : TaskAlike L t u) {v w : Value}
    (hvw : ∀ column, L.view (.eq column v) = L.view (.eq column w)) :
    Parallel (fun _ _ => True) (nestedQuery s t v) (nestedQuery s u w) (CompiledQuery.Alike L) :=
  parallel_run h.pool (parallel_nestedSteps h hvw)

end Compilation

theorem Likeness.fields_eq {q r : QueryPair} (h : L.query q = L.query r) : q.fields = r.fields := by
  have hfields := congrArg QueryPair.fields h
  exact hfields

theorem Likeness.both_rowStatement {q r : QueryPair} (h : L.query q = L.query r) (δ : Dialect) :
    Both (fun _ _ => True) (q.rowStatement δ) (r.rowStatement δ) := by
  have hfields : q.rows.fields = r.rows.fields := L.fields_eq h
  have htable : q.rows.source.table = r.rows.source.table :=
    congrArg (fun q => q.source.table) h
  unfold QueryPair.rowStatement Select.statement Select.fragment
  rw [hfields, htable]
  split
  · exact rfl
  · exact trivial

namespace Provider

theorem parallel_checkNested (depth : Nat) {ts us : List NestedTask}
    (h : List.Forall₂ (Compilation.TaskAlike L) ts us) :
    Parallel (fun _ _ => True) (checkNested s depth ts) (checkNested s depth us)
      (fun _ _ => True) := by
  induction depth generalizing ts us with
  | zero =>
    cases h with
    | nil => exact parallel_pure trivial
    | cons => exact parallel_throw
  | succ depth ih =>
    have hforM : Parallel (fun _ _ => True)
        (ts.forM fun task => do
          let compiled ← Compilation.nestedQuery s task .null
          let _ ← compiled.query.rowStatement s.dialect
          checkNested s depth compiled.nested)
        (us.forM fun task => do
          let compiled ← Compilation.nestedQuery s task .null
          let _ ← compiled.query.rowStatement s.dialect
          checkNested s depth compiled.nested) (fun _ _ => True) := by
      apply parallel_forM h
      intro t u htu
      apply parallel_bind (Compilation.parallel_nestedQuery htu fun _ => rfl)
      intro q r hqr
      apply parallel_bind (parallel_lift (L.both_rowStatement hqr.query _))
      intro _ _ _
      exact ih hqr.nested
    cases h with
    | nil => exact parallel_pure trivial
    | cons => exact hforM

theorem forM_asking (m : Model) (pool : Pool) :
    pool.forM (applyCriterion s m) = (Pool.asking pool).forM (applyCriterion s m) := by
  induction pool with
  | nil => rfl
  | cons entry pool ih =>
    obtain ⟨name, bag⟩ := entry
    cases hb : bag.isNull with
    | true =>
      have hasking : Pool.asking ((name, bag) :: pool) = Pool.asking pool := by
        simp [Pool.asking, hb]
      have hstep : applyCriterion s m (name, bag) = pure () := by simp [applyCriterion, hb]
      rw [hasking, ← ih, List.forM, hstep, pure_bind]
    | false =>
      have hasking : Pool.asking ((name, bag) :: pool) = (name, bag) :: Pool.asking pool := by
        simp [Pool.asking, hb]
      rw [hasking, List.forM, List.forM, ih]

structure RequestsAlike (L : Likeness) (p : Provider) (r r' : Request) : Prop where
  projection : r.projection.getD p.config.defaultProjection
    = r'.projection.getD p.config.defaultProjection
  sortNames : r.sortNames = r'.sortNames
  pageParams : r.pageParams = r'.pageParams
  criteria : L.pool r.criteria r'.criteria

variable {p : Provider} {m : Model} {r r' : Request}

theorem parallel_applyRequest (hm : ∀ spec ∈ m.criteria, spec.2.Constant)
    (h : RequestsAlike L p r r') :
    Parallel (Compilation.Alike L) (applyRequest s m r) (applyRequest s m r')
      (fun _ _ => True) := by
  unfold applyRequest
  rw [h.sortNames, h.pageParams]
  apply parallel_bind (Q := fun _ _ => True)
  · apply parallel_forM (P := Eq)
    · rw [List.forall₂_eq_eq_eq]
    · rintro name _ rfl
      apply parallel_bind (parallel_same _)
      rintro order _ rfl
      exact Compilation.parallel_sort "" order
  intro _ _ _
  apply parallel_bind parallel_get
  intro c d hcd
  apply parallel_bind (Q := fun _ _ => True)
  -- null bags ask for nothing, so both pools are walked without them
  · rw [forM_asking m c.pool, forM_asking m d.pool]
    apply parallel_forM (L.asking hcd.pool)
    rintro ⟨name, bag⟩ ⟨_, gab⟩ ⟨rfl, hb⟩
    have hnull : bag.isNull = gab.isNull := L.isNull_bags hb
    apply parallel_ite (by rw [hnull])
    · exact fun _ => parallel_pure trivial
    · intro _
      apply parallel_bind (Q := fun x y => x = y ∧ x.Constant)
      · apply parallel_lift
        unfold Model.criteriaNamed
        cases hget : m.criteria.get? name with
        | none => exact rfl
        | some spec => exact ⟨rfl, hm _ (Fields.mem_of_get? hget)⟩
      · rintro spec _ ⟨rfl, hspec⟩
        exact Compilation.parallel_criteria hspec hb ""
  intro _ _ _
  apply parallel_bind (parallel_same _)
  rintro page _ rfl
  cases page with
  | none => exact parallel_pure trivial
  | some page => exact Compilation.parallel_setPage page

structure Constant (p : Provider) : Prop where
  criteria : ∀ m ∈ p.models, ∀ spec ∈ m.2.criteria, spec.2.Constant
  nested : ∀ m ∈ p.models, ∀ projection ∈ m.2.projections,
    projection.2.Every (fun _ => True) fun options => ∀ c ∈ options.criteria, c.spec.Constant

theorem constant_of_plain (hc : ∀ m ∈ p.models, m.2.criteria.isEmpty = true)
    (hn : ∀ m ∈ p.models, ∀ projection ∈ m.2.projections, projection.2.depth = 0) : p.Constant where
  criteria := by
    intro m hm spec hspec
    rw [List.isEmpty_iff.1 (hc m hm)] at hspec
    cases hspec
  nested := fun m hm projection h => Projection.every_of_depth (fun _ => trivial) (hn m hm projection h)

def Nestable (L : Likeness) : Projection → Prop :=
  Projection.Every (fun _ => True) fun options => ∀ c ∈ options.criteria, L.nestable c.name

theorem parallel_compile (model : String) (hp : p.Constant)
    (hn : ∀ m projection, p.models.get? model = some m →
      m.projections.get? (r.projection.getD p.config.defaultProjection) = some projection →
        Nestable L projection)
    (h : RequestsAlike L p r r') :
    Parallel (fun _ _ => True) (p.compile model r) (p.compile model r')
      (CompiledQuery.Alike L) := by
  unfold compile
  rw [← h.projection]
  apply parallel_bind (Q := fun x y => x = y ∧ p.models.get? model = some x)
  · apply parallel_lift
    unfold Provider.model
    cases hget : p.models.get? model with
    | none => exact rfl
    | some m => exact ⟨rfl, rfl⟩
  rintro m _ ⟨rfl, hm⟩
  have hmem := Fields.mem_of_get? hm
  apply parallel_bind (parallel_same _)
  rintro root _ rfl
  apply parallel_bind (Q := fun x y => x = y ∧ Compilation.Fits L x)
  · apply parallel_lift
    unfold Model.projection
    cases hget : m.projections.get? (r.projection.getD p.config.defaultProjection) with
    | none => exact rfl
    | some projection =>
      have hconstant := hp.nested _ hmem _ (Fields.mem_of_get? hget)
      refine ⟨rfl, hconstant.combine (fun _ _ _ => trivial) ?_ (hn m projection hm hget)⟩
      exact fun _ hc hn c hmem => ⟨hn c hmem, hc c hmem⟩
  rintro projection _ ⟨rfl, hfits⟩
  apply parallel_bind (Q := CompiledQuery.Alike L)
  · apply Compilation.parallel_run h.criteria
    apply parallel_bind (Compilation.parallel_projection hfits)
    intro _ _ _
    exact parallel_applyRequest (hp.criteria _ hmem) h
  intro q q' hq
  apply parallel_bind (parallel_checkNested _ hq.nested)
  intro _ _ _
  exact parallel_pure hq

end Provider

end RecordQuery
