import RecordQuery.Proofs.Criteria.Deferral
import RecordQuery.Proofs.NestedQuery

namespace RecordQuery

open Steps

/-- Given the bag, each criterion has a path that leads somewhere and a value that its operator
takes, or has no value and needs one. -/
def CriteriaSpec.Accepts (s : Setting) (spec : CriteriaSpec) (bag : Value) (base : String) :
    Prop :=
  ∀ item ∈ spec.items, ∀ uses value,
    (item.value? bag (spec.items.length = 1) uses).1 = value →
    (value = none ∧ item.operator.takesValue = true) ∨
    (∃ d, s.schema.destination s.root (Path.under base item.path) = .ok d) ∧
      ∀ column, ∃ predicate,
        item.operator.predicate column (value.getD .null) item.parameter = .ok predicate

namespace Compilation

variable {s : Setting} {name base path : String} {bag : Value} {spec : CriteriaSpec}
  {p : Projection} {pool : Pool} {t t' : NestedTask} {parentId : Value} {i j : Nat}
  {x : CompiledQuery}

theorem succeeds_resolve (mode : JoinMode) (hσ : s.schema.validate = .ok ())
    (hroot : s.root ∈ s.schema.entities) {d : Destination}
    (h : s.schema.destination s.root path = .ok d) : Succeeds (resolve s path mode) := by
  intro c
  obtain ⟨x, t, hwalked, heq⟩ := resolve_walked s path mode c
  rw [h] at hwalked
  rw [heq]
  cases hwalked with
  | arrived => exact ⟨_, _, rfl⟩
  | stuck htrail hattempt =>
    exact absurd hattempt (Planning.not_attempt_error hσ hroot (htrail.unscoped rfl))

theorem succeeds_selectKey {mode : JoinMode} {c c' : Compilation} (hσ : s.schema.validate = .ok ())
    (hroot : s.root ∈ s.schema.entities) (h : selectKey s base mode c = (.ok ⟨⟩, c')) :
    Succeeds (selectKey s base mode) := by
  unfold selectKey at h
  obtain ⟨key, u, hkey, -⟩ := bind_ok h
  obtain ⟨t, harrived, -⟩ := resolve_ok hkey
  obtain ⟨d, there, hd, -⟩ := harrived.column
  apply succeeds_bind (succeeds_resolve mode hσ hroot hd)
  intro key
  apply succeeds_bind (succeeds_modify _)
  exact fun _ => succeeds_modify _

theorem succeeds_placeAll (connective : Connective) (found : List (Predicate × Bool)) :
    Succeeds (placeAll s connective found) := by
  unfold placeAll
  apply succeeds_bind
  · split
    · exact succeeds_pure _
    · exact succeeds_modify _
  · exact fun _ => succeeds_forM fun _ _ => succeeds_modify _

theorem succeeds_criteria (hσ : s.schema.validate = .ok ())
    (hroot : s.root ∈ s.schema.entities) (h : spec.Accepts s bag base) :
    Succeeds (criteria s spec bag base) := by
  refine succeeds_bind (succeeds_mapM fun item hitem => ?_) fun _ => succeeds_placeAll _ _
  intro c
  have hvalue : criterionValue item bag (spec.items.length = 1) c
      = (.ok (item.value? bag (spec.items.length = 1) c.uses).1,
        { c with uses := (item.value? bag (spec.items.length = 1) c.uses).2 }) := rfl
  unfold criterion
  rw [bind_of_ok hvalue]
  generalize { c with uses := (item.value? bag (spec.items.length = 1) c.uses).2 } = u
  have hitem := h item hitem c.uses _ rfl
  generalize (item.value? bag (spec.items.length = 1) c.uses).1 = value at hitem
  rcases hitem with ⟨rfl, htakes⟩ | ⟨⟨d, hd⟩, hpredicate⟩
  · rw [htakes]
    exact ⟨_, _, rfl⟩
  · split
    · exact ⟨_, _, rfl⟩
    · obtain ⟨r, v, hr⟩ := succeeds_resolve .left hσ hroot hd u
      obtain ⟨predicate, hpredicate⟩ := hpredicate r.column
      rw [bind_of_ok hr, hpredicate]
      exact ⟨_, _, rfl⟩

/-- The same list, put aside where the pool was empty and where it held something: nothing inside
asks for what is left of it, and the criteria of the list accept what they were given. -/
structure Fed (s : Setting) (t t' : NestedTask) : Prop where
  same : t' = { t with criteria := t'.criteria, pool := t'.pool }
  unasked : t.criteria = none
  empty : t.pool = []
  spares : t.inner.Spares t'.pool
  accepts : ∀ k bag, t.options.criteria = some k → t'.criteria = some bag →
    k.spec.Accepts s bag t.path

theorem fed_deferred (base : String) (h : p.Spares pool) :
    List.Forall₂ (Fed s) (deferred base p.leaves []).1 (deferred base p.leaves pool).1 := by
  induction p with
  | done => exact .nil
  | column path label rest ih => exact ih h
  | field path leaf rest ih => exact ih h.2
  | list path options inner rest _ ih =>
    have htaken : options.taken pool = none := h.1
    change List.Forall₂ _
      (⟨_, _, _, _, options.taken [], options.left []⟩ :: (deferred base rest.leaves _).1)
      (⟨_, _, _, _, options.taken pool, options.left pool⟩ :: (deferred base rest.leaves _).1)
    rw [options.taken_nil, options.left_nil, htaken, NestedOptions.left_of_taken htaken]
    exact .cons ⟨rfl, rfl, rfl, h.2.1, fun _ _ _ hbag => by cases hbag⟩ (ih h.2.2)

theorem fed_carrier (hone : p.carriers name ≤ 1) (htakes : p.takes name = true)
    (hscoped : p.Unscoped name) (s : Setting) (base : String) (bag : Value)
    (haccepts : ∀ path options inner k, (path, .list options inner) ∈ p.leaves →
      options.criteria = some k → k.name = name → k.spec.Accepts s bag (Path.under base path)) :
    List.Forall₂ (Fed s) (deferred base p.leaves []).1 (deferred base p.leaves [(name, bag)]).1 ∧
      (deferred base p.leaves [(name, bag)]).2 = [] := by
  induction p with
  | done => cases htakes
  | column path label rest ih =>
    exact ih hone htakes hscoped fun path options inner k hl =>
      haccepts path options inner k (List.mem_cons_of_mem _ hl)
  | field path leaf rest ih =>
    exact ih hone htakes hscoped.2 fun path options inner k hl =>
      haccepts path options inner k (List.mem_cons_of_mem _ hl)
  | list path options inner rest _ ih =>
    unfold Projection.carriers at hone
    change List.Forall₂ _
      (⟨_, _, _, _, options.taken [], options.left []⟩ :: (deferred base rest.leaves _).1)
      (⟨_, _, _, _, options.taken _, options.left _⟩ :: (deferred base rest.leaves _).1) ∧
      (deferred base rest.leaves (options.left _)).2 = []
    rw [options.taken_nil, options.left_nil, NestedOptions.taken_single,
      NestedOptions.left_single]
    -- the list takes the bag, or one behind it does and nothing inside has a use for it
    cases hcarries : options.carries name with
    | true =>
      refine ⟨.cons ⟨rfl, rfl, rfl, inner.spares_nil, ?_⟩ (fed_deferred base rest.spares_nil),
        deferred_nil base rest.leaves⟩
      intro k bag' hk hbag
      cases hbag
      refine haccepts path options inner k List.mem_cons_self hk ?_
      unfold NestedOptions.carries at hcarries
      have hk : options.criteria = some k := hk
      rw [hk] at hcarries
      exact of_decide_eq_true hcarries
    | false =>
      have hrest : rest.takes name = true := by
        have hor : (options.carries name || rest.takes name) = true := htakes
        rwa [hcarries, Bool.false_or] at hor
      have hinner : inner.carriers name = 0 := by
        have hsome : rest.carriers name ≠ 0 := by
          intro hnone
          rw [rest.takes_of_carriers hnone] at hrest
          cases hrest
        omega
      obtain ⟨hfed, hleft⟩ := ih (by omega) hrest hscoped.2.2 fun path options inner k hl =>
        haccepts path options inner k (List.mem_cons_of_mem _ hl)
      have hspares : inner.Spares [(name, bag)] := inner.spares_single hscoped.2.1 hinner
      exact ⟨.cons ⟨rfl, rfl, rfl, hspares, fun _ _ _ hbag => by cases hbag⟩ hfed, hleft⟩

theorem succeeds_nestedCriteria (hσ : s.schema.validate = .ok ())
    (hroot : s.root ∈ s.schema.entities)
    (h : ∀ k bag, t.options.criteria = some k → t.criteria = some bag →
      k.spec.Accepts s bag t.path) : Succeeds (nestedCriteria s t) := by
  unfold nestedCriteria
  split
  · next k bag hk hbag =>
    have hcriteria := succeeds_criteria hσ hroot (h k bag hk hbag)
    intro c
    unfold ungroupedCriteria
    rw [bind_of_ok (get_apply c), bind_of_ok (modify_apply _ c)]
    obtain ⟨_, u, hu⟩ := hcriteria { c with grouped := false }
    rw [bind_of_ok hu]
    exact ⟨_, _, rfl⟩
  · exact succeeds_pure _

def scopeNested (s : Setting) (task : NestedTask) (parentId : Value) : Steps Compilation Unit := do
  nestedSort s task
  let parent ← resolve s (Path.under task.parent Path.idSegment) .left
  onQuery (·.addFilter (.eq parent.column parentId))

theorem applyNested_eq (s : Setting) (task : NestedTask) (parentId : Value) :
    applyNested s task parentId
      = scopeNested s task parentId >>= fun _ => nestedCriteria s task := by
  simp only [applyNested, scopeNested, bind_assoc]

theorem blind_scopeNested (task : NestedTask) (parentId : Value) :
    Blind (scopeNested s task parentId) := by
  apply blind_bind (blind_nestedSort task)
  intro _
  apply blind_bind (blind_resolve _ .left)
  exact fun parent => blind_onQuery _

theorem nestedSteps_fed {c : Compilation} (hfed : Fed s t t')
    (h : nestedSteps s t parentId (start s t.pool i) = (.ok ⟨⟩, c)) (i' : Nat) :
    c.nested = (deferred t.path t.inner.leaves []).1 ∧
    nestedSteps s t' parentId (start s t'.pool i')
      = nestedCriteria s t' (c.holding (deferred t.path t.inner.leaves t'.pool).2
          (deferred t.path t.inner.leaves t'.pool).1 i') := by
  obtain ⟨hsame, hunasked, hempty, hspares, -⟩ := hfed
  generalize t'.criteria = criteria, t'.pool = pool at hsame hspares
  subst hsame
  rw [hempty] at h
  obtain ⟨anchor, anchored, b, gathered, hanchor, hfields, happly⟩ := nestedSteps_ok h
  rw [applyNested_eq] at happly
  obtain ⟨_, u, hscope, hcriteria⟩ := bind_ok happly
  -- the list that was given nothing applies nothing
  have hnone : nestedCriteria s t = pure ⟨⟩ := by
    unfold nestedCriteria
    rw [hunasked]
    cases t.options.criteria <;> rfl
  rw [hnone] at hcriteria
  cases hcriteria
  have hblind : Blind (resolve s (Path.under t.path Path.idSegment) .forceInner) :=
    blind_resolve _ _
  obtain ⟨hpool, hnested, -⟩ := hblind.holds hanchor
  have hpool : ({ anchored with middlewares := t.inner.middlewares } : Compilation).pool = [] :=
    hpool
  have hanchor' : resolve s (Path.under t.path Path.idSegment) .forceInner (start s pool i')
      = (.ok anchor, anchored.holding pool [] i') := hblind.apply hanchor pool [] i'
  obtain ⟨-, hfields'⟩ := fields_missed hpool hspares.misses hfields [] i'
  constructor
  · rw [((blind_scopeNested t parentId).holds hscope).2.1, nested_fields hpool hfields]
    exact congrArg (· ++ _) hnested
  · unfold nestedSteps
    dsimp only
    rw [bind_of_ok hanchor', setMiddlewares, bind_of_ok (modify_apply _ _)]
    exact (bind_of_ok hfields').trans <| (congrFun (applyNested_eq s _ parentId) _).trans
      (bind_of_ok ((blind_scopeNested t parentId).apply hscope _ _ _))

theorem nestedQuery_fed (hσ : s.schema.validate = .ok ()) (hroot : s.root ∈ s.schema.entities)
    (hfed : Fed s t t') (h : nestedQuery s t parentId i = (.ok x, j)) (i' : Nat) :
    ∃ x' j', nestedQuery s t' parentId i' = (.ok x', j') ∧ x'.query.fields = x.query.fields ∧
      List.Forall₂ (Fed s) x.nested x'.nested := by
  obtain ⟨c, hc, rfl, -⟩ := run_ok h
  obtain ⟨hnested, hsteps⟩ := nestedSteps_fed hfed hc i'
  have haccepts : ∀ k bag, t'.options.criteria = some k → t'.criteria = some bag →
      k.spec.Accepts s bag t'.path := by
    rw [hfed.same]
    exact hfed.accepts
  obtain ⟨_, d, hd⟩ := succeeds_nestedCriteria hσ hroot haccepts
    (c.holding (deferred t.path t.inner.leaves t'.pool).2
      (deferred t.path t.inner.leaves t'.pool).1 i')
  obtain ⟨w, hw, rfl⟩ := nestedCriteria_ok hd
  have hx : nestedQuery s t' parentId i'
      = (.ok ({ w with grouped := c.grouped }.finish s), w.uses) := by
    unfold nestedQuery run
    rw [hsteps, hd]
    rfl
  refine ⟨_, _, hx, hw.keeps.fields, ?_⟩
  change List.Forall₂ (Fed s) c.nested w.nested
  rw [hw.holds.1, hnested]
  exact fed_deferred t.path hfed.spares

end Compilation

end RecordQuery
