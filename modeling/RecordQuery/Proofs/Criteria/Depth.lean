import RecordQuery.Proofs.Criteria.Acceptance
import RecordQuery.Proofs.Criteria.Once

namespace RecordQuery

open Steps

theorem QueryPair.rowStatement_of_fields {δ : Dialect} {q q' : QueryPair} {statement : Statement}
    (hfields : q'.fields = q.fields) (h : q.rowStatement δ = .ok statement) :
    ∃ statement', q'.rowStatement δ = .ok statement' := by
  unfold rowStatement Select.statement Select.fragment rows at h ⊢
  dsimp only at h ⊢
  rw [hfields]
  split at h
  · cases h
  · next hsome =>
    rw [if_neg hsome]
    exact ⟨_, rfl⟩

namespace Provider

variable {s : Setting} {m : Model} {r : Request} {c c' : Compilation} {ts ts' : List NestedTask}
  {i j : Nat}

theorem checkNested_cons (s : Setting) (depth : Nat) (t : NestedTask) (ts : List NestedTask) :
    checkNested s (depth + 1) (t :: ts) = (do
      let compiled ← Compilation.nestedQuery s t .null
      let _ ← compiled.query.rowStatement s.dialect
      checkNested s depth compiled.nested) >>= fun _ => checkNested s (depth + 1) ts := by
  cases ts <;> rfl

theorem checkNested_fed (hσ : s.schema.validate = .ok ()) (hroot : s.root ∈ s.schema.entities)
    {depth : Nat} (hfed : List.Forall₂ (Compilation.Fed s) ts ts')
    (h : checkNested s depth ts i = (.ok ⟨⟩, j)) (i' : Nat) :
    ∃ j', checkNested s depth ts' i' = (.ok ⟨⟩, j') := by
  -- on the depth for the lists inside, and at each depth on the lists side by side
  induction depth generalizing ts ts' i j i' with
  | zero =>
    cases hfed with
    | nil => exact ⟨i', rfl⟩
    | cons => cases h
  | succ depth ih =>
    induction hfed generalizing i i' with
    | nil => exact ⟨i', rfl⟩
    | @cons t t' ts ts' hfirst _ ihts =>
      rw [checkNested_cons] at h
      obtain ⟨_, k, hchecked, hrest⟩ := bind_ok h
      obtain ⟨x, l, hx, hchecked⟩ := bind_ok hchecked
      obtain ⟨statement, hrow, hinner⟩ := lift_bind_ok hchecked
      obtain ⟨x', l', hx', hfields, hnested⟩ :=
        Compilation.nestedQuery_fed hσ hroot hfirst hx i'
      obtain ⟨statement', hrow'⟩ := QueryPair.rowStatement_of_fields hfields hrow
      obtain ⟨k', hinner'⟩ := ih hnested hinner l'
      obtain ⟨j', hrest'⟩ := ihts hrest k'
      refine ⟨j', ?_⟩
      have hchecked' : (do
          let compiled ← Compilation.nestedQuery s t' .null
          let _ ← compiled.query.rowStatement s.dialect
          checkNested s depth compiled.nested : Steps Nat Unit) i' = (.ok ⟨⟩, k') := by
        rw [bind_of_ok hx', hrow']
        exact hinner'
      rw [checkNested_cons, bind_of_ok hchecked']
      exact hrest'

theorem blind_applySorts (names : List String) :
    Compilation.Blind (names.forM (applySort s m)) := by
  apply Compilation.blind_forM
  intro name
  apply Compilation.blind_bind (Compilation.blind_lift _)
  exact fun order => Compilation.blind_sort "" order

def applyShape (s : Setting) (m : Model) (r : Request) : Steps Compilation Unit := do
  r.sortNames.forM (applySort s m)
  applyPage (← r.pageParams)

theorem blind_applyPage (page : Option Page) : Compilation.Blind (applyPage page) := by
  cases page with
  | none => exact Compilation.blind_pure _
  | some page => exact Compilation.blind_onQuery (·.setPage page)

theorem blind_applyShape (r : Request) : Compilation.Blind (applyShape s m r) := by
  apply Compilation.blind_bind (blind_applySorts r.sortNames)
  intro _
  exact Compilation.blind_bind (Compilation.blind_lift _) blind_applyPage

theorem applyRequest_of_empty (h : c.pool = []) : applyRequest s m r c = applyShape s m r c := by
  unfold applyRequest applyShape
  rw [bind_apply, bind_apply]
  rcases hsorted : r.sortNames.forM (applySort s m) c with ⟨x, u⟩
  cases x with
  | error e => rfl
  | ok =>
    have hu : u.pool = [] := ((blind_applySorts r.sortNames).holds hsorted).1.trans h
    dsimp only
    rw [bind_of_ok (get_apply u), hu]
    rfl

theorem projection_missed {p : Projection} {pool : Pool} {b : Bool}
    (hp : ∀ l ∈ p.leaves, ∀ leaf, l.2 = .field leaf → leaf.Misses pool)
    (h : Compilation.projection s p (.start s [] i) = (.ok b, c)) :
    c.pool = [] ∧ c.nested = (deferred "" p.leaves []).1 ∧
    ∀ uses, Compilation.projection s p (.start s pool uses)
      = (.ok b, c.holding (deferred "" p.leaves pool).2 (deferred "" p.leaves pool).1 uses) := by
  unfold Compilation.projection Compilation.setMiddlewares at h ⊢
  rw [bind_of_ok (modify_apply _ _)] at h
  refine ⟨(Compilation.fields_missed rfl hp h [] i).1,
    Compilation.nested_fields rfl h, fun uses => ?_⟩
  rw [bind_of_ok (modify_apply _ _)]
  exact (Compilation.fields_missed rfl hp h [] uses).2

theorem run_taken {p : Projection} {pool : Pool} {q : CompiledQuery}
    (hp : ∀ l ∈ p.leaves, ∀ leaf, l.2 = .field leaf → leaf.Misses pool)
    (h : Compilation.run s [] (compileSteps s m p r) i = (.ok q, j)) (uses : Nat) :
    q.nested = (deferred "" p.leaves []).1 ∧
    ((deferred "" p.leaves pool).2 = [] →
      Compilation.run s pool (compileSteps s m p r) uses
        = (.ok { q with nested := (deferred "" p.leaves pool).1 }, uses)) := by
  obtain ⟨c', hc', rfl, -⟩ := Compilation.run_ok h
  obtain ⟨b, c, hprojection, happly⟩ := bind_ok hc'
  obtain ⟨hpool, hnested, hagain⟩ := projection_missed hp hprojection
  rw [applyRequest_of_empty hpool] at happly
  have hblind : Compilation.Blind (applyShape s m r) := blind_applyShape r
  refine ⟨(hblind.holds happly).2.1.trans hnested, fun hleft => ?_⟩
  have hsteps : compileSteps s m p r (.start s pool uses)
      = (.ok ⟨⟩, c'.holding [] (deferred "" p.leaves pool).1 uses) := by
    unfold compileSteps
    rw [bind_of_ok (hagain uses), hleft, applyRequest_of_empty rfl]
    exact hblind.apply happly _ _ _
  unfold Compilation.run
  rw [hsteps]
  rfl

theorem run_left {p : Projection} {name : String} {bag : Value} {q : CompiledQuery}
    (hp : ∀ l ∈ p.leaves, ∀ leaf, l.2 = .field leaf → leaf.Misses [(name, bag)])
    (h : Compilation.run s [] (compileSteps s m p r) i = (.ok q, j))
    (hleft : (deferred "" p.leaves [(name, bag)]).2 = [(name, bag)]) (hbag : bag.isNull = false)
    (hname : m.criteria.get? name = none) (uses : Nat) :
    (Compilation.run s [(name, bag)] (compileSteps s m p r) uses).1
      = .error (.unknownCriterion name) := by
  obtain ⟨c', hc', rfl, -⟩ := Compilation.run_ok h
  obtain ⟨b, c, hprojection, happly⟩ := bind_ok hc'
  obtain ⟨-, -, hagain⟩ := projection_missed hp hprojection
  obtain ⟨_, u, hsorted, -⟩ := bind_ok happly
  have hagain := hagain uses
  rw [hleft] at hagain
  generalize hc : c.holding [(name, bag)] (deferred "" p.leaves [(name, bag)]).1 uses = d at hagain
  have hsorted' : r.sortNames.forM (applySort s m) d = (.ok ⟨⟩, _) :=
    hc ▸ (blind_applySorts r.sortNames).apply hsorted _ _ _
  have hpool : d.pool = [] ++ (name, bag) :: [] := congrArg Compilation.pool hc.symm
  have hrefused := applyRequest_unknown (s := s) (r := r) hpool hbag hname
  have hbefore : (applyBefore s m r [] d).1 = .ok ⟨⟩ := by
    unfold applyBefore
    rw [bind_of_ok hsorted']
    rfl
  have hsteps : (compileSteps s m p r (.start s [(name, bag)] uses)).1
      = .error (.unknownCriterion name) := by
    unfold compileSteps
    rw [bind_of_ok hagain, hrefused, hbefore]
    rfl
  exact Compilation.run_error hsteps

end Provider

/-- Where criteria of a list are given in the request. If a list of the projection itself has them,
and they accept the bag, the request compiles as it does without: the query is the same, and so are
its lists, but for the bag, which the list with the criteria is given. If the list stands inside
another one, the request is refused, although the list exists. -/
theorem nested_criteria_taken (p : Provider) (hσ : p.schema.validate = .ok ()) (model : String)
    (r : Request) (hr : r.criteria = []) (i j : Nat) (q : CompiledQuery)
    (h : p.compile model r i = (.ok q, j)) (m : Model) (root : Entity) (projection : Projection)
    (hm : p.model model = .ok m) (hroot : p.schema.entity m.entity = .ok root)
    (hprojection : m.projection (r.projection.getD p.config.defaultProjection) = .ok projection)
    (name : String) (bag : Value) (hbag : bag.isNull = false)
    (hname : m.criteria.get? name = none) (hone : projection.carriers name = 1)
    (hscoped : projection.Unscoped name) (uses : Nat) :
    (projection.takes name = true →
      (∀ path options inner k, (path, .list options inner) ∈ projection.leaves →
        options.criteria = some k → k.name = name →
        k.spec.Accepts (p.setting root) bag path) →
      ∃ q' j', p.compile model (r.withCriterion name bag) uses = (.ok q', j') ∧
        q' = { q with nested := q'.nested } ∧
        q'.nested.map NestedTask.place = q.nested.map NestedTask.place ∧
        (∀ t ∈ q'.nested, t.criteria = if t.options.carries name then some bag else none) ∧
        ∃ t ∈ q'.nested, t.options.carries name = true) ∧
    (projection.takes name = false →
      (p.compile model (r.withCriterion name bag) uses).1 = .error (.unknownCriterion name)) := by
  obtain ⟨m', root', projection', v, hm', hroot', hprojection', hrun, hcheck⟩ :=
    Provider.compile_ok h
  cases hm.symm.trans hm'
  cases hroot.symm.trans hroot'
  cases hprojection.symm.trans hprojection'
  have hregistered : root ∈ p.schema.entities := Schema.mem_of_entity hroot
  have hgiven : (r.withCriterion name bag).criteria = [(name, bag)] := by
    unfold Request.withCriterion
    rw [hr]
    rfl
  have hcompile := Provider.compile_apply (r := r.withCriterion name bag) (i := uses) hm hroot
    hprojection
  have hsame : Provider.compileSteps (p.setting root) m projection (r.withCriterion name bag)
      = Provider.compileSteps (p.setting root) m projection r := rfl
  rw [hgiven, hsame] at hcompile
  rw [hr] at hrun
  have hmisses : ∀ l ∈ projection.leaves, ∀ leaf, l.2 = .field leaf →
      leaf.Misses [(name, bag)] := by
    intro l hl leaf hleaf
    have hevery := projection.every_leaves hscoped l hl
    rw [hleaf] at hevery
    exact misses_single hevery
  -- the pool holds this one bag: a list takes it, or it is left for the model
  constructor
  · intro htakes haccepts
    obtain ⟨hfed, hleft⟩ :=
      Compilation.fed_carrier (Nat.le_of_eq hone) htakes hscoped (p.setting root) "" bag haccepts
    obtain ⟨hnested, htaken⟩ := Provider.run_taken hmisses hrun uses
    rw [hnested] at hcheck
    obtain ⟨j', hcheck'⟩ := Provider.checkNested_fed hσ hregistered hfed hcheck uses
    have hcompiled : p.compile model (r.withCriterion name bag) uses
        = (.ok { q with nested := (deferred "" projection.leaves [(name, bag)]).1 }, j') := by
      rw [hcompile, bind_of_ok (htaken hleft)]
      exact bind_of_ok hcheck'
    refine ⟨_, j', hcompiled, rfl, ?_, fun t => criteria_deferred (Nat.le_of_eq hone),
      exists_carrier "" _ htakes⟩
    rw [hnested, deferred_places, deferred_places]
  · intro htakes
    have hleft := deferred_left "" bag htakes
    rw [hcompile]
    exact bind_error (Provider.run_left hmisses hrun hleft hbag hname uses) _

namespace Blog

def writer : Entity :=
  ((Entity.ofTable "Writer" "writers").withPrimaryKey ⟨"id", "id", .bigInt⟩).withAssociation
    ⟨"posts", .hasMany, "Post", "writer_id", none, none⟩

def writers : Provider where
  schema := ⟨[writer, user, post, comment], by decide, by decide⟩
  dialect := .sqlite
  config := .standard
  models := [("Writer", (Model.ofEntity "Writer").withProjection "default"
    (.list "posts" ⟨"posts", none, none, .left⟩
      (.list "comments" ⟨"comments", none, some ⟨"saying", .single "body" "body" .like⟩, .left⟩
        (.column "body" "body" (.done [])) (.done [])) (.done [])))]

theorem accepts_saying (text : String) :
    (CriteriaSpec.single "body" "body" .like).Accepts ((provider .sqlite).setting post)
      (.text text) "comments" := by
  intro item hitem uses value hvalue
  cases List.mem_singleton.1 hitem
  cases hvalue
  have hleads : (schema.destination post "comments.body").toBool = true := by decide +kernel
  exact .inr ⟨except_ok_of_toBool hleads, fun column => ⟨_, rfl⟩⟩

theorem accepts_listing (text path : String) (options : NestedOptions) (inner : Projection)
    (k : NestedCriteria) (hl : (path, .list options inner) ∈ listing.leaves)
    (hk : options.criteria = some k) :
    k.spec.Accepts ((provider .sqlite).setting post) (.text text) path := by
  simp only [listing, Projection.leaves, List.mem_cons, Prod.mk.injEq, reduceCtorEq, and_false,
    false_or, Leaf.list.injEq, List.not_mem_nil, or_false] at hl
  obtain ⟨rfl, rfl, -⟩ := hl
  cases hk
  exact accepts_saying text

end Blog

theorem nested_criteria_taken_blog :
    (∃ q q' j', ((Blog.provider .sqlite).compile "Post" .empty 0).1 = .ok q ∧
      (Blog.provider .sqlite).compile "Post" (Request.empty.withCriterion "saying" (.text "yes")) 0
        = (.ok q', j') ∧
      q' = { q with nested := q'.nested } ∧ ∃ t ∈ q'.nested, t.criteria = some (.text "yes")) ∧
    (∃ q, (Blog.writers.compile "Writer" .empty 0).1 = .ok q) ∧
    (Blog.writers.compile "Writer" (Request.empty.withCriterion "saying" (.text "yes")) 0).1
      = .error (.unknownCriterion "saying") := by
  obtain ⟨q, hq⟩ := ok_of_toBool (m := (Blog.provider .sqlite).compile "Post" .empty) (s := 0)
    (by decide +kernel)
  obtain ⟨w, hw⟩ := ok_of_toBool (m := Blog.writers.compile "Writer" .empty) (s := 0)
    (by decide +kernel)
  obtain ⟨q', j', hq', hsame, -, hcriteria, t, ht, hcarries⟩ :=
    (nested_criteria_taken (Blog.provider .sqlite) (by decide +kernel) "Post" .empty rfl 0 _ q
      hq Blog.posts Blog.post Blog.listing rfl rfl rfl "saying" (.text "yes") rfl rfl
      (by decide) ⟨nofun, trivial, trivial, trivial⟩ 0).1 (by decide)
      fun path options inner k hl hk _ => Blog.accepts_listing "yes" path options inner k hl hk
  have hgiven := hcriteria t ht
  rw [hcarries] at hgiven
  refine ⟨⟨q, q', j', congrArg Prod.fst hq, hq', hsame, t, ht, hgiven⟩,
    ⟨w, congrArg Prod.fst hw⟩, ?_⟩
  exact (nested_criteria_taken Blog.writers (by decide +kernel) "Writer" .empty rfl 0 _ w hw _
    Blog.writer _ rfl rfl rfl "saying" (.text "yes") rfl rfl (by decide)
    ⟨trivial, ⟨trivial, trivial, trivial⟩, trivial⟩ 0).2 (by decide)

end RecordQuery
