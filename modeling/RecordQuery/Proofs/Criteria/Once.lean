import RecordQuery.Proofs.Criteria.Ledger

namespace RecordQuery

open Steps

namespace Compilation

variable {s : Setting} {base : String} {mode : JoinMode} {p : Projection} {grouped b : Bool}
  {c c' : Compilation}

theorem unmarked_selectKey (h : selectKey s base mode c = (.ok ⟨⟩, c')) : Unmarked c c' := by
  unfold selectKey at h
  obtain ⟨key, u, hu, h⟩ := bind_ok h
  unfold onQuery at h
  rw [bind_of_ok (modify_apply _ u), addPrimitive_apply] at h
  cases h
  exact (unmarked_resolve hu).trans (unmarked_same rfl)

theorem unmarked_groupPrimitives (h : groupPrimitives grouped c = (.ok ⟨⟩, c')) :
    Unmarked c c' := by
  unfold groupPrimitives at h
  rw [modify_apply] at h
  cases h
  cases grouped with
  | false => exact unmarked_same rfl
  | true =>
    obtain ⟨groupBy, hsource⟩ := QueryPair.foldl_group_source c.primitives c.query
    apply unmarked_same
    rw [if_pos rfl, hsource]

theorem ledger_projection (h : projection s p c = (.ok b, c')) :
    ∃ marked tasks, Ledger s "" p.leaves c c' marked tasks := by
  unfold projection setMiddlewares fields at h
  rw [bind_of_ok (modify_apply _ c)] at h
  obtain ⟨bs, u, hleaves, h⟩ := bind_ok h
  obtain ⟨_, v, hkey, h⟩ := bind_ok h
  obtain ⟨_, w, hgroup, h⟩ := bind_ok h
  cases h
  obtain ⟨marked, tasks, hledger⟩ := ledger_mapM (List.Subset.refl _) hleaves
  obtain ⟨hpool, hnested, -⟩ := (blind_selectKey "" .left).holds hkey
  obtain ⟨hpool', hnested', -⟩ := (blind_groupPrimitives _).holds hgroup
  have hunmarked := (unmarked_selectKey hkey).trans (unmarked_groupPrimitives hgroup)
  obtain ⟨marked', hrest⟩ := hunmarked.ledger s "" p.leaves (hnested'.trans hnested)
    (hpool'.trans hpool)
  have hall := hledger.trans hrest
  exact ⟨_, _, hall.joins, hall.nested, hall.pool, hall.bare, hall.placed⟩

end Compilation

namespace Provider

variable {p : Provider} {s : Setting} {m : Model} {r : Request} {model : String} {pool : Pool}
  {c c' : Compilation} {i j : Nat} {q : CompiledQuery}

def Chosen (m : Model) (entry : String × Value) (use : CriteriaSpec × Value) : Prop :=
  m.criteria.get? entry.1 = some use.1 ∧ use.2 = entry.2

def applyUses (s : Setting) (uses : List (CriteriaSpec × Value)) : Steps Compilation Unit :=
  uses.forM fun use => Compilation.criteria s use.1 use.2 ""

def asking (pool : Pool) : Pool := pool.filter fun entry => !entry.2.isNull

theorem applyCriterion_of_asking {name : String} {bag : Value} (h : bag.isNull = false) :
    applyCriterion s m (name, bag)
      = liftM (m.criteriaNamed name) >>= fun spec => Compilation.criteria s spec bag "" := by
  unfold applyCriterion
  dsimp only
  rw [h]
  rfl

theorem applyCriterion_ok {name : String} {bag : Value}
    (h : applyCriterion s m (name, bag) c = (.ok ⟨⟩, c')) :
    bag.isNull = true ∧ c' = c ∨
    bag.isNull = false ∧ ∃ spec, m.criteria.get? name = some spec ∧
      Compilation.criteria s spec bag "" c = (.ok ⟨⟩, c') := by
  cases hnull : bag.isNull with
  | true =>
    unfold applyCriterion at h
    dsimp only at h
    rw [hnull] at h
    cases h
    exact .inl ⟨rfl, rfl⟩
  | false =>
    rw [applyCriterion_of_asking hnull] at h
    obtain ⟨spec, hspec, h⟩ := lift_bind_ok h
    unfold Model.criteriaNamed at hspec
    cases hget : m.criteria.get? name with
    | none =>
      rw [hget] at hspec
      cases hspec
    | some spec' =>
      rw [hget] at hspec
      cases hspec
      exact .inr ⟨rfl, spec, rfl, h⟩

theorem forM_applyCriterion_ok (h : pool.forM (applyCriterion s m) c = (.ok ⟨⟩, c')) :
    ∃ uses, List.Forall₂ (Chosen m) (asking pool) uses ∧ applyUses s uses c = (.ok ⟨⟩, c') := by
  induction pool generalizing c with
  | nil => exact ⟨[], .nil, h⟩
  | cons entry pool ih =>
    obtain ⟨name, bag⟩ := entry
    obtain ⟨_, u, hu, hrest⟩ := bind_ok h
    obtain ⟨uses, huses, happlied⟩ := ih hrest
    unfold asking at huses ⊢
    rcases applyCriterion_ok hu with ⟨hnull, rfl⟩ | ⟨hnull, spec, hspec, hcriteria⟩
    · rw [List.filter_cons_of_neg (by simp [hnull])]
      exact ⟨uses, huses, happlied⟩
    · rw [List.filter_cons_of_pos (by simp [hnull])]
      exact ⟨(spec, bag) :: uses, .cons ⟨hspec, rfl⟩ huses,
        (bind_of_ok hcriteria).trans happlied⟩

def applyChosen (s : Setting) (m : Model) (r : Request) (uses : List (CriteriaSpec × Value)) :
    Steps Compilation Unit := do
  r.sortNames.forM (applySort s m)
  applyUses s uses
  applyPage (← r.pageParams)

theorem applyRequest_ok (h : applyRequest s m r c = (.ok ⟨⟩, c')) :
    ∃ uses, List.Forall₂ (Chosen m) (asking c.pool) uses ∧
      applyChosen s m r uses c = (.ok ⟨⟩, c') := by
  obtain ⟨_, u, hsorted, h⟩ := bind_ok h
  rw [bind_of_ok (get_apply u)] at h
  obtain ⟨_, v, hcriteria, h⟩ := bind_ok h
  have hpool : u.pool = c.pool := (Compilation.Amended.holds
    (Compilation.amended_of_ok (amended_applySorts r.sortNames) hsorted)).2
  rw [hpool] at hcriteria
  obtain ⟨uses, huses, happlied⟩ := forM_applyCriterion_ok hcriteria
  exact ⟨uses, huses, (bind_of_ok hsorted).trans ((bind_of_ok happlied).trans h)⟩

def applyBefore (s : Setting) (m : Model) (r : Request) (before : Pool) :
    Steps Compilation Unit := do
  r.sortNames.forM (applySort s m)
  before.forM (applyCriterion s m)

theorem applyRequest_unknown {before after : Pool} {name : String} {bag : Value}
    (hpool : c.pool = before ++ (name, bag) :: after) (hbag : bag.isNull = false)
    (hname : m.criteria.get? name = none) :
    (applyRequest s m r c).1
      = (applyBefore s m r before c).1 >>= fun _ => .error (.unknownCriterion name) := by
  unfold applyRequest applyBefore
  rw [bind_apply, bind_apply]
  rcases hsorted : r.sortNames.forM (applySort s m) c with ⟨x, u⟩
  cases x with
  | error e => rfl
  | ok =>
    have hu : u.pool = c.pool := (Compilation.Amended.holds
      (Compilation.amended_of_ok (amended_applySorts r.sortNames) hsorted)).2
    dsimp only
    simp only [bind_of_ok (get_apply u), hu, hpool, List.forM_eq_forM, List.forM_append,
      List.forM_cons, bind_apply]
    rcases forM before (applyCriterion s m) u with ⟨y, v⟩
    cases y with
    | error e => rfl
    | ok =>
      have hunknown : applyCriterion s m (name, bag) v = (.error (.unknownCriterion name), v) := by
        rw [applyCriterion_of_asking hbag, Model.criteriaNamed, hname]
        rfl
      dsimp only
      rw [hunknown]
      rfl

theorem compile_apply {root : Entity} {projection : Projection} (hm : p.model model = .ok m)
    (hroot : p.schema.entity m.entity = .ok root)
    (hprojection : m.projection (r.projection.getD p.config.defaultProjection) = .ok projection) :
    p.compile model r i
      = (do
          let compiled ← Compilation.run (p.setting root) r.criteria
            (compileSteps (p.setting root) m projection r)
          checkNested (p.setting root) projection.depth compiled.nested
          return compiled : Steps Nat CompiledQuery) i := by
  unfold compile
  rw [hm, bind_of_ok (lift_apply (.ok m) i), hroot, bind_of_ok (lift_apply (.ok root) i),
    hprojection, bind_of_ok (lift_apply (.ok projection) i)]

/-- What became of the criteria of a request: the predicates of some stand in joins, lists have
taken some, and with the rest the model's were applied, each in its turn. -/
structure Settled (s : Setting) (m : Model) (projection : Projection) (r : Request) (i : Nat)
    (q : CompiledQuery) (marked : List (Join × Option (String × Value))) (rest : Pool)
    (uses : List (CriteriaSpec × Value)) : Prop where
  once : r.criteria.Perm
    (marked.filterMap Prod.snd ++ q.nested.filterMap NestedTask.entry? ++ rest)
  joins : q.query.source.joins = marked.map Prod.fst
  aliases : (q.query.source.joins.map Join.tableAlias).Nodup
  bare : ∀ j, (j, none) ∈ marked → Planning.Bare j
  placed : ∀ j entry, (j, some entry) ∈ marked →
    Compilation.Placed s "" projection.leaves entry j
  chosen : List.Forall₂ (Chosen m) (asking rest) uses
  applied : ∃ b c c', Compilation.projection s projection (.start s r.criteria i) = (.ok b, c) ∧
    c.pool = rest ∧ applyChosen s m r uses c = (.ok ⟨⟩, c') ∧ q = c'.finish s

theorem settled_of_run {projection : Projection}
    (h : Compilation.run s r.criteria (compileSteps s m projection r) i = (.ok q, j)) :
    ∃ marked rest uses, Settled s m projection r i q marked rest uses := by
  obtain ⟨c', hc', rfl, -⟩ := Compilation.run_ok h
  have hplanted : Compilation.Planted s c' :=
    Compilation.Evolved.planted (M := fun _ => True) (Compilation.planted_start s r.criteria i)
      (Compilation.evolved_of_ok
        (evolved_compileSteps trivial fun _ _ _ _ _ => trivial) hc')
  obtain ⟨b, c, hprojection, happlied⟩ := bind_ok hc'
  obtain ⟨marked, tasks, hledger⟩ := Compilation.ledger_projection hprojection
  have hamended : Compilation.Amended s c c' :=
    Compilation.amended_of_ok amended_applyRequest happlied
  obtain ⟨marked', hrest⟩ := hamended.unmarked.ledger s "" projection.leaves hamended.holds.1
    hamended.holds.2
  have hall := hledger.trans hrest
  obtain ⟨uses, huses, hchosen⟩ := applyRequest_ok happlied
  have hstart : (Compilation.start s r.criteria i).query.source.joins = [] := by
    unfold Compilation.start Planning.notDeleted
    cases s.root.softDelete <;> rfl
  have hnested : c'.nested = tasks := by rw [hamended.holds.1, hledger.nested]; rfl
  refine ⟨marked ++ marked', c.pool, uses, ?_, ?_, ?_, hall.bare, hall.placed, huses, b, c, c',
    hprojection, rfl, hchosen, rfl⟩
  · have hpool := hall.pool
    rw [hamended.holds.2, List.append_nil] at hpool
    change r.criteria.Perm (_ ++ c'.nested.filterMap _ ++ _)
    rw [hnested]
    exact hpool
  · have hjoins := hall.joins
    rwa [hstart, List.nil_append] at hjoins
  · exact (List.nodup_cons.1 hplanted.orderly.distinct).2

end Provider

/-- There is no join for the predicate to stand in: the parent of its path is missing, or joined
already, or no association that the other path crosses. -/
def Compilation.Unplaceable (s : Setting) (plan : JoinPlan) (path predicate : String) : Prop :=
  ∀ parent leaf, Path.parentAndLeaf? predicate = some (parent, leaf) →
    (plan.joined.get? parent).isSome ∨
    ∀ segments e, segments <+: Path.segments path → s.schema.Crosses s.root segments e →
      Path.along segments = parent → segments = []

theorem Compilation.selectField_unplaceable {s : Setting} {path base : String} {mode : JoinMode}
    {leaf : FieldLeaf} {k : ScopedCriterion} {c c' : Compilation} {b : Bool}
    (h : selectField s path base mode leaf c = (.ok b, c')) (hk : leaf.criterion = some k)
    (hplace : Unplaceable s c.plan path (Path.under base k.path)) : c'.pool = c.pool := by
  obtain ⟨-, js, -, hfate⟩ := selectField_fate h
  generalize c'.pool = pool at hfate
  cases hfate with
  | left => rfl
  | placed hk' _ _ hj =>
    cases hk.symm.trans hk'
    obtain ⟨here, behind, segment, ahead, a, target, _, _, _, _, hpath, hlocated, ha, ht, hnew,
      hcondition, -⟩ := hj.join
    obtain ⟨last, hparent⟩ := Planning.conditionAt_parent hcondition
    rcases hplace _ _ hparent with hjoined | habsent
    · have hnew : c.plan.joined.get? (Path.along (behind ++ [segment])) = none := hnew
      rw [hnew] at hjoined
      cases hjoined
    · have hfront : behind ++ [segment] <+: Path.segments path :=
        ⟨ahead, by rw [hpath, List.append_assoc]; rfl⟩
      have hnone := habsent _ _ hfront (hlocated.crosses.hop ha ht) rfl
      simp at hnone

/-- A request that compiles has all its criteria used up, each once: its entries are, in some order,
those whose predicates stand in joins, one in one join, those that lists have taken, one in one
list, and the rest, with which the criteria of the model are applied once each. A field whose
predicate has no join to stand in takes nothing. What is left and unknown to the model is refused,
when the sorts and all that was left before it are applied. -/
theorem criteria_used_once (p : Provider) (model : String) (r : Request) (i : Nat) :
    (∀ q j, p.compile model r i = (.ok q, j) → ∃ m root projection marked rest uses,
      p.model model = .ok m ∧ p.schema.entity m.entity = .ok root ∧
      m.projection (r.projection.getD p.config.defaultProjection) = .ok projection ∧
      Provider.Settled (p.setting root) m projection r i q marked rest uses ∧
      (r.criteria.keys.Nodup → (Fields.keys (marked.filterMap Prod.snd ++
        q.nested.filterMap NestedTask.entry? ++ rest)).Nodup)) ∧
    (∀ s path base mode leaf k c b c',
      Compilation.selectField s path base mode leaf c = (.ok b, c') → leaf.criterion = some k →
      Compilation.Unplaceable s c.plan path (Path.under base k.path) → c'.pool = c.pool) ∧
    (∀ m root projection b c before name bag after, p.model model = .ok m →
      p.schema.entity m.entity = .ok root →
      m.projection (r.projection.getD p.config.defaultProjection) = .ok projection →
      Compilation.projection (p.setting root) projection
        (.start (p.setting root) r.criteria i) = (.ok b, c) →
      c.pool = before ++ (name, bag) :: after → bag.isNull = false →
      m.criteria.get? name = none →
      (p.compile model r i).1 = (Provider.applyBefore (p.setting root) m r before c).1 >>=
        fun _ => .error (.unknownCriterion name)) := by
  refine ⟨?_, fun _ _ _ _ _ _ _ _ _ => Compilation.selectField_unplaceable, ?_⟩
  · intro q j h
    obtain ⟨m, root, projection, v, hm, hroot, hprojection, hrun, -⟩ := Provider.compile_ok h
    obtain ⟨marked, rest, uses, hsettled⟩ := Provider.settled_of_run hrun
    exact ⟨m, root, projection, marked, rest, uses, hm, hroot, hprojection, hsettled,
      fun hnodup => (hsettled.once.map Prod.fst).nodup hnodup⟩
  · intro m root projection b c before name bag after hm hroot hprojection hc hpool hbag hname
    have hunknown := Provider.applyRequest_unknown (s := p.setting root) (r := r) hpool hbag hname
    have hsteps : Provider.compileSteps (p.setting root) m projection r
        (.start (p.setting root) r.criteria i)
          = Provider.applyRequest (p.setting root) m r c := bind_of_ok hc
    rw [← hsteps] at hunknown
    -- what comes before the entry fails or not; only its error counts
    generalize (Provider.applyBefore (p.setting root) m r before c).1 = x at hunknown ⊢
    rw [Provider.compile_apply hm hroot hprojection]
    cases x <;> exact bind_error (Compilation.run_error hunknown) _

namespace Blog

def signed : Projection :=
  .column "title" "title" (.field "author.name"
    ⟨"author", none, .left, some ⟨"author", "name", "author.name", .equal⟩⟩
    (.list "comments" ⟨"comments", none, some ⟨"saying", .single "body" "body" .like⟩, .left⟩
      (.column "body" "body" (.done [])) (.done [])))

def signedModel : Model :=
  ((Model.ofEntity "Post").withProjection "default" signed).withCriteria "titled"
    (.single "title" "title" .equal)

def signedPosts : Provider := ⟨schema, .sqlite, .standard, [("Post", signedModel)]⟩

def chosen : Request :=
  ((Request.empty.withCriterion "titled" (.text "Hello")).withCriterion "saying"
    (.text "yes")).withCriterion "author" (.record [("name", .text "Ann")])

def unwanted : Request := chosen.withCriterion "missing" (.int 1)

def aside : FieldLeaf :=
  ⟨"title", none, .left, some ⟨"author", "name", "author.name", .equal⟩⟩

theorem unplaceable_aside (plan : JoinPlan) :
    Compilation.Unplaceable (signedPosts.setting post) plan "title" "author.name" := by
  intro parent leaf hparent
  have hread : Path.parentAndLeaf? "author.name" = some ("author", "name") := by decide +kernel
  obtain ⟨rfl, rfl⟩ := Prod.mk.inj (Option.some.inj (hread.symm.trans hparent))
  refine .inr fun segments e hfront _ halong => ?_
  have hsegments : Path.segments "title" = ["title"] := by decide +kernel
  rw [hsegments, List.prefix_cons_iff] at hfront
  rcases hfront with rfl | ⟨rest, rfl, hrest⟩
  · rfl
  · rw [List.prefix_nil.1 hrest] at halong
    exact absurd halong (by decide +kernel)

end Blog

open Compilation in
theorem criteria_used_once_blog :
    (∃ q j m root projection marked rest uses,
      Blog.signedPosts.compile "Post" Blog.chosen 0 = (.ok q, j) ∧
      Provider.Settled (Blog.signedPosts.setting root) m projection Blog.chosen 0 q marked rest
        uses ∧
      q.nested.filterMap (fun t => t.entry?.map Prod.fst) = ["saying"] ∧
      q.query.source.joins.map Join.tableAlias = ["author_2"]) ∧
    (∃ b c', selectField (Blog.signedPosts.setting Blog.post) "title" "" .left Blog.aside
        (start (Blog.signedPosts.setting Blog.post) Blog.chosen.criteria 0) = (.ok b, c') ∧
      c'.pool = Blog.chosen.criteria) ∧
    (∃ b c before, projection (Blog.signedPosts.setting Blog.post) Blog.signed
        (start (Blog.signedPosts.setting Blog.post) Blog.unwanted.criteria 0) = (.ok b, c) ∧
      c.pool.keys = ["titled", "missing"] ∧
      (Blog.signedPosts.compile "Post" Blog.unwanted 0).1
        = (Provider.applyBefore (Blog.signedPosts.setting Blog.post) Blog.signedModel Blog.unwanted
            before c).1 >>= fun _ => .error (.unknownCriterion "missing")) := by
  refine ⟨?_, ?_, ?_⟩
  · obtain ⟨q, j, hq, hread⟩ := ok_of_toOption_map
      (m := Blog.signedPosts.compile "Post" Blog.chosen) (s := 0)
      (f := fun q => (q.nested.filterMap (fun t => t.entry?.map Prod.fst),
        q.query.source.joins.map Join.tableAlias))
      (b := (["saying"], ["author_2"])) (by decide +kernel)
    obtain ⟨htaken, hjoined⟩ := Prod.mk.inj hread
    obtain ⟨m, root, projection, marked, rest, uses, -, -, -, hsettled, -⟩ :=
      (criteria_used_once Blog.signedPosts "Post" Blog.chosen 0).1 q j hq
    exact ⟨q, j, m, root, projection, marked, rest, uses, hq, hsettled, htaken, hjoined⟩
  · obtain ⟨b, hc⟩ := ok_of_toBool
      (m := selectField (Blog.signedPosts.setting Blog.post) "title" "" .left Blog.aside)
      (s := start (Blog.signedPosts.setting Blog.post) Blog.chosen.criteria 0) (by decide +kernel)
    exact ⟨b, _, hc, (criteria_used_once Blog.signedPosts "Post" Blog.chosen 0).2.1 _ _ _ _ _
      _ _ _ _ hc rfl (Blog.unplaceable_aside _)⟩
  · obtain ⟨b, hc⟩ := ok_of_toBool
      (m := projection (Blog.signedPosts.setting Blog.post) Blog.signed)
      (s := start (Blog.signedPosts.setting Blog.post) Blog.unwanted.criteria 0)
      (by decide +kernel)
    have hmissing : ((projection (Blog.signedPosts.setting Blog.post) Blog.signed
        (start (Blog.signedPosts.setting Blog.post) Blog.unwanted.criteria 0)).2.pool.get?
          "missing").map Value.isNull = some false := by
      decide +kernel
    obtain ⟨bag, hbag, hnull⟩ := Option.map_eq_some_iff.1 hmissing
    obtain ⟨before, after, hpool⟩ := List.append_of_mem (Fields.mem_of_get? hbag)
    exact ⟨b, _, before, hc, by decide +kernel,
      (criteria_used_once Blog.signedPosts "Post" Blog.unwanted 0).2.2 Blog.signedModel Blog.post
        Blog.signed b _ before "missing" bag after rfl rfl rfl hc hpool hnull rfl⟩

def Blog.refused : Request :=
  (Request.empty.withCriterion "titled" (.list [.int 1])).withCriterion "missing" (.int 1)

/-- The unknown criterion is not what the request fails for: the pool holds a faulty one before. -/
theorem faulty_before_unknown :
    (match Compilation.projection (Blog.signedPosts.setting Blog.post) Blog.signed
        (.start (Blog.signedPosts.setting Blog.post) Blog.refused.criteria 0) with
      | (.ok _, c) => some c.pool.keys
      | (.error _, _) => none) = some ["titled", "missing"] ∧
    (Blog.signedModel.criteria.get? "missing").isNone ∧
    (match (Blog.signedPosts.compile "Post" Blog.refused 0).1 with
      | .ok _ => none
      | .error e => some e) = some (.invalidValue "title" .scalarExpected) :=
  ⟨by decide +kernel, rfl, by decide +kernel⟩

end RecordQuery
