import RecordQuery.Proofs.Criteria.Depth
import RecordQuery.Proofs.FailFast

namespace RecordQuery

open Steps

namespace Operator

variable {column parameter : String} {value : Value} {predicate : Predicate}

theorem exists_map_ok {α β : Type} {x : Except Error α} {f : α → β} {b : β} (h : x.map f = .ok b)
    (g : α → β) : ∃ b', x.map g = .ok b' := by
  cases x with
  | error e => cases h
  | ok a => exact ⟨g a, rfl⟩

theorem compared_column {op : Comparison} (h : compared op column value parameter = .ok predicate)
    (other : String) : ∃ predicate', compared op other value parameter = .ok predicate' := by
  unfold compared at h ⊢
  split at h
  · exact ⟨_, rfl⟩
  · exact ⟨_, rfl⟩
  · exact exists_map_ok h _

theorem predicate_column {op : Operator} (h : op.predicate column value parameter = .ok predicate)
    (other : String) : ∃ predicate', op.predicate other value parameter = .ok predicate' := by
  cases op with
  | equal | notEqual | lessEqual | greaterEqual | lessThan | greaterThan =>
    simp only [Operator.predicate] at h ⊢
    exact compared_column h other
  | like | ilike | ilikeStart => exact exists_map_ok h _
  | isIn | notIn | isNull | isNotNull => exact ⟨_, rfl⟩
  | between =>
    simp only [Operator.predicate] at h ⊢
    split at h
    · exact ⟨_, rfl⟩
    · cases h
  | has => cases h

end Operator

/-- Whether the operator takes a computed value does not depend on its use. -/
def Criterion.Steady (item : Criterion) : Prop :=
  ∀ compute, item.value = some (.computed compute) → ∀ i j column predicate,
    item.operator.predicate column (compute i) item.parameter = .ok predicate →
    ∃ predicate', item.operator.predicate column (compute j) item.parameter = .ok predicate'

def CriteriaSpec.Steady (spec : CriteriaSpec) : Prop := ∀ item ∈ spec.items, item.Steady

theorem CriteriaSpec.Constant.steady {spec : CriteriaSpec} (h : spec.Constant) : spec.Steady := by
  intro item hitem compute hvalue i j column predicate hpredicate
  have hconstant : compute i = compute j := h item hitem _ hvalue i j
  rw [← hconstant]
  exact ⟨predicate, hpredicate⟩

theorem Criterion.Steady.value? {item : Criterion} (h : item.Steady) (bag : Value) (single : Bool)
    (i j : Nat) :
    (item.value? bag single i).1.isNone = (item.value? bag single j).1.isNone ∧
    ∀ column predicate, item.operator.predicate column ((item.value? bag single i).1.getD .null)
        item.parameter = .ok predicate →
      ∃ predicate', item.operator.predicate column ((item.value? bag single j).1.getD .null)
        item.parameter = .ok predicate' := by
  unfold Criterion.value?
  cases hv : item.value with
  | none => exact ⟨rfl, fun _ predicate hpredicate => ⟨predicate, hpredicate⟩⟩
  | some v =>
    cases v with
    | fixed v => exact ⟨rfl, fun _ predicate hpredicate => ⟨predicate, hpredicate⟩⟩
    | computed compute => exact ⟨rfl, h compute hv (i + 1) (j + 1)⟩

namespace Compilation

variable {s : Setting} {base : String} {bag : Value} {spec : CriteriaSpec} {c c' : Compilation}

theorem accepts_of_criteria (hc : spec.Steady)
    (h : criteria s spec bag base c = (.ok ⟨⟩, c')) : spec.Accepts s bag base := by
  obtain ⟨found, u, hfound, -⟩ := bind_ok h
  intro item hitem uses value hvalue
  obtain ⟨v, a, w, hitem'⟩ := mapM_ok hfound item hitem
  obtain ⟨hnone, htakes⟩ := (hc item hitem).value? bag (spec.items.length = 1) v.uses uses
  rw [hvalue] at hnone htakes
  obtain ⟨value', hv, ⟨-, rfl, htakes', -⟩ | ⟨r, predicate, -, hr, hpredicate, -⟩⟩ :=
    criterion_ok hitem'
  · rw [hv] at hnone
    exact .inl ⟨Option.isNone_iff_eq_none.1 hnone.symm, htakes'⟩
  · rw [← hv] at hpredicate
    obtain ⟨t, harrived, -⟩ := resolve_ok hr
    obtain ⟨d, there, hd, -⟩ := harrived.column
    obtain ⟨predicate', hpredicate'⟩ := htakes _ _ hpredicate
    exact .inr ⟨⟨d, hd⟩, fun column => Operator.predicate_column hpredicate' column⟩

theorem selectKey_of_projection {p : Projection} {b : Bool}
    (h : projection s p c = (.ok b, c')) :
    ∃ u v, selectKey s "" .left u = (.ok ⟨⟩, v) := by
  unfold projection setMiddlewares fields at h
  rw [bind_of_ok (modify_apply _ c)] at h
  obtain ⟨bs, u, -, h⟩ := bind_ok h
  obtain ⟨_, v, hkey, -⟩ := bind_ok h
  exact ⟨u, v, hkey⟩

theorem projection_done (h : Succeeds (selectKey s "" .left)) (middlewares : List Middleware)
    (c : Compilation) :
    ∃ c', projection s (.done middlewares) c = (.ok false, c') ∧ c'.pool = c.pool ∧
      c'.nested = c.nested := by
  obtain ⟨_, u, hu⟩ := h { c with middlewares := middlewares }
  obtain ⟨hpool, hnested, -⟩ := (blind_selectKey "" .left).holds hu
  refine ⟨u, ?_, hpool, hnested⟩
  unfold projection setMiddlewares fields
  rw [bind_of_ok (modify_apply _ c)]
  exact (bind_of_ok hu).trans rfl

end Compilation

def Request.counted (r : Request) : Request :=
  { Request.empty with projection := some Model.countProjection, criteria := r.criteria }

namespace Provider

variable {p : Provider} {s : Setting} {m : Model} {r : Request} {model : String} {pool : Pool}
  {c c' : Compilation} {i j : Nat} {q : CompiledQuery}

/-- The model has criteria for the entry that accept its bag. -/
def Takes (s : Setting) (m : Model) (entry : String × Value) : Prop :=
  ∃ spec, m.criteria.get? entry.1 = some spec ∧ spec.Accepts s entry.2 ""

theorem takes_of_steady (hm : ∀ spec ∈ m.criteria, spec.2.Steady)
    {uses : List (CriteriaSpec × Value)} (hchosen : List.Forall₂ (Chosen m) pool uses)
    (h : applyUses s uses c = (.ok ⟨⟩, c')) : ∀ entry ∈ pool, Takes s m entry := by
  induction hchosen generalizing c with
  | nil => simp
  | @cons entry use pool uses hentry _ ih =>
    obtain ⟨_, u, hcriteria, hrest⟩ := bind_ok h
    obtain ⟨hspec, hbag⟩ := hentry
    dsimp only at hcriteria
    rw [hbag] at hcriteria
    have hsteady := hm _ (Fields.mem_of_get? hspec)
    rw [List.forall_mem_cons]
    exact ⟨⟨use.1, hspec, Compilation.accepts_of_criteria hsteady hcriteria⟩, ih hrest⟩

theorem takes_of_uses (hm : ∀ spec ∈ m.criteria, spec.2.Constant)
    {uses : List (CriteriaSpec × Value)} (hchosen : List.Forall₂ (Chosen m) pool uses)
    (h : applyUses s uses c = (.ok ⟨⟩, c')) : ∀ entry ∈ pool, Takes s m entry :=
  takes_of_steady (fun spec hspec => (hm spec hspec).steady) hchosen h

theorem succeeds_pool (hσ : s.schema.validate = .ok ()) (hroot : s.root ∈ s.schema.entities)
    (h : ∀ entry ∈ asking pool, Takes s m entry) : Succeeds (pool.forM (applyCriterion s m)) := by
  apply succeeds_forM
  rintro ⟨name, bag⟩ hentry
  cases hnull : bag.isNull with
  | true =>
    unfold applyCriterion
    dsimp only
    rw [hnull]
    exact succeeds_pure _
  | false =>
    obtain ⟨spec, hspec, haccepts⟩ := h (name, bag) (List.mem_filter.2 ⟨hentry, by simp [hnull]⟩)
    rw [applyCriterion_of_asking hnull, Model.criteriaNamed, hspec]
    exact Compilation.succeeds_criteria hσ hroot haccepts

theorem applyRequest_succeeds_iff (hσ : s.schema.validate = .ok ())
    (hroot : s.root ∈ s.schema.entities) (hm : ∀ spec ∈ m.criteria, spec.2.Steady) :
    (∃ c', applyRequest s m r c = (.ok ⟨⟩, c')) ↔
      (∃ u, r.sortNames.forM (applySort s m) c = (.ok ⟨⟩, u)) ∧
        (∀ entry ∈ asking c.pool, Takes s m entry) ∧ ∃ page, r.pageParams = .ok page := by
  constructor
  · rintro ⟨c', h⟩
    obtain ⟨uses, hchosen, happlied⟩ := applyRequest_ok h
    obtain ⟨_, u, hsorted, happlied⟩ := bind_ok happlied
    obtain ⟨_, w, huses, happlied⟩ := bind_ok happlied
    obtain ⟨page, hpage, -⟩ := lift_bind_ok happlied
    exact ⟨⟨u, hsorted⟩, takes_of_steady hm hchosen huses, page, hpage⟩
  · rintro ⟨⟨u, hsorted⟩, htakes, page, hpage⟩
    have hpool : u.pool = c.pool := ((blind_applySorts r.sortNames).holds hsorted).1
    obtain ⟨_, w, hw⟩ := succeeds_pool hσ hroot htakes u
    have hshaped : Succeeds (applyPage page) := by
      cases page with
      | none => exact succeeds_pure _
      | some page => exact succeeds_modify _
    obtain ⟨_, c', hc'⟩ := hshaped w
    refine ⟨c', ?_⟩
    unfold applyRequest
    rw [bind_of_ok hsorted, bind_of_ok (get_apply u), hpool, bind_of_ok hw, hpage,
      bind_of_ok (lift_apply (.ok page) w)]
    exact hc'

theorem run_succeeds_iff {pool : Pool} {steps : Steps Compilation Unit} :
    (∃ q v, Compilation.run s pool steps i = (.ok q, v)) ↔
      ∃ c, steps (.start s pool i) = (.ok ⟨⟩, c) := by
  constructor
  · rintro ⟨q, v, h⟩
    obtain ⟨c, hc, -⟩ := Compilation.run_ok h
    exact ⟨c, hc⟩
  · rintro ⟨c, hc⟩
    refine ⟨c.finish s, c.uses, ?_⟩
    unfold Compilation.run
    rw [hc]
    rfl

theorem compile_succeeds_iff {root : Entity} (hm : p.model model = .ok m)
    (hroot : p.schema.entity m.entity = .ok root)
    (hprojection : m.projection (r.projection.getD p.config.defaultProjection) = .ok projection) :
    (∃ q j, p.compile model r i = (.ok q, j)) ↔
      ∃ q v, Compilation.run (p.setting root) r.criteria
          (compileSteps (p.setting root) m projection r) i = (.ok q, v) ∧
        ∃ j, checkNested (p.setting root) projection.depth q.nested v = (.ok ⟨⟩, j) := by
  constructor
  · rintro ⟨q, j, h⟩
    obtain ⟨m', root', projection', v, hm', hroot', hprojection', hrun, hcheck⟩ := compile_ok h
    cases hm.symm.trans hm'
    cases hroot.symm.trans hroot'
    cases hprojection.symm.trans hprojection'
    exact ⟨q, v, hrun, j, hcheck⟩
  · rintro ⟨q, v, hrun, j, hcheck⟩
    refine ⟨q, j, ?_⟩
    rw [compile_apply hm hroot hprojection, bind_of_ok hrun, bind_of_ok hcheck]
    rfl

theorem projection_counted {middlewares : List Middleware} {other : String}
    (h : m.projections.get? Model.countProjection = some (.done middlewares)) :
    m.projection (r.counted.projection.getD other) = .ok (.done middlewares) := by
  change m.projection Model.countProjection = _
  unfold Model.projection
  rw [h]

theorem counted_start {root : Entity} (m : Model) (r : Request) (middlewares : List Middleware)
    (hkey : Succeeds (Compilation.selectKey (p.setting root) "" .left)) (k : Nat) :
    ∃ c, c.pool = r.criteria ∧ c.nested = [] ∧
      compileSteps (p.setting root) m (.done middlewares) r.counted
          (.start (p.setting root) r.counted.criteria k)
        = applyRequest (p.setting root) m r.counted c := by
  obtain ⟨c, hc, hpool, hnested⟩ := Compilation.projection_done hkey middlewares
    (.start (p.setting root) r.criteria k)
  exact ⟨c, hpool, hnested, bind_of_ok hc⟩

theorem count_compiles {root : Entity} {middlewares : List Middleware}
    (hσ : p.schema.validate = .ok ()) (hp : p.Constant) (hm : p.model model = .ok m)
    (hroot : p.schema.entity m.entity = .ok root)
    (hcount : m.projections.get? Model.countProjection = some (.done middlewares))
    (hkey : Succeeds (Compilation.selectKey (p.setting root) "" .left)) (k : Nat) :
    (∃ q l, p.compile model r.counted k = (.ok q, l)) ↔
      ∀ entry ∈ asking r.criteria, Takes (p.setting root) m entry := by
  -- an empty projection takes nothing from the pool and puts no list aside
  obtain ⟨c, hpool, hnested, hsteps⟩ := counted_start m r middlewares hkey k
  have happlies := applyRequest_succeeds_iff (s := p.setting root) (m := m) (r := r.counted) (c := c)
    hσ (Schema.mem_of_entity hroot)
    fun spec hspec => (hp.criteria _ (mem_of_model hm) spec hspec).steady
  rw [hpool] at happlies
  rw [compile_succeeds_iff hm hroot (projection_counted hcount)]
  constructor
  · rintro ⟨q, v, hrun, -⟩
    obtain ⟨c', hc', -⟩ := Compilation.run_ok hrun
    rw [hsteps] at hc'
    exact (happlies.1 ⟨c', hc'⟩).2.1
  · intro htakes
    obtain ⟨c', hc'⟩ := happlies.2 ⟨⟨c, rfl⟩, htakes, none, rfl⟩
    have hempty : c'.nested = [] :=
      ((Compilation.amended_of_ok amended_applyRequest hc').holds.1).trans hnested
    refine ⟨c'.finish (p.setting root), c'.uses, ?_, c'.uses, ?_⟩
    · unfold Compilation.run
      rw [hsteps, hc']
      rfl
    · change checkNested _ _ c'.nested _ = _
      rw [hempty]
      rfl

theorem count_refuses {root : Entity} {middlewares : List Middleware} {before after : Pool}
    {name : String} {bag : Value} (hσ : p.schema.validate = .ok ()) (hm : p.model model = .ok m)
    (hroot : p.schema.entity m.entity = .ok root)
    (hcount : m.projections.get? Model.countProjection = some (.done middlewares))
    (hkey : Succeeds (Compilation.selectKey (p.setting root) "" .left))
    (hcriteria : r.criteria = before ++ (name, bag) :: after) (hbag : bag.isNull = false)
    (hname : m.criteria.get? name = none)
    (htakes : ∀ entry ∈ asking before, Takes (p.setting root) m entry) (k : Nat) :
    (p.compile model r.counted k).1 = .error (.unknownCriterion name) := by
  obtain ⟨c, hpool, -, hsteps⟩ := counted_start m r middlewares hkey k
  have hunknown := applyRequest_unknown (s := p.setting root) (r := r.counted)
    (hpool.trans hcriteria) hbag hname
  have hregistered : root ∈ p.schema.entities := Schema.mem_of_entity hroot
  obtain ⟨_, u, hu⟩ := succeeds_pool (s := p.setting root) hσ hregistered htakes c
  have hbefore : applyBefore (p.setting root) m r.counted before c = (.ok ⟨⟩, u) := hu
  rw [hbefore, ← hsteps] at hunknown
  rw [compile_apply hm hroot (projection_counted hcount)]
  exact bind_error (Compilation.run_error hunknown) _

end Provider

/-- A count takes what a page of the list leaves to the model. It compiles exactly if the model takes
also what the projection of the list consumes; a criterion that the model does not have is
refused. -/
theorem counted_unless_consumed (p : Provider) (hσ : p.schema.validate = .ok ())
    (hp : p.Constant) (model : String) (r : Request) (m : Model) (hm : p.model model = .ok m)
    (middlewares : List Middleware)
    (hcount : m.projections.get? Model.countProjection = some (.done middlewares)) (i j : Nat)
    (q : CompiledQuery) (hq : (Operation.requestList model r).prepare p i = (.ok q, j)) :
    ∃ root projection marked rest uses, p.schema.entity m.entity = .ok root ∧
      m.projection (r.projection.getD p.config.defaultProjection) = .ok projection ∧
      Provider.Settled (p.setting root) m projection r i q marked rest uses ∧
      (∀ entry ∈ Provider.asking rest, Provider.Takes (p.setting root) m entry) ∧
      (∀ k, (∃ q' l, (Operation.count model r).prepare p k = (.ok q', l)) ↔
        ∀ entry ∈ Provider.asking
            (marked.filterMap Prod.snd ++ q.nested.filterMap NestedTask.entry?),
          Provider.Takes (p.setting root) m entry) ∧
      ∀ before name bag after k, r.criteria = before ++ (name, bag) :: after →
        bag.isNull = false → m.criteria.get? name = none →
        (∀ entry ∈ Provider.asking before, Provider.Takes (p.setting root) m entry) →
        ((Operation.count model r).prepare p k).1 = .error (.unknownCriterion name) := by
  have hcompile : p.compile model r i = (.ok q, j) := by
    simp only [Operation.prepare] at hq
    obtain ⟨page, -, hq⟩ := lift_bind_ok hq
    cases page with
    | none => cases hq
    | some page => exact hq
  obtain ⟨m', root, projection, v, hm', hroot, hprojection, hrun, -⟩ :=
    Provider.compile_ok hcompile
  cases hm.symm.trans hm'
  obtain ⟨marked, rest, uses, hsettled⟩ := Provider.settled_of_run hrun
  obtain ⟨b, c, c', hc, -, happlied, -⟩ := hsettled.applied
  obtain ⟨_, _, hselected⟩ := Compilation.selectKey_of_projection hc
  have hkey := Compilation.succeeds_selectKey (s := p.setting root) hσ (Schema.mem_of_entity hroot)
    hselected
  obtain ⟨_, u, -, happlied⟩ := bind_ok happlied
  obtain ⟨_, w, happlied, -⟩ := bind_ok happlied
  have hrest := Provider.takes_of_uses (hp.criteria _ (Provider.mem_of_model hm)) hsettled.chosen
    happlied
  -- what the request asks for was consumed by its projection or is left for the model
  have hasking : ∀ entry, entry ∈ Provider.asking r.criteria ↔
      entry ∈ Provider.asking
        (marked.filterMap Prod.snd ++ q.nested.filterMap NestedTask.entry?) ∨
      entry ∈ Provider.asking rest := by
    intro entry
    unfold Provider.asking
    rw [(hsettled.once.filter _).mem_iff, List.filter_append, List.mem_append]
  refine ⟨root, projection, marked, rest, uses, hroot, hprojection, hsettled, hrest, ?_, ?_⟩
  · intro k
    refine (Provider.count_compiles hσ hp hm hroot hcount hkey k).trans ⟨?_, ?_⟩
    · exact fun h entry hentry => h entry ((hasking entry).2 (.inl hentry))
    · intro h entry hentry
      rcases (hasking entry).1 hentry with hconsumed | hleft
      · exact h entry hconsumed
      · exact hrest entry hleft
  · exact fun before name bag after k hcriteria hbag hname htakes =>
      Provider.count_refuses hσ hm hroot hcount hkey hcriteria hbag hname htakes k

namespace Blog

def paged : Request := Request.empty.withPage (.number 1) (.number 5)

def miscounted : Provider :=
  ⟨schema, .sqlite, .standard,
    [("Post", posts.withProjection Model.countProjection (.column "teaser" "teaser" (.done [])))]⟩

def wavering : Provider :=
  ⟨schema, .sqlite, .standard, [("Post", posts.withCriteria "fashionable" ⟨.and,
    [⟨"title", "title", .equal, some (.computed fun uses =>
      if uses = 1 then .text "Hello" else .list [])⟩]⟩)]⟩

def fault (p : Provider) (op : Operation) (uses : Nat) : Option Error :=
  match (op.prepare p uses).1 with
  | .ok _ => none
  | .error e => some e

end Blog

theorem counted_unless_consumed_blog :
    (∃ q l, (Operation.count "Post" Blog.paged).prepare (Blog.provider .sqlite) 0 = (.ok q, l)) ∧
    ((Operation.count "Post" (Blog.paged.withCriterion "saying" (.text "yes"))).prepare
      (Blog.provider .sqlite) 0).1 = .error (.unknownCriterion "saying") := by
  constructor
  · obtain ⟨q, hq⟩ := ok_of_toBool
      (m := (Operation.requestList "Post" Blog.paged).prepare (Blog.provider .sqlite)) (s := 0)
      (by decide +kernel)
    obtain ⟨root, projection, marked, rest, uses, -, -, hsettled, -, hcounts, -⟩ :=
      counted_unless_consumed (Blog.provider .sqlite) (by decide +kernel) (Blog.constant .sqlite)
        "Post" Blog.paged Blog.posts rfl [] rfl 0 _ q hq
    have hnothing := List.append_eq_nil_iff.1 hsettled.once.nil_eq.symm
    refine (hcounts 0).2 ?_
    rw [hnothing.1]
    exact fun _ h => nomatch h
  · obtain ⟨q, hq⟩ := ok_of_toBool (m := (Operation.requestList "Post"
      (Blog.paged.withCriterion "saying" (.text "yes"))).prepare (Blog.provider .sqlite)) (s := 0)
      (by decide +kernel)
    obtain ⟨root, projection, marked, rest, uses, -, -, -, -, -, hrefuses⟩ :=
      counted_unless_consumed (Blog.provider .sqlite) (by decide +kernel) (Blog.constant .sqlite)
        "Post" (Blog.paged.withCriterion "saying" (.text "yes")) Blog.posts rfl [] rfl 0 _ q hq
    exact hrefuses [] "saying" (.text "yes") [] 0 rfl rfl rfl fun _ h => nomatch h

/-- Pages that compile, and counts that do not: a list has taken the criterion, or it stands in a
join; counts have another projection; a computed value changed. -/
theorem page_without_count :
    Blog.fault (Blog.provider .sqlite) (.requestList "Post"
      (Blog.paged.withCriterion "saying" (.text "yes"))) 0 = none ∧
    Blog.fault (Blog.provider .sqlite) (.count "Post"
      (Blog.paged.withCriterion "saying" (.text "yes"))) 0 = some (.unknownCriterion "saying") ∧
    Blog.fault Blog.signedPosts (.requestList "Post"
      (Blog.paged.withCriterion "author" (.record [("name", .text "Ann")]))) 0 = none ∧
    Blog.fault Blog.signedPosts (.count "Post"
      (Blog.paged.withCriterion "author" (.record [("name", .text "Ann")]))) 0
        = some (.unknownCriterion "author") ∧
    Blog.fault Blog.miscounted (.requestList "Post" Blog.paged) 0 = none ∧
    Blog.fault Blog.miscounted (.count "Post" Blog.paged) 0
      = some (.unknownAttribute "teaser" "Post") ∧
    Blog.fault Blog.wavering (.requestList "Post"
      (Blog.paged.withCriterion "fashionable" (.bool true))) 0 = none ∧
    Blog.fault Blog.wavering (.count "Post"
      (Blog.paged.withCriterion "fashionable" (.bool true))) 1
        = some (.invalidValue "title" .scalarExpected) := by
  refine ⟨?_, ?_, ?_, ?_, ?_, ?_, ?_, ?_⟩ <;> decide +kernel

end RecordQuery
