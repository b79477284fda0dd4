import RecordQuery.Proofs.Criteria.Counting
import RecordQuery.Proofs.Criteria.Quiet
import RecordQuery.Proofs.Transparency

namespace RecordQuery

open Steps

structure Request.Sheds (shed : String → Prop) (r r' : Request) : Prop where
  same : r' = { r with criteria := r'.criteria }
  criteria : r.criteria.Sheds shed r'.criteria

def Criterion.draws (item : Criterion) : Bool :=
  match item.value with
  | some (.computed _) => true
  | _ => false

namespace Compilation

variable {s : Setting} {base : String} {bag : Value} {single : Bool} {spec : CriteriaSpec}
  {c c' : Compilation}

theorem uses_criterion {item : Criterion} {found : Option (Predicate × Bool)}
    (h : criterion s bag single base item c = (.ok found, c')) :
    c'.uses = c.uses + if item.draws then 1 else 0 := by
  have hread : (item.value? bag single c.uses).2 = c.uses + if item.draws then 1 else 0 := by
    unfold Criterion.value? Criterion.draws
    cases item.value with
    | none => rfl
    | some v => cases v <;> rfl
  obtain ⟨value, -, ⟨-, -, -, rfl⟩ | ⟨r, p, -, hr, -, -⟩⟩ := criterion_ok h
  · exact hread
  · exact ((blind_resolve _ _).holds hr).2.2.trans hread

theorem uses_criteria (h : criteria s spec bag base c = (.ok ⟨⟩, c')) :
    c'.uses = c.uses + spec.items.countP Criterion.draws := by
  have hall : ∀ {items : List Criterion} {c u : Compilation} {found},
      items.mapM (criterion s bag (spec.items.length = 1) base) c = (.ok found, u) →
        u.uses = c.uses + items.countP Criterion.draws := by
    intro items
    induction items with
    | nil =>
      intro c u found h
      cases h
      rfl
    | cons item items ih =>
      intro c u found h
      obtain ⟨_, w, rest, hitem, hitems, rfl⟩ := mapM_cons_ok h
      rw [ih hitems, uses_criterion hitem, List.countP_cons, Nat.add_assoc,
        Nat.add_comm (List.countP _ _)]
  obtain ⟨found, u, hfound, hplace⟩ := bind_ok h
  exact ((blind_placeAll _ _).holds hplace).2.2.trans (hall hfound)

end Compilation

/-- Lists in one place: among those of two queries, or inside what lists in one place compile to for
a parent. -/
inductive CompiledQuery.Beside (s : Setting) (q q' : CompiledQuery) : NestedTask → NestedTask → Prop
  | list {t u} : (t, u) ∈ q.nested.zip q'.nested → Beside s q q' t u
  | inside {t u v k x j y l t' u'} : Beside s q q' t u →
    Compilation.nestedQuery s t v k = (.ok x, j) → Compilation.nestedQuery s u v k = (.ok y, l) →
    (t', u') ∈ x.nested.zip y.nested → Beside s q q' t' u'

/-- For every parent, and wherever counting stands, the lists compile to one query, with as many
lists inside, or fail with one error. -/
def NestedTask.Matches (s : Setting) (t u : NestedTask) : Prop :=
  ∀ v k, (Compilation.nestedQuery s t v k).2 = (Compilation.nestedQuery s u v k).2 ∧
    Both (fun x y => y = { x with nested := y.nested } ∧ x.nested.length = y.nested.length)
      (Compilation.nestedQuery s t v k).1 (Compilation.nestedQuery s u v k).1

section

variable {shed : String → Prop} {O : NestedOptions → Prop} {s : Setting} {q q' : CompiledQuery}
  {t u : NestedTask}

theorem CompiledQuery.Beside.sheds (h : q.Beside s q' t u)
    (hq : List.Forall₂ (fun t u => t.Sheds shed u ∧ t.Every O) q.nested q'.nested) :
    t.Sheds shed u ∧ t.Every O := by
  induction h with
  | list htu => exact (List.forall₂_iff_zip.1 hq).2 htu
  | inside _ hx hy htu ih =>
    exact (List.forall₂_iff_zip.1 (Compilation.nested_of_sheds ih.1 ih.2 hx hy)).2 htu

theorem NestedTask.Sheds.matches (h : t.Sheds shed u)
    (ht : t.Every (NestedOptions.Hushed shed)) : t.Matches s u := by
  intro v k
  obtain ⟨huses, hboth⟩ := Compilation.sheds_nestedQuery (s := s) h ht v k k rfl
  exact ⟨huses, hboth.weaken fun _ _ hxy => ⟨hxy.same, hxy.nested.length_eq⟩⟩

end

namespace Provider

variable {shed : String → Prop} {O : NestedOptions → Prop} {p : Provider} {s : Setting} {m : Model}
  {projection : Projection} {model : String} {r r' : Request} {c c' : Compilation}
  {uses : List (CriteriaSpec × Value)} {i v v' : Nat} {q q' : CompiledQuery}

def Steady (p : Provider) : Prop := ∀ m ∈ p.models, ∀ spec ∈ m.2.criteria, spec.2.Steady

def Hushed (shed : String → Prop) (p : Provider) (model : String) (r : Request) : Prop :=
  ∀ m projection, p.model model = .ok m →
    m.projection (r.projection.getD p.config.defaultProjection) = .ok projection →
    projection.Every (fun _ => True) (NestedOptions.Hushed shed)

theorem checkNested_succ (s : Setting) (depth : Nat) (ts : List NestedTask) :
    checkNested s (depth + 1) ts = (ts.forM fun task => do
      let compiled ← Compilation.nestedQuery s task .null
      let _ ← compiled.query.rowStatement s.dialect
      checkNested s depth compiled.nested) := by
  cases ts <;> rfl

theorem sheds_checkNested {depth : Nat} {ts us : List NestedTask}
    (h : List.Forall₂ (fun t u => t.Sheds shed u ∧ t.Every (NestedOptions.Hushed shed)) ts us) :
    Parallel Eq (checkNested s depth ts) (checkNested s depth us) (fun _ _ => True) := by
  induction depth generalizing ts us with
  | zero =>
    cases h with
    | nil => exact parallel_pure trivial
    | cons => exact parallel_throw
  | succ depth ih =>
    rw [checkNested_succ, checkNested_succ]
    apply parallel_forM h
    rintro t u ⟨htu, ht⟩
    apply parallel_bind (Compilation.sheds_nestedQuery htu ht .null)
    intro x y hxy
    have hquery : y.query = x.query := by rw [hxy.same]
    rw [hquery]
    apply parallel_bind (parallel_lift (both_refl (fun _ => rfl) _))
    rintro statement _ rfl
    exact ih hxy.nested

theorem sheds_applyChosen (r : Request) (uses : List (CriteriaSpec × Value)) :
    Parallel (Compilation.Sheds shed O) (applyChosen s m r uses) (applyChosen s m r uses)
      (fun _ _ => True) := by
  apply parallel_bind (blind_applySorts r.sortNames).sheds
  intro _ _ _
  apply parallel_bind (Q := fun _ _ => True)
  · apply parallel_forM (P := Eq)
    · rw [List.forall₂_eq_eq_eq]
    · rintro use _ rfl
      exact (Compilation.sheds_criteria use.1 use.2 "").weaken fun _ _ _ => trivial
  intro _ _ _
  apply parallel_bind (parallel_lift (both_refl (fun _ => rfl) _))
  rintro page _ rfl
  exact (blind_applyPage page).sheds.weaken fun _ _ _ => trivial

theorem uses_applyUses (h : applyUses s uses c = (.ok ⟨⟩, c')) :
    c'.uses = c.uses + (uses.flatMap fun use => use.1.items).countP Criterion.draws := by
  induction uses generalizing c with
  | nil =>
    cases h
    rfl
  | cons use uses ih =>
    obtain ⟨_, u, huse, hrest⟩ := bind_ok h
    rw [ih hrest, Compilation.uses_criteria huse, List.flatMap_cons, List.countP_append,
      Nat.add_assoc]

theorem uses_applyChosen (h : applyChosen s m r uses c = (.ok ⟨⟩, c')) :
    c'.uses = c.uses + (uses.flatMap fun use => use.1.items).countP Criterion.draws := by
  obtain ⟨_, u, hsorted, h⟩ := bind_ok h
  obtain ⟨_, w, happlied, h⟩ := bind_ok h
  obtain ⟨page, -, h⟩ := lift_bind_ok h
  rw [((blind_applyPage page).holds h).2.2, uses_applyUses happlied,
    ((blind_applySorts r.sortNames).holds hsorted).2.2]

/-- Queries of one request: after its projection the model's criteria for what is left of the pool
are applied in the order of the pool, or in another; and lists may be others. -/
inductive Reordered (s : Setting) (m : Model) (projection : Projection) (r : Request) (i : Nat) :
    CompiledQuery → CompiledQuery → Prop
  | intro {b c uses uses' d d' nested} :
    Compilation.projection s projection (.start s r.criteria i) = (.ok b, c) →
    List.Forall₂ (Chosen m) (asking c.pool) uses → uses.Perm uses' →
    applyChosen s m r uses c = (.ok ⟨⟩, d) → applyChosen s m r uses' c = (.ok ⟨⟩, d') →
    Reordered s m projection r i (d.finish s) { d'.finish s with nested }

theorem chosen_unique : Relator.RightUnique (Chosen m) := by
  rintro entry ⟨spec, bag⟩ ⟨spec', bag'⟩ ⟨hspec, hbag⟩ ⟨hspec', hbag'⟩
  dsimp only at hspec hbag hspec' hbag'
  rw [hspec] at hspec'
  cases hspec'
  rw [hbag, hbag']

theorem run_of_sheds (h : r.Sheds shed r') (hp : projection.Every (fun _ => True) O)
    (hq : Compilation.run s r.criteria (compileSteps s m projection r) i = (.ok q, v))
    (hq' : Compilation.run s r'.criteria (compileSteps s m projection r') i = (.ok q', v')) :
    v = v' ∧ Reordered s m projection r i q q' ∧
      List.Forall₂ (fun t u => t.Sheds shed u ∧ t.Every O) q.nested q'.nested := by
  obtain ⟨d, hd, rfl, rfl⟩ := Compilation.run_ok hq
  obtain ⟨d', hd', rfl, rfl⟩ := Compilation.run_ok hq'
  obtain ⟨b, c, hc, happlied⟩ := bind_ok hd
  obtain ⟨b', c', hc', happlied'⟩ := bind_ok hd'
  have hstart : Compilation.Sheds shed O (.start s r.criteria i) (.start s r'.criteria i) :=
    Compilation.sheds_start h.criteria i
  have hprojection := (Compilation.sheds_projection (s := s) hp _ _ hstart).1
  rw [hc, hc'] at hprojection
  obtain ⟨uses, huses, hchosen⟩ := applyRequest_ok happlied
  obtain ⟨uses', huses', hchosen'⟩ := applyRequest_ok happlied'
  have hsame : applyChosen s m r' uses' = applyChosen s m r uses' := by
    rw [h.same]
    rfl
  rw [hsame] at hchosen'
  -- both pools ask for the same criteria, but for their order
  obtain ⟨uses'', huses'', hperm⟩ := List.perm_comp_forall₂ hprojection.pool.asking huses'
  cases List.right_unique_forall₂' chosen_unique huses huses''
  have hboth := sheds_applyChosen (s := s) (m := m) r uses' c c' hprojection
  rw [hchosen'] at hboth
  rcases hagain : applyChosen s m r uses' c with ⟨x, e⟩
  rw [hagain] at hboth
  cases x with
  | error e => exact hboth.2.elim
  | ok =>
    have hsheds : Compilation.Sheds shed O e d' := hboth.1
    refine ⟨?_, ?_, ?_⟩
    -- a computed value is used once, wherever its turn comes
    · rw [uses_applyChosen hchosen, hsheds.uses, uses_applyChosen hagain,
        (hperm.flatMap_right _).countP_eq]
    · have hfinish : d'.finish s = { e.finish s with nested := d'.nested } := by
        rw [hsheds.same]
        rfl
      rw [hfinish]
      exact .intro hc huses hperm hchosen hagain
    · change List.Forall₂ _ d.nested d'.nested
      rw [(Compilation.amended_of_ok amended_applyRequest happlied).holds.1,
        (Compilation.amended_of_ok amended_applyRequest happlied').holds.1]
      exact hprojection.nested

theorem run_succeeds_of_sheds (h : r.Sheds shed r') (hp : projection.Every (fun _ => True) O)
    (hσ : s.schema.validate = .ok ()) (hroot : s.root ∈ s.schema.entities)
    (hm : ∀ spec ∈ m.criteria, spec.2.Steady) :
    (∃ q v, Compilation.run s r.criteria (compileSteps s m projection r) i = (.ok q, v)) ↔
      ∃ q v, Compilation.run s r'.criteria (compileSteps s m projection r') i = (.ok q, v) := by
  have hstart : Compilation.Sheds shed O (.start s r.criteria i) (.start s r'.criteria i) :=
    Compilation.sheds_start h.criteria i
  obtain ⟨hsheds, hboth⟩ := Compilation.sheds_projection (s := s) hp _ _ hstart
  rw [run_succeeds_iff, run_succeeds_iff]
  unfold compileSteps
  rw [bind_apply, bind_apply]
  rcases hc : Compilation.projection s projection (.start s r.criteria i) with ⟨x, c⟩
  rcases hc' : Compilation.projection s projection (.start s r'.criteria i) with ⟨y, c'⟩
  rw [hc, hc'] at hsheds hboth
  cases x with
  | error e =>
    cases y with
    | error e' => constructor <;> rintro ⟨_, hfail⟩ <;> cases hfail
    | ok b => exact hboth.elim
  | ok b =>
    cases y with
    | error e' => exact hboth.elim
    | ok b' =>
      have hsheds : Compilation.Sheds shed O c c' := hsheds
      have hsorted := (blind_applySorts (s := s) (m := m) r.sortNames).sheds.succeeds_iff hsheds
      have hnames : r'.sortNames = r.sortNames := by rw [h.same]; rfl
      have hpage : r'.pageParams = r.pageParams := by rw [h.same]; rfl
      change (∃ d, applyRequest s m r c = (.ok ⟨⟩, d)) ↔ ∃ d, applyRequest s m r' c' = (.ok ⟨⟩, d)
      -- whether the criteria apply does not depend on their order
      rw [applyRequest_succeeds_iff hσ hroot hm, applyRequest_succeeds_iff hσ hroot hm, hnames,
        hpage]
      refine and_congr hsorted (and_congr_left' ?_)
      exact forall_congr' fun entry => by rw [hsheds.pool.asking.mem_iff]

theorem compile_succeeds_of_sheds (h : r.Sheds shed r') (hσ : p.schema.validate = .ok ())
    (hp : p.Steady) (hhushed : p.Hushed shed model r) :
    (∃ q j, p.compile model r i = (.ok q, j)) ↔ ∃ q j, p.compile model r' i = (.ok q, j) := by
  have hname : r'.projection = r.projection := by rw [h.same]
  have hnamed : ∀ m root projection, p.model model = .ok m →
      p.schema.entity m.entity = .ok root →
      m.projection (r.projection.getD p.config.defaultProjection) = .ok projection →
      ((∃ q j, p.compile model r i = (.ok q, j)) ↔ ∃ q j, p.compile model r' i = (.ok q, j)) := by
    intro m root projection hm hroot hprojection
    have hprojection' : m.projection (r'.projection.getD p.config.defaultProjection)
        = .ok projection := by rw [hname, hprojection]
    have hevery := hhushed m projection hm hprojection
    have hruns := run_succeeds_of_sheds (s := p.setting root) (i := i) h hevery hσ
      (Schema.mem_of_entity hroot) (hp (model, m) (mem_of_model hm))
    have hchecks : ∀ {q v q' v'},
        Compilation.run (p.setting root) r.criteria
          (compileSteps (p.setting root) m projection r) i = (.ok q, v) →
        Compilation.run (p.setting root) r'.criteria
          (compileSteps (p.setting root) m projection r') i = (.ok q', v') →
        ((∃ j, checkNested (p.setting root) projection.depth q.nested v = (.ok ⟨⟩, j)) ↔
          ∃ j, checkNested (p.setting root) projection.depth q'.nested v' = (.ok ⟨⟩, j)) := by
      intro q v q' v' hq hq'
      obtain ⟨rfl, -, hnested⟩ := run_of_sheds h hevery hq hq'
      exact (sheds_checkNested hnested).succeeds_iff rfl
    rw [compile_succeeds_iff hm hroot hprojection, compile_succeeds_iff hm hroot hprojection']
    constructor
    · rintro ⟨q, v, hq, hcheck⟩
      obtain ⟨q', v', hq'⟩ := hruns.1 ⟨q, v, hq⟩
      exact ⟨q', v', hq', (hchecks hq hq').1 hcheck⟩
    · rintro ⟨q', v', hq', hcheck⟩
      obtain ⟨q, v, hq⟩ := hruns.2 ⟨q', v', hq'⟩
      exact ⟨q, v, hq, (hchecks hq hq').2 hcheck⟩
  constructor
  · rintro ⟨q, j, hq⟩
    obtain ⟨m, root, projection, _, hm, hroot, hprojection, -⟩ := compile_ok hq
    exact (hnamed m root projection hm hroot hprojection).1 ⟨q, j, hq⟩
  · rintro ⟨q, j, hq⟩
    obtain ⟨m, root, projection, _, hm, hroot, hprojection, -⟩ := compile_ok hq
    rw [hname] at hprojection
    exact (hnamed m root projection hm hroot hprojection).2 ⟨q, j, hq⟩

theorem compile_both {j j' : Nat} (h : r.Sheds shed r') (hq : p.compile model r i = (.ok q, j))
    (hq' : p.compile model r' i = (.ok q', j')) :
    ∃ m root projection v v', p.model model = .ok m ∧ p.schema.entity m.entity = .ok root ∧
      m.projection (r.projection.getD p.config.defaultProjection) = .ok projection ∧
      Compilation.run (p.setting root) r.criteria
        (compileSteps (p.setting root) m projection r) i = (.ok q, v) ∧
      Compilation.run (p.setting root) r'.criteria
        (compileSteps (p.setting root) m projection r') i = (.ok q', v') ∧
      checkNested (p.setting root) projection.depth q.nested v = (.ok ⟨⟩, j) ∧
      checkNested (p.setting root) projection.depth q'.nested v' = (.ok ⟨⟩, j') := by
  obtain ⟨m, root, projection, v, hm, hroot, hprojection, hrun, hcheck⟩ := compile_ok hq
  obtain ⟨m', root', projection', v', hm', hroot', hprojection', hrun', hcheck'⟩ := compile_ok hq'
  have hname : r'.projection = r.projection := by rw [h.same]
  rw [hname] at hprojection'
  cases hm.symm.trans hm'
  cases hroot.symm.trans hroot'
  cases hprojection.symm.trans hprojection'
  exact ⟨m, root, projection, v, v', hm, hroot, hprojection, hrun, hrun', hcheck, hcheck'⟩

end Provider

/-- Without some of its null bags a request compiles to the query of the same criteria of the model,
if perhaps in another order, and to lists in the same places. A list that took null is asked for
more than one that took nothing, unless its criteria are quiet. If they are quiet wherever null is
shed, then the requests compile or fail together, and the lists match at every depth. -/
theorem null_bags_absent (p : Provider) (hσ : p.schema.validate = .ok ()) (model : String)
    (r r' : Request) (shed : String → Prop) (h : r.Sheds shed r') (i : Nat) :
    (∀ q j q' j', p.compile model r i = (.ok q, j) → p.compile model r' i = (.ok q', j') →
      ∃ m root projection, p.model model = .ok m ∧ p.schema.entity m.entity = .ok root ∧
        m.projection (r.projection.getD p.config.defaultProjection) = .ok projection ∧
        Provider.Reordered (p.setting root) m projection r i q q' ∧
        q.nested.length = q'.nested.length ∧
        ∀ t u, q.Beside (p.setting root) q' t u → t.Sheds shed u ∧
          ∀ k, t.options.criteria = some k → t.criteria = some .null → u.criteria = none →
            ∀ v n x a y b, Compilation.nestedQuery (p.setting root) t v n = (.ok x, a) →
              Compilation.nestedQuery (p.setting root) u v n = (.ok y, b) →
              ∃ added, x.query.source.conjuncts = y.query.source.conjuncts ++ added ∧
                (added = [] ↔ k.spec.Quiet)) ∧
    (p.Hushed shed model r →
      (p.Steady →
        ((∃ q j, p.compile model r i = (.ok q, j)) ↔ ∃ q j, p.compile model r' i = (.ok q, j))) ∧
      ∀ q j q' j', p.compile model r i = (.ok q, j) → p.compile model r' i = (.ok q', j') →
        j = j' ∧ ∀ root, p.schema.entity q.entity = .ok root →
          ∀ t u, q.Beside (p.setting root) q' t u → t.Matches (p.setting root) u) := by
  refine ⟨?_, fun hhushed => ⟨fun hp => Provider.compile_succeeds_of_sheds h hσ hp hhushed, ?_⟩⟩
  · intro q j q' j' hq hq'
    obtain ⟨m, root, projection, v, v', hm, hroot, hprojection, hrun, hrun', -⟩ :=
      Provider.compile_both h hq hq'
    obtain ⟨-, hreordered, hnested⟩ := Provider.run_of_sheds (O := fun _ => True) h
      (projection.every_of (fun _ => trivial) fun _ => trivial) hrun hrun'
    refine ⟨m, root, projection, hm, hroot, hprojection, hreordered, hnested.length_eq, ?_⟩
    intro t u htu
    have hsheds := (htu.sheds hnested).1
    exact ⟨hsheds, fun k hk hnull hnone v n x a y b hx hy =>
      Compilation.conjuncts_of_null hsheds hk hnull hnone hx hy⟩
  · intro q j q' j' hq hq'
    obtain ⟨m, root, projection, v, v', hm, hroot, hprojection, hrun, hrun', hcheck, hcheck'⟩ :=
      Provider.compile_both h hq hq'
    obtain ⟨rfl, -, hnested⟩ :=
      Provider.run_of_sheds h (hhushed m projection hm hprojection) hrun hrun'
    -- lists with quiet criteria are checked alike, so the counting ends at one number
    have hchecks : Parallel Eq (Provider.checkNested (p.setting root) projection.depth q.nested)
        (Provider.checkNested (p.setting root) projection.depth q'.nested) (fun _ _ => True) :=
      Provider.sheds_checkNested hnested
    have hsame := (hchecks v v rfl).1
    rw [hcheck, hcheck'] at hsame
    refine ⟨hsame, ?_⟩
    intro root' hroot' t u htu
    obtain ⟨c, -, rfl, -⟩ := Compilation.run_ok hrun
    have hentity : p.schema.entity (c.finish (p.setting root)).entity = .ok root :=
      Schema.entity_name hroot
    cases hentity.symm.trans hroot'
    obtain ⟨hsheds, hevery⟩ := htu.sheds hnested
    exact hsheds.matches hevery

namespace Blog

def praisingModel : Model :=
  (((Model.ofEntity "Post").withProjection "default" praised).withCriteria "titled"
    (.single "title" "title" .equal)).withCriteria "author" (.single "name" "author.name" .equal)

def praising : Provider := ⟨schema, .sqlite, .standard, [("Post", praisingModel)]⟩

def greetings : Request :=
  ((Request.empty.withCriterion "praise" (.record [])).withCriterion "titled"
    (.text "Hello")).withCriterion "author" (.text "Ann")

def greetingsAndNull : Request := greetings.withCriterion "missing" .null

theorem sheds_greetings : greetingsAndNull.Sheds (· = "missing") greetings where
  same := rfl
  criteria :=
    { distinct := by decide
      perm := ⟨[("missing", .null)], List.perm_append_singleton _ greetings.criteria, by simp⟩ }

theorem sheds_praiseRequest : praiseRequest.Sheds (· = "praise") .empty where
  same := rfl
  criteria := { distinct := by decide, perm := ⟨[("praise", .null)], .refl _, by simp⟩ }

theorem steady_praising : praising.Steady := by
  have hnone : ∀ spec ∈ praisingModel.criteria, ∀ item ∈ spec.2.items,
      item.value.isNone = true := by
    decide
  intro m hm spec hspec item hitem compute hvalue
  rw [List.mem_singleton.1 hm] at hspec
  have h := hnone spec hspec item hitem
  rw [hvalue] at h
  cases h

theorem hushed_greetings : praising.Hushed (· = "missing") "Post" greetingsAndNull := by
  intro m projection hm hprojection
  cases hm
  cases hprojection
  refine ⟨?_, trivial, trivial⟩
  rintro k ⟨rfl⟩ hname
  exact absurd hname (by decide)

open Compilation in
theorem praised_null : ∃ q j t bag k x a, praising.compile "Post" praiseRequest 0 = (.ok q, j) ∧
    q.nested = [t] ∧ t.criteria = some bag ∧ t.options.criteria = some k ∧
    k.spec.items.length = 1 ∧ nestedQuery (praising.setting post) t .null 0 = (.ok x, a) := by
  have hlists : (praising.compile "Post" praiseRequest 0).1.toOption.map (fun q =>
      q.nested.map fun t => (t.criteria.isSome,
        t.options.criteria.map (fun k => k.spec.items.length),
        (nestedQuery (praising.setting post) t .null 0).1.toOption.isSome))
      = some [(true, some 1, true)] := by
    decide +kernel
  obtain ⟨q, hq, hlists⟩ := Option.map_eq_some_iff.1 hlists
  obtain ⟨j, hq⟩ := ok_of_toOption hq
  obtain ⟨t, hqt, ht⟩ := List.map_eq_singleton_iff.1 hlists
  simp only [Prod.mk.injEq, Option.isSome_iff_exists, Option.map_eq_some_iff] at ht
  obtain ⟨⟨bag, hbag⟩, ⟨k, hk, hone⟩, x, hx⟩ := ht
  obtain ⟨a, hx⟩ := ok_of_toOption hx
  exact ⟨q, j, t, bag, k, x, a, hq, hqt, hbag, hk, hone, hx⟩

open Compilation in
theorem praised_nothing : ∃ q j u y b, praising.compile "Post" .empty 0 = (.ok q, j) ∧
    q.nested = [u] ∧ u.criteria = none ∧
    nestedQuery (praising.setting post) u .null 0 = (.ok y, b) := by
  have hlists : (praising.compile "Post" .empty 0).1.toOption.map (fun q =>
      q.nested.map fun u => (u.criteria.isNone,
        (nestedQuery (praising.setting post) u .null 0).1.toOption.isSome))
      = some [(true, true)] := by
    decide +kernel
  obtain ⟨q, hq, hlists⟩ := Option.map_eq_some_iff.1 hlists
  obtain ⟨j, hq⟩ := ok_of_toOption hq
  obtain ⟨u, hqu, hu⟩ := List.map_eq_singleton_iff.1 hlists
  simp only [Prod.mk.injEq, Option.isSome_iff_exists, Option.isNone_iff_eq_none] at hu
  obtain ⟨hnone, y, hy⟩ := hu
  obtain ⟨b, hy⟩ := ok_of_toOption hy
  exact ⟨q, j, u, y, b, hq, hqu, hnone, hy⟩

def wheres (q : CompiledQuery) : List String :=
  q.query.source.conjuncts.map fun d => d.fragment.sql

end Blog

open Blog Compilation in
theorem null_bags_absent_blog :
    schema.validate = .ok () ∧ praising.Steady ∧
    (∃ q q' j, praising.compile "Post" greetingsAndNull 0 = (.ok q, j) ∧
      praising.compile "Post" greetings 0 = (.ok q', j) ∧
      wheres q = ["post_1.title = ?", "author_2.user_name = ?"] ∧
      wheres q' = ["author_2.user_name = ?", "post_1.title = ?"] ∧
      ∀ t u, q.Beside (praising.setting post) q' t u → t.Matches (praising.setting post) u) ∧
    ∃ q q' j j' t u x y a b, praising.compile "Post" praiseRequest 0 = (.ok q, j) ∧
      praising.compile "Post" .empty 0 = (.ok q', j') ∧
      q.Beside (praising.setting post) q' t u ∧
      nestedQuery (praising.setting post) t .null 0 = (.ok x, a) ∧
      nestedQuery (praising.setting post) u .null 0 = (.ok y, b) ∧
      x.query.source.conjuncts ≠ y.query.source.conjuncts := by
  have hvalid : schema.validate = .ok () := by decide +kernel
  refine ⟨hvalid, steady_praising, ?_, ?_⟩
  · have hwheres : (praising.compile "Post" greetingsAndNull 0).1.toOption.map wheres
        = some ["post_1.title = ?", "author_2.user_name = ?"] := by
      decide +kernel
    have hwheres' : (praising.compile "Post" greetings 0).1.toOption.map wheres
        = some ["author_2.user_name = ?", "post_1.title = ?"] := by
      decide +kernel
    obtain ⟨hsame, hhushed⟩ := null_bags_absent praising hvalid "Post" greetingsAndNull greetings
      (· = "missing") sheds_greetings 0
    obtain ⟨htogether, hmatches⟩ := hhushed hushed_greetings
    obtain ⟨q', hq', hwheres'⟩ := Option.map_eq_some_iff.1 hwheres'
    obtain ⟨j', hq'⟩ := ok_of_toOption hq'
    obtain ⟨q, j, hq⟩ := (htogether steady_praising).2 ⟨q', j', hq'⟩
    obtain ⟨rfl, hlists⟩ := hmatches q j q' j' hq hq'
    obtain ⟨m, root, projection, hm, hroot, -, hreordered, -⟩ := hsame q j q' j hq hq'
    cases hm
    cases hroot
    rw [hq] at hwheres
    have hentity : praising.schema.entity q.entity = .ok post := by
      cases hreordered
      rfl
    exact ⟨q, q', j, hq, hq', Option.some.inj hwheres, hwheres', hlists post hentity⟩
  · obtain ⟨q, j, t, bag, k, x, a, hq, hqt, hbag, hk, hone, hx⟩ := praised_null
    obtain ⟨q', j', u, y, b, hq', hqu, hnone, hy⟩ := praised_nothing
    obtain ⟨hsame, -⟩ := null_bags_absent praising hvalid "Post" praiseRequest .empty
      (· = "praise") sheds_praiseRequest 0
    obtain ⟨m, root, projection, hm, hroot, -, -, -, hbeside⟩ := hsame q j q' j' hq hq'
    cases hm
    cases hroot
    have htu : q.Beside (praising.setting post) q' t u := by
      apply CompiledQuery.Beside.list
      rw [hqt, hqu]
      exact List.mem_singleton_self (t, u)
    obtain ⟨hsheds, hadded⟩ := hbeside t u htu
    refine ⟨q, q', j, j', t, u, x, y, a, b, hq, hq', htu, hx, hy, ?_⟩
    have hnull : t.criteria = some .null := by
      rcases hsheds.criteria with hcriteria | ⟨hnull, -⟩
      · rw [hbag, hnone] at hcriteria
        cases hcriteria
      · exact hnull
    obtain ⟨added, hconjuncts, hquiet⟩ := hadded k hk hnull hnone .null 0 x a y b hx hy
    intro heq
    rw [heq, List.self_eq_append_right] at hconjuncts
    exact (hquiet.1 hconjuncts).several hone

end RecordQuery
