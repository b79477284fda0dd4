import RecordQuery.Proofs.Emission.Action
import RecordQuery.Provider.Compile

namespace RecordQuery

open Steps

variable {N : String → Prop} {B : QueryPair → Prop} {T : Projection → Prop}

theorem Model.mem_of_projection {m : Model} {name : String} {projection : Projection}
    (h : m.projection name = .ok projection) : (name, projection) ∈ m.projections := by
  unfold Model.projection at h
  cases hget : m.projections.get? name with
  | none =>
    rw [hget] at h
    cases h
  | some projection' =>
    rw [hget] at h
    cases h
    exact Fields.mem_of_get? hget

namespace Compilation

variable {s : Setting} {pool : Pool} {uses uses' : Nat} {q : CompiledQuery}

theorem run_ok {steps : Steps Compilation Unit} (h : run s pool steps uses = (.ok q, uses')) :
    ∃ c, steps (start s pool uses) = (.ok (), c) ∧ q = c.finish s ∧ uses' = c.uses := by
  unfold run at h
  rcases hsteps : steps (start s pool uses) with ⟨x, c⟩
  rw [hsteps] at h
  cases x with
  | error e => cases h
  | ok a =>
    cases h
    exact ⟨c, rfl, rfl, rfl⟩

theorem run_error {steps : Steps Compilation Unit} {e : Error}
    (h : (steps (start s pool uses)).1 = .error e) : (run s pool steps uses).1 = .error e := by
  unfold run
  rcases hsteps : steps (start s pool uses) with ⟨x, c⟩
  rw [hsteps] at h
  cases h
  rfl

theorem built_run {steps : Steps Compilation Unit} (hs : s.Names N)
    (hm : Maintains (Formed N (QueryPair.Built s.dialect N) T) steps fun _ => True)
    (h : run s pool steps uses = (.ok q, uses')) :
    q.query.Built s.dialect N ∧ ∀ t ∈ q.nested, T t.inner := by
  obtain ⟨c, hc, rfl, -⟩ := run_ok h
  have hformed := (hm _ (formed_start hs pool uses)).1
  rw [hc] at hformed
  exact ⟨hformed.query, hformed.nested⟩

theorem built_nestedQuery (hs : s.Names N) {task : NestedTask} (hp : task.inner.Charsets N)
    (ht : task.inner.Lists T) {parentId : Value}
    (h : nestedQuery s task parentId uses = (.ok q, uses')) :
    q.query.Built s.dialect N ∧ ∀ t ∈ q.nested, T t.inner :=
  built_run hs
    (maintains_nestedSteps hs QueryPair.shaped_built QueryPair.fielded_built hp ht parentId) h

end Compilation

namespace Provider

variable {p : Provider} {model : String} {r : Request} {q : CompiledQuery}

structure Names (N : String → Prop) (p : Provider) : Prop where
  entities : ∀ e ∈ p.schema.entities, e.Names N
  projections : ∀ m ∈ p.models, ∀ projection ∈ m.2.projections, projection.2.Charsets N

inductive Serves (p : Provider) : CompiledQuery → Prop
  | request {model r uses q uses'} : p.compile model r uses = (.ok q, uses') → Serves p q
  | nested {q root task parentId uses q' uses'} : Serves p q →
    p.schema.entity q.entity = .ok root → task ∈ q.nested →
    Compilation.nestedQuery (p.setting root) task parentId uses = (.ok q', uses') → Serves p q'

theorem compile_ok {uses uses' : Nat} (h : p.compile model r uses = (.ok q, uses')) :
    ∃ m root projection v, p.model model = .ok m ∧ p.schema.entity m.entity = .ok root ∧
      m.projection (r.projection.getD p.config.defaultProjection) = .ok projection ∧
      Compilation.run (p.setting root) r.criteria (compileSteps (p.setting root) m projection r)
        uses = (.ok q, v) ∧
      checkNested (p.setting root) projection.depth q.nested v = (.ok (), uses') := by
  unfold compile at h
  obtain ⟨m, hm, h⟩ := lift_bind_ok h
  obtain ⟨root, hroot, h⟩ := lift_bind_ok h
  obtain ⟨projection, hprojection, h⟩ := lift_bind_ok h
  obtain ⟨q', v, hrun, h⟩ := bind_ok h
  obtain ⟨_, w, hcheck, h⟩ := bind_ok h
  cases h
  exact ⟨m, root, projection, v, hm, hroot, hprojection, hrun, hcheck⟩

theorem maintains_applyRequest {s : Setting} {m : Model} (hs : s.Names N)
    (hB : QueryPair.Shaped s.dialect N B) :
    Maintains (Compilation.Formed N B T) (applyRequest s m r) (fun _ => True) := by
  apply maintains_bind (Q := fun _ => True)
  · apply maintains_forM
    intro name _
    apply maintains_bind (maintains_lift (Q := fun _ => True) fun _ _ => trivial)
    intro order _
    exact Compilation.maintains_sort hs hB "" order
  intro _ _
  apply maintains_bind maintains_get
  intro c _
  apply maintains_bind (Q := fun _ => True)
  · apply maintains_forM
    rintro ⟨name, bag⟩ _
    apply maintains_ite
    · exact fun _ => maintains_pure trivial
    · intro _
      apply maintains_bind (maintains_lift (Q := fun _ => True) fun _ _ => trivial)
      intro spec _
      exact Compilation.maintains_criteria hs hB spec bag ""
  intro _ _
  apply maintains_bind (maintains_lift (Q := fun _ => True) fun _ _ => trivial)
  intro page _
  cases page with
  | none => exact maintains_pure trivial
  | some page => exact Compilation.maintains_setPage hB page

theorem built_compileSteps {s : Setting} {m : Model} {projection : Projection} {uses uses' : Nat}
    (hs : s.Names N) (hc : projection.Charsets N) (ht : projection.Lists T)
    (h : Compilation.run s r.criteria (compileSteps s m projection r) uses = (.ok q, uses')) :
    q.query.Built s.dialect N ∧ ∀ t ∈ q.nested, T t.inner := by
  apply Compilation.built_run hs _ h
  apply maintains_bind
    (Compilation.maintains_projection hs QueryPair.shaped_built QueryPair.fielded_built hc ht)
  intro _ _
  exact maintains_applyRequest hs QueryPair.shaped_built

theorem names_setting (hp : p.Names N) {name : String} {root : Entity}
    (h : p.schema.entity name = .ok root) : (p.setting root).Names N :=
  ⟨hp.entities, hp.entities root (Schema.mem_of_entity h)⟩

theorem get?_of_model {m : Model} (h : p.model model = .ok m) :
    p.models.get? model = some m := by
  unfold Provider.model at h
  cases hget : p.models.get? model with
  | none =>
    rw [hget] at h
    cases h
  | some m' =>
    rw [hget] at h
    cases h
    rfl

theorem mem_of_model {m : Model} (h : p.model model = .ok m) : (model, m) ∈ p.models :=
  Fields.mem_of_get? (get?_of_model h)

theorem charsets_projection (hp : p.Names N) {m : Model} {name : String} {projection : Projection}
    (hm : p.model model = .ok m) (h : m.projection name = .ok projection) :
    projection.Charsets N :=
  hp.projections _ (mem_of_model hm) _ (Model.mem_of_projection h)

theorem built_of_serves (hp : p.Names N) (h : p.Serves q) :
    q.query.Built p.dialect N ∧ ∀ t ∈ q.nested, t.inner.Charsets N := by
  induction h with
  | request h =>
    obtain ⟨m, root, projection, v, hm, hroot, hprojection, hrun, -⟩ := compile_ok h
    have hc := charsets_projection hp hm hprojection
    exact built_compileSteps (names_setting hp hroot) hc hc.lists hrun
  | nested _ hroot ht hn ih =>
    have hc := ih.2 _ ht
    exact Compilation.built_nestedQuery (names_setting hp hroot) hc hc.lists hn

end Provider

namespace Blog

def user : Entity :=
  ((Entity.ofTable "User" "users").withPrimaryKey ⟨"id", "id", .bigInt⟩).withAttribute
    ⟨"name", "user_name", .text⟩

def comment : Entity :=
  (((Entity.ofTable "Comment" "comments").withPrimaryKey ⟨"id", "id", .bigInt⟩).withAttribute
    ⟨"body", "body", .text⟩).withSoftDelete Entity.defaultDeletedColumn

def post : Entity :=
  ((((Entity.ofTable "Post" "posts").withPrimaryKey ⟨"id", "id", .bigInt⟩).withAttribute
    ⟨"title", "title", .text⟩).withAssociation
    ⟨"author", .belongsTo, "User", "author_id", none, none⟩).withAssociation
    ⟨"comments", .hasMany, "Comment", "post_id", none, none⟩

def schema : Schema where
  entities := [user, post, comment]
  distinct := by decide
  keyed := by decide

def listing : Projection :=
  .column "title" "title" (.field "comments.$id" ⟨"count", some .count, .left, none⟩
    (.list "comments" ⟨"comments", some (.single "$id" .asc),
      some ⟨"saying", .single "body" "body" .like⟩, .left⟩
      (.column "body" "body" (.done [])) (.done [])))

def posts : Model :=
  (((Model.ofEntity "Post").withProjection "default" listing).withCriteria "author"
    (.single "name" "author.name" .equal)).withCriteria "discussed"
    (.single "body" "comments.body" .equal)

def provider (δ : Dialect) : Provider := ⟨schema, δ, .standard, [("Post", posts)]⟩

def request : Request :=
  (((Request.empty.withCriterion "author" (.text "Ann?")).withCriterion "discussed"
    (.text "'yes'")).withCriterion "saying" (.text "100%")).withPage (.number 2) (.number 10)

end Blog

end RecordQuery
