import RecordQuery.Proofs.Caching.Serving
import RecordQuery.Proofs.Emission.Grouping
import RecordQuery.Proofs.Evolution
import RecordQuery.Proofs.NestedCheck

namespace RecordQuery

open Steps

inductive Operation
  | list (model : String) (r : Request)
  | single (model : String) (r : Request)
  | requestList (model : String) (r : Request)
  | count (model : String) (r : Request)

namespace Operation

def prepare (p : Provider) : Operation → Steps Nat CompiledQuery
  | .list model r => p.compile model r
  | .single model r => p.compile model r
  | .requestList model r => do
    let some _ ← r.pageParams | throw (.invalidPage .sizeRequired)
    p.compile model r
  | .count model r => p.compile model
      { Request.empty with projection := some Model.countProjection, criteria := r.criteria }

def serve (p : Provider) (backend : Backend) : Operation → Steps Session Unit
  | .list model r => do let _ ← p.list backend model r
  | .single model r => do let _ ← p.single backend model r
  | .requestList model r => do let _ ← p.requestList backend model r
  | .count model r => do let _ ← p.count backend model r

end Operation

def Backend.Faults (backend : Backend) (e : Error) : Prop :=
  (∃ statement, backend statement = .error e) ∨ e = .noCount

namespace Provider

variable {α β γ : Type} {E F : Error → Prop} {p : Provider} {backend : Backend} {model : String}
  {r : Request} {q q' : CompiledQuery} {e : Error} {execute : Execute}

/-- The steps take no statement back, and fail with errors in `E` only. -/
def FailsIn (E : Error → Prop) (m : Steps Session α) : Prop :=
  ∀ s, s.log <+: (m s).2.log ∧ ∀ e, (m s).1 = .error e → E e

def Sends (m : Steps Session α) : Prop :=
  ∀ s, ∃ statement more, (m s).2.log = s.log ++ statement :: more

section FailsIn

theorem failsIn_pure (a : α) : FailsIn E (pure a) :=
  fun _ => ⟨List.prefix_rfl, fun _ he => nomatch he⟩

theorem failsIn_throw (h : E e) : FailsIn E (throw e : Steps Session α) :=
  fun _ => ⟨List.prefix_rfl, fun _ he => Except.error.inj he ▸ h⟩

theorem failsIn_modify {f : Session → Session} (h : ∀ s, (f s).log = s.log) :
    FailsIn E (modify f) :=
  fun s => ⟨(h s).symm ▸ List.prefix_rfl, fun _ he => nomatch he⟩

theorem FailsIn.weaken {m : Steps Session α} (hm : FailsIn E m) (h : ∀ e, E e → F e) :
    FailsIn F m :=
  fun s => ⟨(hm s).1, fun e he => h e ((hm s).2 e he)⟩

theorem failsIn_bind {m : Steps Session α} {f : α → Steps Session β} (hm : FailsIn E m)
    (hf : ∀ a, FailsIn E (f a)) : FailsIn E (m >>= f) := by
  intro s
  have h := hm s
  rw [bind_apply]
  rcases hx : m s with ⟨x, t⟩
  rw [hx] at h
  cases x with
  | error e =>
    refine ⟨h.1, ?_⟩
    rintro _ ⟨rfl⟩
    exact h.2 e rfl
  | ok a => exact ⟨h.1.trans (hf a t).1, (hf a t).2⟩

theorem failsIn_mapM {xs : List γ} {f : γ → Steps Session α} (h : ∀ x ∈ xs, FailsIn E (f x)) :
    FailsIn E (xs.mapM f) := by
  induction xs with
  | nil => exact failsIn_pure []
  | cons x xs ih =>
    rw [List.mapM_cons]
    apply failsIn_bind (h x List.mem_cons_self)
    intro a
    apply failsIn_bind (ih fun y hy => h y (List.mem_cons_of_mem x hy))
    exact fun as => failsIn_pure (a :: as)

theorem failsIn_loaded (rows : List Record) : FailsIn E (loaded rows) :=
  fun _ => ⟨List.prefix_rfl, fun _ he => nomatch he⟩

theorem failsIn_store (model key : String) (list : Loaded) : FailsIn E (store model key list) := by
  apply failsIn_modify
  intro s
  split <;> rfl

theorem sends_bind {m : Steps Session α} {f : α → Steps Session β} (hm : Sends m)
    (hf : ∀ a, FailsIn E (f a)) : Sends (m >>= f) := by
  intro s
  obtain ⟨statement, more, hlog⟩ := hm s
  rw [bind_apply]
  rcases hx : m s with ⟨x, t⟩
  rw [hx] at hlog
  cases x with
  | error e => exact ⟨statement, more, hlog⟩
  | ok a =>
    obtain ⟨later, hlater⟩ := (hf a t).1
    refine ⟨statement, more ++ later, ?_⟩
    change ((f a t).2).log = _
    rw [← hlater, hlog, List.append_assoc, List.cons_append]

theorem fetch_apply (backend : Backend) (statement : Statement) (s : Session) :
    fetch backend statement s = (backend statement, { s with log := s.log ++ [statement] }) := rfl

theorem sends_fetch (statement : Statement) : Sends (fetch backend statement) :=
  fun _ => ⟨statement, [], rfl⟩

theorem failsIn_fetch (statement : Statement) :
    FailsIn (fun e => backend statement = .error e) (fetch backend statement) :=
  fun _ => ⟨List.prefix_append _ _, fun _ he => he⟩

theorem failsIn_fetchCount (statement : Statement) :
    FailsIn (backend.Faults) (fetchCount backend statement) := by
  apply failsIn_bind ((failsIn_fetch statement).weaken fun _ h => .inl ⟨statement, h⟩)
  intro rows
  cases rows.head?.bind (Record.int64? QueryPair.countColumn) with
  | none => exact failsIn_throw (.inr rfl)
  | some n => exact failsIn_pure n.toNat

theorem sends_fetchCount (statement : Statement) : Sends (fetchCount backend statement) := by
  apply sends_bind (E := (· = .noCount)) (sends_fetch statement)
  intro rows
  cases rows.head?.bind (Record.int64? QueryPair.countColumn) with
  | none => exact failsIn_throw rfl
  | some n => exact failsIn_pure n.toNat

end FailsIn

/-- The steps fail before they send anything. -/
def Refuses (s : Session) (e : Error) (m : Steps Session α) : Prop :=
  (m s).1 = .error e ∧ (m s).2.log = s.log

section Refuses

variable {s : Session}

theorem Refuses.bind {m : Steps Session α} (h : Refuses s e m) (f : α → Steps Session β) :
    Refuses s e (m >>= f) := by
  unfold Refuses at h ⊢
  rw [bind_apply]
  rcases hx : m s with ⟨x, t⟩
  rw [hx] at h
  obtain ⟨rfl, hlog⟩ := h
  exact ⟨rfl, hlog⟩

theorem compiling_ok {uses : Nat} (h : p.compile model r s.uses = (.ok q, uses)) :
    p.compiling model r s = (.ok q, { s with uses }) := counting_ok_iff.2 ⟨uses, h, rfl⟩

theorem refuses_compiling (h : (p.compile model r s.uses).1 = .error e) :
    Refuses s e (p.compiling model r) :=
  ⟨h, rfl⟩

theorem refuses_listWith (execute : Execute) (h : (p.compile model r s.uses).1 = .error e) :
    Refuses s e (p.listWith execute model r) := by
  unfold listWith
  cases hm : p.model model with
  | error e' =>
    unfold compile at h
    rw [hm] at h
    cases h
    exact ⟨rfl, rfl⟩
  | ok m => exact (refuses_compiling h).bind _

theorem refuses_serve {op : Operation} (h : (op.prepare p s.uses).1 = .error e) :
    Refuses s e (op.serve p backend) := by
  cases op with
  | list model r => exact (refuses_listWith _ h).bind _
  | single model r => exact ((refuses_compiling h).bind _).bind _
  | count model r => exact ((refuses_compiling h).bind _).bind _
  | requestList model r =>
    apply Refuses.bind
    simp only [Operation.prepare] at h
    unfold requestList
    cases hpage : r.pageParams with
    | error e' =>
      rw [hpage] at h
      cases h
      exact ⟨rfl, rfl⟩
    | ok page =>
      rw [hpage] at h
      cases page with
      | none =>
        cases h
        exact ⟨rfl, rfl⟩
      | some page => exact (refuses_compiling h).bind _

end Refuses

inductive Needs (p : Provider) (q : CompiledQuery) : CompiledQuery → Prop
  | sibling {entity : String} {uses : Nat} {q' : CompiledQuery} {uses' : Nat} :
    entity ∈ q.dependencies → p.compile entity p.siblingRequest uses = (.ok q', uses') →
    Needs p q q'
  | nested {root : Entity} {task : NestedTask} {parentId : Value} {uses : Nat} {q' : CompiledQuery}
    {uses' : Nat} : p.schema.entity q.entity = .ok root → task ∈ q.nested →
    Compilation.nestedQuery (p.setting root) task parentId uses = (.ok q', uses') → Needs p q q'

/-- The errors that building the records of a query may raise. Nested lists were checked, so they
are refused only if computed values change. -/
inductive Raised (p : Provider) (backend : Backend) : CompiledQuery → Error → Prop
  | backend {q : CompiledQuery} {statement : Statement} {e : Error} :
    backend statement = .error e → Raised p backend q e
  | endless {q : CompiledQuery} (entity : String) : Raised p backend q (.endless entity)
  | sibling {q : CompiledQuery} {entity : String} {uses : Nat} {e : Error} :
    entity ∈ q.dependencies → (p.compile entity p.siblingRequest uses).1 = .error e →
    Raised p backend q e
  | nested {q : CompiledQuery} {root : Entity} {task : NestedTask} {parentId : Value} {uses : Nat}
    {e : Error} : ¬p.Constant → p.schema.entity q.entity = .ok root → task ∈ q.nested →
    (Compilation.nestedQuery (p.setting root) task parentId uses).1 = .error e →
    Raised p backend q e
  | deeper {q q' : CompiledQuery} {e : Error} : Needs p q q' → Raised p backend q' e →
    Raised p backend q e

structure Ready (p : Provider) (q : CompiledQuery) : Prop where
  serves : p.Serves q
  sound : p.Constant → ∀ root, p.schema.entity q.entity = .ok root → ∀ t ∈ q.nested,
    Compilation.Sound (p.setting root) t

theorem entity_nested {root : Entity} {task : NestedTask} {parentId : Value} {uses uses' : Nat}
    {name : String} (hroot : p.schema.entity name = .ok root)
    (h : Compilation.nestedQuery (p.setting root) task parentId uses = (.ok q, uses')) :
    p.schema.entity q.entity = .ok root := by
  obtain ⟨c, -, rfl, -⟩ := Compilation.run_ok h
  exact Schema.entity_name hroot

theorem entity_of_serves (h : p.Serves q) : ∃ root, p.schema.entity q.entity = .ok root := by
  cases h with
  | request h =>
    obtain ⟨m, root, projection, v, -, hroot, -, hrun, -⟩ := compile_ok h
    obtain ⟨c, -, rfl, -⟩ := Compilation.run_ok hrun
    exact ⟨root, Schema.entity_name hroot⟩
  | nested _ hroot _ hn => exact ⟨_, entity_nested hroot hn⟩

theorem ready_of_compile {uses uses' : Nat} (h : p.compile model r uses = (.ok q, uses')) :
    p.Ready q where
  serves := .request h
  sound := by
    intro hp root hroot
    obtain ⟨root', hroot', hsound⟩ := sound_of_compile hp h
    rw [hroot] at hroot'
    cases hroot'
    exact hsound

theorem Ready.needs (h : p.Ready q) (hn : p.Needs q q') : p.Ready q' := by
  cases hn with
  | sibling _ hcompile => exact ready_of_compile hcompile
  | @nested root task parentId uses _ _ hroot ht hx =>
    refine ⟨.nested h.serves hroot ht hx, ?_⟩
    intro hp root' hroot' u hu
    rw [entity_nested hroot hx] at hroot'
    cases hroot'
    obtain ⟨_, _, _, _, _, hx', -, -, -, -, -, hinner⟩ :=
      (h.sound hp root hroot task ht).compiles parentId uses 0
    rw [hx] at hx'
    cases hx'
    exact hinner u hu

theorem listWith_ok (execute : Execute) {s : Session} {uses : Nat} {statement : Statement}
    (h : p.compile model r s.uses = (.ok q, uses))
    (hrow : q.query.rowStatement p.dialect = .ok statement) :
    (∃ list, p.listWith execute model r s = (.ok list, { s with uses })) ∨
    ∃ after : List Record → Steps Session Loaded, (∀ rows, FailsIn E (after rows)) ∧
      p.listWith execute model r s = (execute q statement >>= after) { s with uses } := by
  obtain ⟨m, _, _, _, hm, -⟩ := compile_ok h
  unfold listWith
  rw [hm, bind_of_ok (lift_apply (.ok m) s), bind_of_ok (compiling_ok h), hrow,
    bind_of_ok (lift_apply (.ok statement) _)]
  cases huses : p.usesCache m r with
  | false => exact .inr ⟨loaded, failsIn_loaded, rfl⟩
  | true =>
    obtain ⟨key, hkey⟩ := cacheKey_of_compile (congrArg Prod.fst h)
    rw [hkey, if_pos rfl, bind_of_ok (lift_apply (.ok key) _)]
    cases hlookup : lookup? model key { s with uses } with
    | some list => exact .inl ⟨list, cachedList_hit hlookup⟩
    | none =>
      rw [cachedList_miss hlookup]
      refine .inr ⟨fun rows => do
        let list ← loaded rows
        store model key list
        return list, ?_, ?_⟩
      · intro rows
        apply failsIn_bind (failsIn_loaded rows)
        intro list
        apply failsIn_bind (failsIn_store model key list)
        exact fun _ => failsIn_pure list
      · rw [load, bind_assoc]

section Building

variable (hexecute : ∀ q' statement, p.Needs q q' →
  FailsIn (p.Raised backend q') (execute q' statement))

include hexecute

theorem failsIn_siblings {entity : String} (hentity : entity ∈ q.dependencies) :
    FailsIn (p.Raised backend q) (p.siblings execute entity) := by
  refine failsIn_bind ?_ fun list => failsIn_pure (EntityIndex.ofRecords list.rows)
  intro s
  rcases h : p.compile entity p.siblingRequest s.uses with ⟨x, uses⟩
  cases x with
  | error e =>
    have hcompile : (p.compile entity p.siblingRequest s.uses).1 = .error e := congrArg Prod.fst h
    obtain ⟨herror, hlog⟩ := refuses_listWith execute hcompile
    refine ⟨hlog ▸ List.prefix_rfl, ?_⟩
    intro e' he'
    rw [herror] at he'
    cases he'
    exact .sibling hentity hcompile
  | ok q' =>
    have hneeds : p.Needs q q' := .sibling hentity h
    obtain ⟨statement, hrow⟩ := rowStatement_of_serves (.request h)
    obtain ⟨list, hlist⟩ | ⟨after, hafter, hlist⟩ :=
      listWith_ok (E := p.Raised backend q) execute h hrow
    · rw [hlist]
      exact ⟨List.prefix_rfl, fun _ he => nomatch he⟩
    · rw [hlist]
      exact failsIn_bind ((hexecute q' statement hneeds).weaken fun _ => .deeper hneeds) hafter
        { s with uses }

theorem failsIn_nestedList (hq : p.Ready q) {task : NestedTask} (ht : task ∈ q.nested)
    (parentId : Value) :
    FailsIn (p.Raised backend q) (p.nestedList execute q.entity parentId task) := by
  intro s
  obtain ⟨root, hroot⟩ := entity_of_serves hq.serves
  rcases h : Compilation.nestedQuery (p.setting root) task parentId s.uses with ⟨x, uses⟩
  cases x with
  | error e =>
    -- a sound list compiles, so the provider is not constant
    have hvaries : ¬p.Constant := by
      intro hp
      obtain ⟨_, _, _, _, _, hx, -⟩ := (hq.sound hp root hroot task ht).compiles parentId s.uses 0
      rw [h] at hx
      cases hx
    have hfail : p.nestedList execute q.entity parentId task s = (.error e, { s with uses }) := by
      unfold nestedList
      rw [hroot, bind_of_ok (lift_apply (.ok root) s), bind_apply, counting_apply, h]
    rw [hfail]
    refine ⟨List.prefix_rfl, ?_⟩
    rintro _ ⟨rfl⟩
    exact .nested hvaries hroot ht (congrArg Prod.fst h)
  | ok q' =>
    have hneeds : p.Needs q q' := .nested hroot ht h
    obtain ⟨statement, hrow⟩ := rowStatement_of_serves (hq.needs hneeds).serves
    rw [nestedList_apply hroot h hrow]
    exact failsIn_bind ((hexecute q' statement hneeds).weaken fun _ => .deeper hneeds)
      (fun rows => failsIn_pure _) { s with uses }

theorem failsIn_building (hq : p.Ready q) (rows : List Record) :
    FailsIn (p.Raised backend q) (do
      let dependencies ← q.dependencies.mapM (p.siblings execute)
      rows.mapM (p.materialize execute q dependencies)) := by
  apply failsIn_bind (failsIn_mapM fun entity h => failsIn_siblings hexecute h)
  intro dependencies
  refine failsIn_mapM fun row _ => ?_
  apply failsIn_bind (failsIn_mapM fun task ht => failsIn_nestedList hexecute hq ht _)
  exact fun lists => failsIn_pure _

end Building

theorem failsIn_execute (hq : p.Ready q) (fuel : Nat) (statement : Statement) :
    FailsIn (p.Raised backend q) (p.execute backend fuel q statement) := by
  -- what building needs is ready again, so the induction may go on with another query
  induction fuel generalizing q statement with
  | zero => exact failsIn_throw (.endless q.entity)
  | succ fuel ih =>
    apply failsIn_bind ((failsIn_fetch statement).weaken fun _ => .backend)
    exact failsIn_building (fun q' statement h => ih (hq.needs h) statement) hq

theorem exists_fuel (p : Provider) : ∃ k, p.fuel = k + 1 :=
  Nat.exists_eq_succ_of_ne_zero (Nat.mul_ne_zero (Nat.succ_ne_zero _) (Nat.succ_ne_zero _))

theorem sends_run (hq : p.Ready q) (statement : Statement) :
    Sends (p.run backend q statement) := by
  obtain ⟨k, hk⟩ := p.exists_fuel
  unfold run
  rw [hk]
  apply sends_bind (sends_fetch statement)
  exact failsIn_building (fun q' statement h => failsIn_execute (hq.needs h) k statement) hq

theorem run_refused {s : Session} {statement : Statement} {rows : List Record} {entity : String}
    {rest : List String} (hrows : backend statement = .ok rows)
    (hdependencies : q.dependencies = entity :: rest)
    (h : (p.compile entity p.siblingRequest s.uses).1 = .error e) :
    (p.run backend q statement s).1 = .error e ∧
      (p.run backend q statement s).2.log = s.log ++ [statement] := by
  obtain ⟨k, hk⟩ := p.exists_fuel
  have hsent : fetch backend statement s = (.ok rows, { s with log := s.log ++ [statement] }) := by
    rw [fetch_apply, hrows]
  unfold run
  rw [hk, execute, bind_of_ok hsent, hdependencies, List.mapM_cons]
  have hsibling : Refuses { s with log := s.log ++ [statement] } e
      (p.siblings (p.execute backend k) entity) := by
    apply Refuses.bind
    exact refuses_listWith _ h
  exact (hsibling.bind _).bind _

theorem compile_of_prepare {op : Operation} {uses uses' : Nat}
    (h : op.prepare p uses = (.ok q, uses')) :
    ∃ model r, p.compile model r uses = (.ok q, uses') := by
  cases op with
  | list model r | single model r | count model r => exact ⟨_, _, h⟩
  | requestList model r =>
    simp only [Operation.prepare] at h
    obtain ⟨page, -, h⟩ := lift_bind_ok h
    cases page with
    | none => cases h
    | some page => exact ⟨_, _, h⟩

section Prepared

variable {s : Session} {uses : Nat} {statement : Statement}

theorem single_ok (h : p.compile model r s.uses = (.ok q, uses))
    (hfirst : q.query.firstStatement p.dialect = .ok statement) :
    p.single backend model r s
      = (p.run backend q statement >>= fun rows => pure rows.head?) { s with uses } := by
  unfold single
  rw [bind_of_ok (compiling_ok h), hfirst, bind_of_ok (lift_apply (.ok statement) _)]

theorem count_ok (h : p.compile model
      { Request.empty with projection := some Model.countProjection, criteria := r.criteria } s.uses
        = (.ok q, uses))
    (hcount : q.query.countStatement p.dialect = .ok statement) :
    p.count backend model r s = fetchCount backend statement { s with uses } := by
  unfold count
  rw [bind_of_ok (compiling_ok h), hcount, bind_of_ok (lift_apply (.ok statement) _)]

theorem requestList_ok {page : Page} {counts : Statement} (hpage : r.pageParams = .ok (some page))
    (h : p.compile model r s.uses = (.ok q, uses))
    (hrow : q.query.rowStatement p.dialect = .ok statement)
    (hcount : q.query.countStatement p.dialect = .ok counts) :
    p.requestList backend model r s = (do
      let rows ← p.run backend q statement
      let count ← fetchCount backend counts
      return ⟨rows, count, page.number, page.pages count⟩ : Steps Session ListPage)
        { s with uses } := by
  unfold requestList
  rw [hpage, bind_of_ok (lift_apply (.ok (some page)) s)]
  simp only
  rw [bind_of_ok (compiling_ok h), hrow, bind_of_ok (lift_apply (.ok statement) _), hcount,
    bind_of_ok (lift_apply (.ok counts) _)]

theorem serve_prepared (backend : Backend) {op : Operation}
    (h : op.prepare p s.uses = (.ok q, uses)) :
    op.serve p backend s = (.ok (), { s with uses }) ∨
    (∃ statement, ∃ after : List Record → Steps Session Unit,
      (∀ rows, FailsIn backend.Faults (after rows)) ∧
      op.serve p backend s = (p.run backend q statement >>= after) { s with uses }) ∨
    ∃ model r statement, op = .count model r ∧
      op.serve p backend s
        = (fetchCount backend statement >>= fun _ => pure ()) { s with uses } := by
  have hserves : p.Serves q := by
    obtain ⟨model, r, hcompile⟩ := compile_of_prepare h
    exact .request hcompile
  obtain ⟨row, hrow⟩ := rowStatement_of_serves hserves
  obtain ⟨count, hcount⟩ : ∃ statement, q.query.countStatement p.dialect = .ok statement := ⟨_, rfl⟩
  -- a list that is cached sends nothing, and a count has no records to build
  cases op with
  | list model r =>
    obtain ⟨list, hlist⟩ | ⟨after, hafter, hlist⟩ :=
      listWith_ok (E := backend.Faults) (p.run backend) h hrow
    · left
      exact bind_of_ok hlist
    · refine .inr (.inl ⟨row, fun rows => after rows >>= fun _ => pure (), ?_, ?_⟩)
      · exact fun rows => failsIn_bind (hafter rows) fun _ => failsIn_pure ()
      · rw [Operation.serve, bind_apply, list, hlist, ← bind_apply, bind_assoc]
  | single model r =>
    obtain ⟨first, hfirst⟩ := firstStatement_of_serves hserves
    refine .inr (.inl ⟨first, fun _ => pure (), fun _ => failsIn_pure (), ?_⟩)
    rw [Operation.serve, bind_apply, single_ok h hfirst, ← bind_apply, bind_assoc]
    rfl
  | count model r =>
    refine .inr (.inr ⟨model, r, count, rfl, ?_⟩)
    rw [Operation.serve, bind_apply, count_ok h hcount, ← bind_apply]
  | requestList model r =>
    simp only [Operation.prepare] at h
    obtain ⟨page, hpage, h⟩ := lift_bind_ok h
    cases page with
    | none => cases h
    | some page =>
      refine .inr (.inl ⟨row, fun rows => fetchCount backend count >>= fun _ => pure (), ?_, ?_⟩)
      · exact fun rows => failsIn_bind (failsIn_fetchCount count) fun _ => failsIn_pure ()
      · rw [Operation.serve, bind_apply, requestList_ok hpage h hrow hcount, ← bind_apply]
        simp only [bind_assoc, pure_bind]

end Prepared

def Stocked (p : Provider) : Prop :=
  ∀ entity, p.isCached entity = true → ∀ uses e,
    (p.compile entity p.siblingRequest uses).1 ≠ .error e

theorem stocked_of_compiles (hp : p.Constant)
    (h : ∀ m ∈ p.models, m.2.cacheTimeout.isSome = true →
      (p.compile m.1 p.siblingRequest 0).1.toBool = true) : p.Stocked := by
  intro entity hentity uses e he
  obtain ⟨m, hm, htimeout⟩ := (Option.any_eq_true _ _).1 hentity
  have hcompile := h (entity, m) (Fields.mem_of_get? hm) htimeout
  have hboth := both_compile hp entity p.siblingRequest 0 uses
  rw [he] at hboth
  rw [hboth.of_error] at hcompile
  cases hcompile

theorem cached_of_serves (h : p.Serves q) : ∀ d ∈ q.dependencies, p.isCached d = true := by
  cases h with
  | request h =>
    obtain ⟨m, root, projection, v, -, -, -, hrun, -⟩ := compile_ok h
    obtain ⟨c, hc, rfl, -⟩ := Compilation.run_ok hrun
    have hevolved : Compilation.Evolved (p.setting root) (fun _ => True) _ c :=
      Compilation.evolved_of_ok (evolved_compileSteps trivial fun _ _ _ _ _ => trivial) hc
    exact hevolved.dependencies fun _ hd => nomatch hd
  | nested _ _ _ h =>
    obtain ⟨c, hc, rfl, -⟩ := Compilation.run_ok h
    have hevolved : Compilation.Evolved _ (fun _ => True) _ c :=
      Compilation.evolved_of_ok (Compilation.evolved_nestedSteps (fun _ => trivial) _ _) hc
    exact hevolved.dependencies fun _ hd => nomatch hd

theorem Raised.stocked (hp : p.Constant) (hstocked : p.Stocked) (hq : p.Serves q)
    (h : p.Raised backend q e) :
    (∃ statement, backend statement = .error e) ∨ ∃ entity, e = .endless entity := by
  induction h with
  | @backend q statement e h => exact .inl ⟨statement, h⟩
  | endless entity => exact .inr ⟨entity, rfl⟩
  | sibling hentity h => exact absurd h (hstocked _ (cached_of_serves hq _ hentity) _ _)
  | nested hvaries => exact absurd hp hvaries
  | deeper hneeds _ ih =>
    apply ih
    cases hneeds with
    | sibling _ hcompile => exact .request hcompile
    | nested hroot ht hn => exact .nested hq hroot ht hn

theorem fails_prepared {op : Operation} {s : Session} {uses : Nat}
    (h : op.prepare p s.uses = (.ok q, uses)) (he : (op.serve p backend s).1 = .error e) :
    (∃ statement more, (op.serve p backend s).2.log = s.log ++ statement :: more) ∧
      (p.Raised backend q e ∨ e = .noCount) := by
  have hready : p.Ready q := by
    obtain ⟨model, r, hcompile⟩ := compile_of_prepare h
    exact ready_of_compile hcompile
  have hfaults : ∀ e, backend.Faults e → p.Raised backend q e ∨ e = .noCount := by
    rintro e (⟨statement, h⟩ | rfl)
    · exact .inl (.backend h)
    · exact .inr rfl
  obtain hserve | ⟨statement, after, hafter, hserve⟩ | ⟨model, r, statement, rfl, hserve⟩ :=
    serve_prepared backend h
  · rw [hserve] at he
    cases he
  · rw [hserve] at he ⊢
    refine ⟨sends_bind (sends_run hready statement) hafter _, ?_⟩
    have hrun : FailsIn (p.Raised backend q) (p.run backend q statement) :=
      failsIn_execute hready p.fuel statement
    exact (failsIn_bind (hrun.weaken fun _ => .inl)
      (fun rows => (hafter rows).weaken hfaults) _).2 e he
  · rw [hserve] at he ⊢
    have hpure : FailsIn backend.Faults (pure () : Steps Session Unit) := failsIn_pure ()
    refine ⟨sends_bind (sends_fetchCount statement) (fun _ => hpure) _, hfaults e ?_⟩
    exact (failsIn_bind (failsIn_fetchCount statement) (fun _ => hpure) _).2 e he

end Provider

/-- A request that is refused, with its nested lists, sends nothing; an operation that fails later
has sent a statement, and what it can fail by then is listed. If computed values are constant and the
list of each cached model compiles, that is the backend, or siblings that need each other without
end, so that refusals come ahead of every statement. But the list of a sibling is compiled too
late: an operation whose first sibling has none, if the cache does not answer it, fails right after
its statement was sent. -/
theorem refused_before_sending (p : Provider) (backend : Backend) :
    (∀ op s e, (Operation.prepare p op s.uses).1 = .error e →
      (op.serve p backend s).1 = .error e ∧ (op.serve p backend s).2.log = s.log) ∧
    (∀ op s q uses e, Operation.prepare p op s.uses = (.ok q, uses) →
      (op.serve p backend s).1 = .error e →
      (∃ statement more, (op.serve p backend s).2.log = s.log ++ statement :: more) ∧
      (p.Raised backend q e ∨ e = .noCount)) ∧
    (p.Constant → p.Stocked → ∀ op s q uses e, Operation.prepare p op s.uses = (.ok q, uses) →
      (op.serve p backend s).1 = .error e → backend.Faults e ∨ ∃ entity, e = .endless entity) ∧
    ∀ op s q uses entity rest e, Operation.prepare p op s.uses = (.ok q, uses) →
      (∀ model r, op ≠ .count model r) → q.dependencies = entity :: rest →
      (p.compile entity p.siblingRequest uses).1 = .error e →
      (∀ statement, ∃ rows, backend statement = .ok rows) →
      ((op.serve p backend s).1 = .ok () ∧ (op.serve p backend s).2.log = s.log) ∨
      ((op.serve p backend s).1 = .error e ∧
        ∃ statement, (op.serve p backend s).2.log = s.log ++ [statement]) := by
  refine ⟨fun op s e h => Provider.refuses_serve h,
    fun op s q uses e h he => Provider.fails_prepared h he, ?_, ?_⟩
  · intro hp hstocked op s q uses e h he
    obtain ⟨model, r, hcompile⟩ := Provider.compile_of_prepare h
    obtain hraised | rfl := (Provider.fails_prepared h he).2
    · obtain hfault | hendless := hraised.stocked hp hstocked (.request hcompile)
      · exact .inl (.inl hfault)
      · exact .inr hendless
    · exact .inl (.inr rfl)
  · intro op s q uses entity rest e h hop hdependencies hsibling hanswers
    obtain hserve | ⟨statement, after, -, hserve⟩ | ⟨model, r, _, hcount, -⟩ :=
      Provider.serve_prepared backend h
    · rw [hserve]
      exact .inl ⟨rfl, rfl⟩
    -- the rows are there before the first sibling is compiled
    · obtain ⟨rows, hrows⟩ := hanswers statement
      obtain ⟨herror, hlog⟩ :=
        Provider.run_refused (s := { s with uses }) hrows hdependencies hsibling
      rw [hserve, bind_apply]
      rcases hrun : p.run backend q statement { s with uses } with ⟨x, t⟩
      rw [hrun] at herror hlog
      obtain rfl : x = .error e := herror
      exact .inr ⟨rfl, statement, hlog⟩
    · exact absurd hcount (hop model r)

namespace Blog

def discussed : Model :=
  (Model.ofEntity "Post").withProjection "default"
    (.column "title" "title" (.column "comments" "comments" (.done [])))

def keptComments (projection : String) : Model :=
  ((Model.ofEntity "Comment").withCache 1000).withProjection projection
    (.column "body" "body" (.done []))

def discussion (projection : String) : Provider :=
  ⟨schema, .sqlite, .standard, [("Post", discussed), ("Comment", keptComments projection)]⟩

def empty : Backend := fun _ => .ok []

def down : Backend := fun _ => .error .storage

theorem constant_discussion : (discussion "default").Constant :=
  Provider.constant_of_plain (by decide) (by decide)

theorem stocked_discussion : (discussion "default").Stocked :=
  Provider.stocked_of_compiles constant_discussion (by decide +kernel)

end Blog

theorem refused_before_sending_blog :
    Provider.build Blog.schema .sqlite .standard [Blog.discussed, Blog.keptComments "brief"]
      = .ok (Blog.discussion "brief") ∧
    (∃ statement,
      ((Operation.single "Post" .empty).serve (Blog.discussion "brief") Blog.empty
        ((Blog.discussion "brief").session 0)).1 = .error (.unknownProjection "default") ∧
      ((Operation.single "Post" .empty).serve (Blog.discussion "brief") Blog.empty
        ((Blog.discussion "brief").session 0)).2.log = [statement]) ∧
    ((Operation.count "Reply" .empty).serve (Blog.discussion "brief") Blog.empty
      ((Blog.discussion "brief").session 0)).2.log = [] ∧
    (Blog.discussion "default").Constant ∧ (Blog.discussion "default").Stocked ∧
    ∃ e, ((Operation.list "Post" .empty).serve (Blog.discussion "default") Blog.down
        ((Blog.discussion "default").session 0)).1 = .error e ∧
      (Blog.down.Faults e ∨ ∃ entity, e = .endless entity) := by
  have hbrief := refused_before_sending (Blog.discussion "brief") Blog.empty
  have hdefault := refused_before_sending (Blog.discussion "default") Blog.down
  refine ⟨rfl, ?_, ?_, Blog.constant_discussion, Blog.stocked_discussion, ?_⟩
  · obtain ⟨q, uses, hq, hdependencies⟩ := ok_of_toOption_map
      (m := (Operation.single "Post" .empty).prepare (Blog.discussion "brief")) (s := 0)
      (f := CompiledQuery.dependencies) (b := ["Comment"]) (by decide +kernel)
    have hsibling : ∀ uses, ((Blog.discussion "brief").compile "Comment"
        (Blog.discussion "brief").siblingRequest uses).1
          = .error (.unknownProjection "default") := fun _ => rfl
    have hfails : ((Operation.single "Post" .empty).serve (Blog.discussion "brief") Blog.empty
        ((Blog.discussion "brief").session 0)).1.toBool = false := by
      decide +kernel
    obtain ⟨hok, -⟩ | ⟨herror, statement, hlog⟩ :=
      hbrief.2.2.2 (.single "Post" .empty) ((Blog.discussion "brief").session 0) q uses "Comment"
        [] (.unknownProjection "default") hq (fun _ _ => nofun) hdependencies (hsibling uses)
        fun _ => ⟨[], rfl⟩
    · rw [hok] at hfails
      cases hfails
    · exact ⟨statement, herror, hlog⟩
  · exact (hbrief.1 (.count "Reply" .empty) ((Blog.discussion "brief").session 0)
      (.unknownModel "Reply") rfl).2
  · obtain ⟨q, hq⟩ := ok_of_toBool
      (m := (Operation.list "Post" .empty).prepare (Blog.discussion "default")) (s := 0)
      (by decide +kernel)
    have hfails : ((Operation.list "Post" .empty).serve (Blog.discussion "default") Blog.down
        ((Blog.discussion "default").session 0)).1.toBool = false := by
      decide +kernel
    cases he : ((Operation.list "Post" .empty).serve (Blog.discussion "default") Blog.down
        ((Blog.discussion "default").session 0)).1 with
    | ok a =>
      rw [he] at hfails
      cases hfails
    | error e =>
      exact ⟨e, rfl, hdefault.2.2.1 Blog.constant_discussion Blog.stocked_discussion
        (.list "Post" .empty) ((Blog.discussion "default").session 0) q _ e hq he⟩

end RecordQuery
