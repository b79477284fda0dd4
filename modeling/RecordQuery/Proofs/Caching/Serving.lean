import RecordQuery.Proofs.Caching.Session

namespace RecordQuery.Provider

open Steps

variable {p : Provider} {backend : Backend} {R : String → Request → Prop} {model : String}
  {r : Request} {q q' : CompiledQuery} {execute : Execute} {a : Answer} {statement : Statement}

theorem both_compile (hp : p.Constant) (model : String) (r : Request) (i j : Nat) :
    Both (CompiledQuery.Alike .same) (p.compile model r i).1 (p.compile model r j).1 := by
  have halike : RequestsAlike .same p r r := ⟨rfl, rfl, rfl, rfl⟩
  have hparallel := parallel_compile (L := .same) model hp
    (fun _ projection _ _ => projection.every_of (fun _ => trivial) fun _ _ _ => trivial) halike
  exact (hparallel i j trivial).2

theorem cacheKey_of_compile {uses : Nat} (h : (p.compile model r uses).1 = .ok q) :
    ∃ key, r.cacheKey p.config.defaultProjection = .ok key := by
  obtain ⟨uses', hq⟩ := ok_of_fst h
  obtain ⟨m, root, projection, v, -, -, -, hrun, -⟩ := compile_ok hq
  obtain ⟨c, hc, -, -⟩ := Compilation.run_ok hrun
  obtain ⟨_, _, -, hc⟩ := bind_ok hc
  obtain ⟨_, _, -, hc⟩ := bind_ok hc
  obtain ⟨_, _, -, hc⟩ := bind_ok hc
  obtain ⟨_, _, -, hc⟩ := bind_ok hc
  obtain ⟨page, hpage, -⟩ := lift_bind_ok hc
  unfold Request.cacheKey
  rw [hpage]
  exact ⟨_, rfl⟩

theorem answerTo_eq (hq : (p.compile model r 0).1 = .ok q)
    (hs : q.query.rowStatement p.dialect = .ok statement) :
    p.answerTo a model r = a q statement := by
  unfold answerTo
  rw [hq]
  change (q.query.rowStatement p.dialect >>= a q) = _
  rw [hs]
  rfl

theorem answerTo_model (a : Answer) (model : String) (r : Request) :
    p.answerTo a model r = p.model model >>= fun _ => p.answerTo a model r := by
  cases hm : p.model model with
  | ok m => rfl
  | error e =>
    unfold answerTo compile
    rw [hm]
    rfl

theorem between_counting {α β : Type} {steps : Steps Nat α} {x : Except Error β}
    {Q : α → β → Prop} (h : ∀ uses, Both Q (steps uses).1 x) :
    Between (p.Sound backend R) (counting steps) x x Q := by
  apply between_both
  intro s hs
  have hboth := h s.uses
  unfold counting
  rcases hsteps : steps s.uses with ⟨y, uses⟩
  rw [hsteps] at hboth
  exact ⟨⟨hs.kept, hs.right⟩, hboth⟩

theorem between_fetch (statement : Statement) :
    Between (p.Sound backend R) (fetch backend statement) (backend statement) (backend statement)
      Eq := by
  apply between_both
  intro s hs
  exact ⟨⟨hs.kept, hs.right⟩, both_refl (fun _ => rfl) _⟩

theorem cachedList_hit {key : String} {s : Session} {list : Loaded}
    (h : lookup? model key s = some list) :
    cachedList execute model key q statement s = (.ok list, s) := by
  unfold cachedList
  rw [bind_of_ok (get_apply s), h]
  rfl

theorem cachedList_miss {key : String} {s : Session} (h : lookup? model key s = none) :
    cachedList execute model key q statement s = (do
      let list ← load execute q statement
      store model key list
      return list : Steps Session Loaded) s := by
  unfold cachedList
  rw [bind_of_ok (get_apply s), h]

/-- Queries are loaded as `a` answers them, as far as `a` goes. -/
def Loads (p : Provider) (backend : Backend) (R : String → Request → Prop) (execute : Execute)
    (a : Answer) : Prop :=
  ∀ q q' statement, q.Alike .same q' → q'.Within p.deepest →
    Between (p.Sound backend R) (execute q statement) (a q' statement)
      (p.answer backend p.fuel q' statement) Eq

section Loads

variable (hp : p.Constant) (hR : p.Decided backend R)
  (ha : ∀ q statement, Refines (a q statement) (p.answer backend p.fuel q statement))
  (hload : p.Loads backend R execute a)

include ha hload

theorem between_load (hq : q.Alike .same q') (hwithin : q'.Within p.deepest) :
    Between (p.Sound backend R) (load execute q statement) (a q' statement)
      (p.answer backend p.fuel q' statement) fun list rows => list.rows = rows := by
  rw [← bind_pure (a q' statement), ← bind_pure (p.answer backend p.fuel q' statement)]
  apply between_bind (hload q q' statement hq hwithin) (ha q' statement)
  rintro rows _ rfl _
  apply between_both
  intro s hs
  exact ⟨⟨hs.kept, hs.right⟩, rfl⟩

include hR

theorem between_cachedList {m : Model} {key : String} (hq : q.Alike .same q')
    (hwithin : q'.Within p.deepest) (hm : p.models.get? model = some m) (hr : R model r)
    (huses : p.usesCache m r = true) (hkey : r.cacheKey p.config.defaultProjection = .ok key)
    (hq' : (p.compile model r 0).1 = .ok q')
    (hstatement : q'.query.rowStatement p.dialect = .ok statement) :
    Between (p.Sound backend R) (cachedList execute model key q statement) (a q' statement)
      (p.answer backend p.fuel q' statement) fun list rows => list.rows = rows := by
  have heq := answerTo_eq (a := p.answer backend p.fuel) hq' hstatement
  have hmiss : Between (p.Sound backend R) (do
        let list ← load execute q statement
        store model key list
        return list)
      (a q' statement) (p.answer backend p.fuel q' statement)
      fun list rows => list.rows = rows := by
    rw [← bind_pure (a q' statement), ← bind_pure (p.answer backend p.fuel q' statement)]
    apply between_bind (between_load ha hload hq hwithin) (ha q' statement)
    intro list rows hlist hrows
    apply between_both
    intro s hs
    -- the entry is right: it holds what the request is answered
    have hright : ∀ stamp, p.Right backend R model ⟨stamp, key, list⟩ :=
      fun _ => ⟨m, r, hm, hr, huses, hkey, by rw [heq, hrows, hlist]⟩
    exact ⟨(maintains_store hright s hs).1, hlist⟩
  intro s hs
  cases hlookup : lookup? model key s with
  | some list =>
    rw [cachedList_hit hlookup]
    have hanswer := hit_right hR hs hm hr huses hkey hq' hlookup
    rw [heq] at hanswer
    rw [hanswer]
    exact ⟨hs, fun _ => ends_ok _, fun _ => rfl⟩
  | none =>
    rw [cachedList_miss hlookup]
    exact hmiss s hs

include hp

theorem between_listWith (hr : R model r) :
    Between (p.Sound backend R) (p.listWith execute model r) (p.answerTo a model r)
      (p.answerTo (p.answer backend p.fuel) model r) fun list rows => list.rows = rows := by
  rw [answerTo_model a, answerTo_model (p.answer backend p.fuel)]
  apply between_bind (between_lift (p.model model)) (refines_refl _)
  rintro m _ rfl hm
  apply between_bind (between_counting fun uses => both_compile hp model r uses 0) (refines_refl _)
  intro q q' hq hq'
  rw [hq.query_eq Likeness.exact_same]
  apply between_bind (between_lift _) (refines_refl _)
  rintro statement _ rfl hstatement
  have hwithin := within_compile hq'
  cases huses : p.usesCache m r with
  | false => exact between_load ha hload hq hwithin
  | true =>
    obtain ⟨key, hkey⟩ := cacheKey_of_compile hq'
    rw [hkey]
    exact between_cachedList hR ha hload hq hwithin (get?_of_model hm) hr huses hkey hq' hstatement

theorem between_siblings (hsibling : ∀ entity, R entity p.siblingRequest) (entity : String) :
    Between (p.Sound backend R) (p.siblings execute entity) (p.answerSiblings a entity)
      (p.answerSiblings (p.answer backend p.fuel) entity) Eq := by
  apply between_map (between_listWith hp hR ha hload (hsibling entity))
  · exact refines_answerTo fun q statement _ => ha q statement
  · intro list rows h
    rw [h]

omit hp hR in
theorem between_nestedList {entity : String} {parentId : Value} {task task' : NestedTask}
    (h : Compilation.TaskAlike .same task task') (hdepth : task'.inner.depth ≤ p.deepest) :
    Between (p.Sound backend R) (p.nestedList execute entity parentId task)
      (p.answerNested a entity parentId task')
      (p.answerNested (p.answer backend p.fuel) entity parentId task') Eq := by
  apply between_bind (between_lift (p.schema.entity entity)) (refines_refl _)
  rintro root _ rfl _
  have hparallel := Compilation.parallel_nestedQuery (s := p.setting root) h (v := parentId)
    fun _ => rfl
  apply between_bind (between_counting fun uses => (hparallel uses 0 trivial).2) (refines_refl _)
  intro q q' hq hq'
  rw [hq.query_eq Likeness.exact_same]
  apply between_bind (between_lift _) (refines_refl _)
  rintro statement _ rfl _
  have hwithin : q'.Within p.deepest := fun inner hinner =>
    Nat.lt_of_lt_of_le (Compilation.within_nestedQuery hq' inner hinner) hdepth
  apply between_bind (hload q q' statement hq hwithin) (ha q' statement)
  rintro rows _ rfl _
  rw [h.options]
  exact between_pure rfl

omit hp hR in
theorem between_materialize (hq : q.Alike .same q') (hwithin : q'.Within p.deepest)
    (dependencies : List EntityIndex) (row : Record) :
    Between (p.Sound backend R) (p.materialize execute q dependencies row)
      (p.answerRow a q' dependencies row)
      (p.answerRow (p.answer backend p.fuel) q' dependencies row) Eq := by
  have hrefines : ∀ parentId, ∀ task ∈ q'.nested,
      Refines (p.answerNested a q'.entity parentId task)
        (p.answerNested (p.answer backend p.fuel) q'.entity parentId task) :=
    fun _ _ _ => refines_answerNested fun _ q statement _ => ha q statement
  unfold materialize answerRow
  rw [hq.handlers, hq.entity, hq.middlewares]
  apply between_bind (Q := Eq)
  · apply between_mapM_eq hq.nested (hrefines _)
    intro task task' ht h
    exact between_nestedList ha hload h (Nat.le_of_lt (hwithin task' ht))
  · exact refines_mapM (hrefines _)
  · rintro lists _ rfl _
    exact between_pure rfl

theorem between_level (hsibling : ∀ entity, R entity p.siblingRequest) (hq : q.Alike .same q')
    (hwithin : q'.Within p.deepest) (statement : Statement) :
    Between (p.Sound backend R) (do
        let rows ← fetch backend statement
        let dependencies ← q.dependencies.mapM (p.siblings execute)
        rows.mapM (p.materialize execute q dependencies))
      (p.answerStep backend a q' statement)
      (p.answerStep backend (p.answer backend p.fuel) q' statement) Eq := by
  have hrefines : ∀ entity, Refines (p.answerSiblings a entity)
      (p.answerSiblings (p.answer backend p.fuel) entity) :=
    fun _ => refines_map _ (refines_answerTo fun q statement _ => ha q statement)
  apply between_bind (between_fetch statement) (refines_refl _)
  rintro rows _ rfl _
  rw [hq.dependencies]
  apply between_bind (Q := Eq)
  · apply between_mapM_eq (P := Eq) (List.forall₂_refl _) fun entity _ => hrefines entity
    rintro entity _ _ rfl
    exact between_siblings hp hR ha hload hsibling entity
  · exact refines_mapM fun entity _ => hrefines entity
  rintro dependencies _ rfl _
  apply between_mapM_eq (P := Eq) (List.forall₂_refl _)
  · intro row _
    apply refines_answerRow
    exact fun _ _ _ => refines_answerNested fun _ q statement _ => ha q statement
  · rintro row _ _ rfl
    exact between_materialize ha hload hq hwithin dependencies row

end Loads

theorem loads_execute (hp : p.Constant) (hR : p.Decided backend R)
    (hsibling : ∀ entity, R entity p.siblingRequest) {fuel : Nat} (hfuel : fuel ≤ p.fuel) :
    p.Loads backend R (p.execute backend fuel) (p.answer backend fuel) := by
  induction fuel with
  | zero =>
    intro q q' statement _ _ s hs
    exact ⟨hs, fun h => absurd h (not_ends_endless _), fun h => absurd h (not_ends_endless _)⟩
  | succ fuel ih =>
    have hle : fuel ≤ p.fuel := Nat.le_of_succ_le hfuel
    intro q q' statement hq hwithin
    have hlevel := between_level hp hR (fun q statement => refines_answer hle q statement) (ih hle)
      hsibling hq hwithin statement
    exact hlevel.rise (fuel_suffices hwithin (p.fuel + 1) statement)

theorem between_list (hp : p.Constant) (hR : p.Decided backend R)
    (hsibling : ∀ entity, R entity p.siblingRequest) (hr : R model r) :
    Between (p.Sound backend R) (p.list backend model r)
      (p.answerTo (p.answer backend p.fuel) model r) (p.answerTo (p.answer backend p.fuel) model r)
      fun list rows => list.rows = rows :=
  between_listWith hp hR (fun _ _ => refines_refl _)
    (loads_execute hp hR hsibling (Nat.le_refl _)) hr

end RecordQuery.Provider
