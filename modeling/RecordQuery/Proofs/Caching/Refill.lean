import RecordQuery.Proofs.Caching.Serving
import RecordQuery.Proofs.Emission.Grouping

namespace RecordQuery.Provider

open Steps

variable {p : Provider} {backend : Backend} {model : String} {r : Request}

section Kept

variable {execute : Execute} (h : ∀ q statement, Maintains p.Kept (execute q statement) fun _ => True)

theorem kept_store {key : String} {list : Loaded} :
    Maintains p.Kept (store model key list) fun _ => True := by
  apply maintains_modify
  intro s hs
  cases hc : cacheOf? model s with
  | none => exact hs
  | some c => exact hs.insert (d := c.replace s.clock key list) hc rfl

theorem kept_counting {α : Type} (steps : Steps Nat α) :
    Maintains p.Kept (counting steps) fun _ => True := by
  intro s hs
  unfold counting
  rcases steps s.uses with ⟨x, uses⟩
  exact ⟨hs, fun _ _ => trivial⟩

theorem kept_lift {α : Type} (x : Except Error α) :
    Maintains p.Kept (liftM x) fun _ => True :=
  maintains_lift fun _ _ => trivial

theorem kept_mapM {α β : Type} {xs : List α} {f : α → Steps Session β}
    (h : ∀ x, Maintains p.Kept (f x) fun _ => True) :
    Maintains p.Kept (xs.mapM f) fun _ => True :=
  (maintains_mapM fun x _ => h x).weaken fun _ _ => trivial

theorem kept_fetch (statement : Statement) :
    Maintains p.Kept (fetch backend statement) fun _ => True :=
  fun _ hs => ⟨hs, fun _ _ => trivial⟩

include h

theorem kept_load (q : CompiledQuery) (statement : Statement) :
    Maintains p.Kept (load execute q statement) fun _ => True := by
  apply maintains_bind (h q statement)
  intro rows _ s hs
  exact ⟨hs, fun _ _ => trivial⟩

theorem kept_cachedList (key : String) (q : CompiledQuery) (statement : Statement) :
    Maintains p.Kept (cachedList execute model key q statement) fun _ => True := by
  apply maintains_bind maintains_get
  intro s _
  cases lookup? model key s with
  | some list => exact maintains_pure trivial
  | none =>
    apply maintains_bind (kept_load h q statement)
    intro list _
    apply maintains_bind kept_store
    intro _ _
    exact maintains_pure trivial

theorem kept_listWith (model : String) (r : Request) :
    Maintains p.Kept (p.listWith execute model r) fun _ => True := by
  apply maintains_bind (kept_lift _)
  intro m _
  apply maintains_bind (kept_counting _)
  intro q _
  apply maintains_bind (kept_lift _)
  intro statement _
  apply maintains_ite
  · intro _
    apply maintains_bind (kept_lift _)
    intro key _
    exact kept_cachedList h key q statement
  · exact fun _ => kept_load h q statement

theorem kept_nestedList (entity : String) (parentId : Value) (task : NestedTask) :
    Maintains p.Kept (p.nestedList execute entity parentId task) fun _ => True := by
  apply maintains_bind (kept_lift _)
  intro root _
  apply maintains_bind (kept_counting _)
  intro q _
  apply maintains_bind (kept_lift _)
  intro statement _
  apply maintains_bind (h q statement)
  intro rows _
  exact maintains_pure trivial

theorem kept_siblings (entity : String) :
    Maintains p.Kept (p.siblings execute entity) fun _ => True := by
  apply maintains_bind (kept_listWith h entity _)
  intro list _
  exact maintains_pure trivial

theorem kept_materialize (q : CompiledQuery) (dependencies : List EntityIndex) (row : Record) :
    Maintains p.Kept (p.materialize execute q dependencies row) fun _ => True := by
  apply maintains_bind (kept_mapM fun task => kept_nestedList h _ _ task)
  intro lists _
  exact maintains_pure trivial

omit h in
theorem kept_execute (fuel : Nat) (q : CompiledQuery) (statement : Statement) :
    Maintains p.Kept (p.execute backend fuel q statement) fun _ => True := by
  induction fuel generalizing q statement with
  | zero => exact maintains_throw
  | succ fuel ih =>
    apply maintains_bind (kept_fetch statement)
    intro rows _
    apply maintains_bind (kept_mapM fun entity => kept_siblings ih entity)
    intro dependencies _
    exact kept_mapM fun row => kept_materialize ih q dependencies row

end Kept

theorem store_eq {key : String} {list : Loaded} {s : Session} {c : ListCache Loaded}
    (h : cacheOf? model s = some c) :
    store model key list s =
      (.ok (), { s with caches := s.caches.insert model (c.replace s.clock key list) }) := by
  unfold store
  rw [modify_apply, h]

theorem store_cases (model key : String) (list : Loaded) (s : Session) :
    (s.caches.get? model = none ∧ (store model key list s).2 = s) ∨
      ∃ c, s.caches.get? model = some c ∧ (store model key list s).2
        = { s with caches := s.caches.insert model (c.replace s.clock key list) } := by
  unfold store
  rw [modify_apply]
  cases hc : cacheOf? model s with
  | none => exact .inl ⟨hc, rfl⟩
  | some c => exact .inr ⟨c, hc, rfl⟩

theorem lookup_cachedList {execute : Execute}
    (h : ∀ q statement, Maintains p.Kept (execute q statement) fun _ => True) {m : Model}
    {timeout : Nat} {key : String} {q : CompiledQuery} {statement : Statement} {s t : Session}
    {list : Loaded} (hm : p.models.get? model = some m) (ht : m.cacheTimeout = some timeout)
    (hpos : 0 < timeout) (hs : p.Kept s)
    (hlist : cachedList execute model key q statement s = (.ok list, t)) :
    lookup? model key t = some list := by
  cases hlookup : lookup? model key s with
  | some list' =>
    rw [cachedList_hit hlookup] at hlist
    cases hlist
    exact hlookup
  | none =>
    rw [cachedList_miss hlookup] at hlist
    obtain ⟨list', u, hload, hstored⟩ := bind_ok hlist
    have hu := (kept_load h q statement s hs).1
    rw [hload] at hu
    obtain ⟨c, hc, htimeout⟩ := hu model m timeout hm ht
    have hcache : cacheOf? model u = some c := hc
    obtain ⟨_, v, hstore, hpure⟩ := bind_ok hstored
    rw [store_eq hcache] at hstore
    cases hstore
    cases hpure
    unfold lookup? cacheOf?
    rw [Fields.get?_insert_self, Option.bind_some]
    unfold ListCache.fresh? ListCache.replace
    simp [htimeout, hpos]

theorem lookup_list {m : Model} {timeout : Nat} {s t : Session} {list : Loaded}
    (hm : p.models.get? model = some m) (ht : m.cacheTimeout = some timeout) (hpos : 0 < timeout)
    (huses : p.usesCache m r = true) (hs : p.Kept s)
    (hlist : p.list backend model r s = (.ok list, t)) :
    ∃ key, r.cacheKey p.config.defaultProjection = .ok key ∧ lookup? model key t = some list := by
  unfold Provider.list listWith at hlist
  obtain ⟨m', hm', hlist⟩ := lift_bind_ok hlist
  cases hm.symm.trans (get?_of_model hm')
  obtain ⟨q, u, hq, hlist⟩ := bind_ok hlist
  have hu := (kept_counting (p := p) (p.compile model r) s hs).1
  change p.Kept (p.compiling model r s).2 at hu
  rw [hq] at hu
  obtain ⟨statement, -, hlist⟩ := lift_bind_ok hlist
  rw [if_pos huses] at hlist
  obtain ⟨key, hkey, hlist⟩ := lift_bind_ok hlist
  exact ⟨key, hkey, lookup_cachedList (kept_execute _) hm ht hpos hu hlist⟩

theorem list_of_lookup (hp : p.Constant) {m : Model} {q : CompiledQuery} {key : String}
    {s : Session} {list : Loaded} (hm : p.models.get? model = some m)
    (huses : p.usesCache m r = true) (hkey : r.cacheKey p.config.defaultProjection = .ok key)
    (hq : (p.compile model r 0).1 = .ok q) (h : lookup? model key s = some list) :
    (p.list backend model r s).1 = .ok list := by
  have hmodel : p.model model = .ok m := by
    unfold Provider.model
    rw [hm]
  have hboth := both_compile hp model r s.uses 0
  rw [hq] at hboth
  obtain ⟨q', hq', -⟩ := hboth.of_ok
  generalize huses' : (p.compile model r s.uses).2 = uses
  have hc : p.compile model r s.uses = (.ok q', uses) := Prod.ext hq' huses'
  obtain ⟨statement, hstatement⟩ := rowStatement_of_serves (.request hc)
  have hcompiling : p.compiling model r s = (.ok q', { s with uses }) :=
    counting_ok_iff.2 ⟨uses, hc, rfl⟩
  unfold Provider.list listWith
  rw [hmodel, bind_of_ok (lift_apply _ s), bind_of_ok hcompiling, hstatement,
    bind_of_ok (lift_apply _ _), if_pos huses, hkey, bind_of_ok (lift_apply _ _)]
  rw [cachedList_hit (s := { s with uses }) h]

end RecordQuery.Provider
