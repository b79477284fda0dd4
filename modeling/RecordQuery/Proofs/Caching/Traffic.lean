import RecordQuery.Proofs.Caching.Interleaving
import RecordQuery.Proofs.Transparency

namespace RecordQuery

open Steps

namespace Provider

variable {p : Provider} {model : String} {r : Request} {s : Session}

def Cacheable (p : Provider) (model : String) (r : Request) (key : String) : Prop :=
  ∃ m, p.models.get? model = some m ∧ p.usesCache m r = true ∧
    r.cacheKey p.config.defaultProjection = .ok key

inductive Looked (p : Provider) (model : String) (r : Request) (s : Session) :
    Except Error (Loaded ⊕ Errand) → Prop
  | refused (e : Error) : Looked p model r s (.error e)
  | hit {key : String} {list : Loaded} : p.Cacheable model r key →
    lookup? model key s = some list → Looked p model r s (.ok (.inl list))
  | missed {errand : Errand} : (∀ key, errand.key = some key → p.Cacheable model r key) →
    Looked p model r s (.ok (.inr errand))

theorem cacheable_of_errand {m : Model} {q : CompiledQuery} {errand : Errand} {key : String}
    (hm : p.model model = .ok m) (h : p.errand m r q = .ok errand) (hkey : errand.key = some key) :
    p.Cacheable model r key := by
  obtain ⟨statement, -, h⟩ := except_bind_ok h
  split at h
  · next huses =>
    obtain ⟨key', hkey', h⟩ := except_bind_ok h
    cases h
    cases hkey
    exact ⟨m, get?_of_model hm, huses, hkey'⟩
  · cases h
    cases hkey

theorem look_eq (p : Provider) (model : String) (r : Request) (uses : Nat) :
    ∃ (x : Except Error Errand) (uses' : Nat),
      (∀ errand key, x = .ok errand → errand.key = some key → p.Cacheable model r key) ∧
      ∀ s : Session, s.uses = uses →
        p.look model r s = (x.map (found model s), { s with uses := uses' }) := by
  cases hm : p.model model with
  | error e =>
    refine ⟨.error e, uses, nofun, ?_⟩
    rintro s rfl
    unfold look
    rw [hm]
    rfl
  | ok m =>
    rcases hq : p.compile model r uses with ⟨x, uses'⟩
    refine ⟨x >>= p.errand m r, uses', ?_, ?_⟩
    · intro errand key h hkey
      obtain ⟨q, -, h⟩ := except_bind_ok h
      exact cacheable_of_errand hm h hkey
    · rintro s rfl
      have hcompiling : p.compiling model r s = (x, { s with uses := uses' }) := by
        rw [compiling, counting_apply, hq]
      unfold look
      rw [hm, bind_of_ok (lift_apply (.ok m) s), bind_apply, hcompiling]
      cases x with
      | error e => rfl
      | ok q =>
        change ((liftM (p.errand m r q) : Steps Session Errand) >>= _) _
          = ((p.errand m r q).map _, _)
        cases p.errand m r q <;> rfl

theorem looked_look (p : Provider) (model : String) (r : Request) (s : Session) :
    p.Looked model r s (p.look model r s).1 ∧ ∃ uses, (p.look model r s).2 = { s with uses } := by
  obtain ⟨x, uses, hkey, hlook⟩ := p.look_eq model r s.uses
  rw [hlook s rfl]
  refine ⟨?_, uses, rfl⟩
  cases x with
  | error e => exact .refused e
  | ok errand =>
    have hfound : ∀ key, errand.key = some key → p.Cacheable model r key :=
      fun key => hkey errand key rfl
    change p.Looked model r s (.ok (found model s errand))
    unfold found
    cases hlist : errand.key.bind fun key => lookup? model key s with
    | none => exact .missed hfound
    | some list =>
      obtain ⟨key, hsome, hlist⟩ := Option.bind_eq_some_iff.1 hlist
      exact .hit (hfound key hsome) hlist

theorem invalidate_cases (p : Provider) (model : String) (s : Session) :
    ((p.models.get? model = none ∨ s.caches.get? model = none) ∧ (p.invalidate model s).2 = s) ∨
      ∃ c, s.caches.get? model = some c ∧
        (p.invalidate model s).2 = { s with caches := s.caches.insert model c.invalidate } := by
  unfold invalidate
  cases hm : p.model model with
  | error e =>
    refine .inl ⟨.inl ?_, rfl⟩
    cases hget : p.models.get? model with
    | none => rfl
    | some m => simp [Provider.model, hget] at hm
  | ok m =>
    rw [bind_of_ok (lift_apply (.ok m) s), modify_apply]
    cases hc : cacheOf? model s with
    | none => exact .inl ⟨.inr hc, rfl⟩
    | some c => exact .inr ⟨c, hc, rfl⟩

theorem look_session (p : Provider) (model : String) (r : Request) (s : Session) :
    (p.look model r s).2.caches = s.caches ∧ (p.look model r s).2.clock = s.clock := by
  obtain ⟨-, uses, h⟩ := p.looked_look model r s
  rw [h]
  exact ⟨rfl, rfl⟩

theorem receive_session (rows : Except Error (List Record)) (s : Session) :
    (receive rows s).2.caches = s.caches ∧ (receive rows s).2.clock = s.clock := by
  cases rows <;> exact ⟨rfl, rfl⟩

end Provider

inductive Stage.After (i : Nat) : Stage → List Event → Prop
  | called : After i .called []
  | missed (errand : Errand) : After i (.missed errand) [.lookup i]
  | refused (e : Error) : After i (.over (.error e)) [.lookup i]
  | hit (list : Loaded) : After i (.over (.ok list)) [.lookup i]
  | failed (e : Error) : After i (.over (.error e)) [.lookup i, .execute i (.error e)]
  | loaded (key : String) (list : Loaded) :
    After i (.loaded key list) [.lookup i, .execute i (.ok list.rows)]
  | passed (list : Loaded) : After i (.over (.ok list)) [.lookup i, .execute i (.ok list.rows)]
  | kept (list : Loaded) :
    After i (.over (.ok list)) [.lookup i, .execute i (.ok list.rows), .replace i]

def Stage.Keyed (p : Provider) (model : String) (r : Request) : Stage → Prop
  | .missed errand => ∀ key, errand.key = some key → p.Cacheable model r key
  | .loaded key _ => p.Cacheable model r key
  | _ => True

inductive Stage.Moves (p : Provider) (model : String) (s : Session) (i : Nat) (r : Request) :
    Stage → Event → Stage → Prop
  | lookup : Moves p model s i r .called (.lookup i) (.afterLook (p.look model r s).1)
  | execute (errand : Errand) (rows : Except Error (List Record)) :
    Moves p model s i r (.missed errand) (.execute i rows)
      (.afterLoad errand.key (Provider.receive rows s).1)
  | replace (key : String) (list : Loaded) :
    Moves p model s i r (.loaded key list) (.replace i) (.over (.ok list))

def Traffic.request? (t : Traffic) (i : Nat) : Option Request := (t.calls[i]?).map Prod.fst

/-- The entry was put there by a call under its key, with the rows that were read for the call, at
the time of the stamp; and no other came over it. -/
structure Stored (p : Provider) (model : String) (past : List Event) (t : Traffic)
    (e : CacheEntry Loaded) (i : Nat) (before after : List Event) : Prop where
  replaced : past = before ++ .replace i :: after
  executed : ownSteps i before = [.lookup i, .execute i (.ok e.rows.rows)]
  key : ∃ r, t.request? i = some r ∧ p.Cacheable model r e.key
  stamp : e.stamp = elapsed before
  last : ∀ event ∈ after, event.rewrites = false

/-- The call found the list in an entry under its key, which was younger than the timeout. -/
structure Served (p : Provider) (model : String) (uses : Nat) (past : List Event) (i : Nat)
    (r : Request) (list : Loaded) (before after : List Event) (u : Traffic)
    (e : CacheEntry Loaded) : Prop where
  looked : past = before ++ .lookup i :: after
  history : History p model uses before u
  entry : u.entry? model = some e
  key : p.Cacheable model r e.key
  rows : e.rows = list
  young : ∃ m timeout, p.models.get? model = some m ∧ m.cacheTimeout = some timeout ∧
    elapsed before < e.stamp + timeout

namespace Traffic

structure Traced (p : Provider) (model : String) (uses : Nat) (past : List Event) (t : Traffic) :
    Prop where
  clock : t.session.clock = elapsed past
  timeout : ∀ m timeout, p.models.get? model = some m → m.cacheTimeout = some timeout →
    ∃ c, t.session.caches.get? model = some c ∧ c.timeout = timeout
  stages : ∀ i r (stage : Stage), t.calls[i]? = some (r, stage) →
    stage.After i (ownSteps i past) ∧ stage.Keyed p model r
  idle : ∀ i, t.calls[i]? = none → ownSteps i past = []
  hits : ∀ i r list, t.calls[i]? = some (r, .over (.ok list)) → ownSteps i past = [.lookup i] →
    ∃ before after u e, Served p model uses past i r list before after u e
  entry : ∀ e, t.entry? model = some e →
    ∃ i before after, Stored p model past t e i before after

end Traffic

section Steps

variable {p : Provider} {model : String} {uses : Nat} {past : List Event} {t t' : Traffic}
  {event : Event} {i j : Nat} {r : Request} {stage : Stage} {e : CacheEntry Loaded} {s : Session}

theorem Traffic.calls_proceed (t : Traffic) (j : Nat) (r : Request) (stage : Stage) (s : Session)
    (i : Nat) : (t.proceed j r stage s).calls[i]? =
      if j = i then if j < t.calls.length then some (r, stage) else none else t.calls[i]? :=
  List.getElem?_set

theorem Traffic.calls_proceed_cases {r' : Request} {stage' : Stage}
    (h : (t.proceed j r stage s).calls[i]? = some (r', stage')) :
    (i = j ∧ r' = r ∧ stage' = stage) ∨ (j ≠ i ∧ t.calls[i]? = some (r', stage')) := by
  rw [Traffic.calls_proceed] at h
  by_cases hij : j = i
  · rw [if_pos hij] at h
    split at h
    · cases h
      exact .inl ⟨hij.symm, rfl, rfl⟩
    · cases h
  · rw [if_neg hij] at h
    exact .inr ⟨hij, h⟩

theorem ownSteps_snoc_self (h : event.caller? = some i) :
    ownSteps i (past ++ [event]) = ownSteps i past ++ [event] := by
  simp [ownSteps, h]

theorem ownSteps_snoc_of_ne (h : event.caller? ≠ some i) :
    ownSteps i (past ++ [event]) = ownSteps i past := by
  simp [ownSteps, h]

theorem elapsed_snoc : elapsed (past ++ [event]) = elapsed past + event.span := by
  simp [elapsed]

theorem request?_happens (h : Happens p model t event t') (hr : t.request? i = some r) :
    t'.request? i = some r := by
  have hproceed : ∀ {j r' stage stage' s}, t.calls[j]? = some (r', stage') →
      (t.proceed j r' stage s).request? i = some r := by
    intro j r' stage stage' s hj
    unfold Traffic.request? at hr ⊢
    rw [Traffic.calls_proceed]
    by_cases hij : j = i
    · subst hij
      rw [hj] at hr
      have hlt := (List.getElem?_eq_some_iff.1 hj).1
      rw [if_pos rfl, if_pos hlt]
      exact hr
    · rw [if_neg hij]
      exact hr
  cases h with
  | call =>
    unfold Traffic.request? at hr ⊢
    obtain ⟨x, hx, hxr⟩ := Option.map_eq_some_iff.1 hr
    have hlt := (List.getElem?_eq_some_iff.1 hx).1
    rw [List.getElem?_append_left hlt, hx]
    exact congrArg some hxr
  | lookup hj => exact hproceed hj
  | execute _ hj => exact hproceed hj
  | replace hj => exact hproceed hj
  | elsewhere => exact hr
  | invalidate => exact hr
  | advance => exact hr

theorem clock_happens (h : Happens p model t event t') :
    t'.session.clock = t.session.clock + event.span := by
  cases h with
  | call => rfl
  | lookup => exact (p.look_session model _ _).2
  | execute => exact (Provider.receive_session _ _).2
  | @replace i r key list =>
    change (Provider.store model key list t.session).2.clock = _
    obtain ⟨-, hs⟩ | ⟨c, -, hs⟩ := Provider.store_cases model key list t.session
    · rw [hs]
      rfl
    · rw [hs]
      rfl
  | elsewhere hbeside => exact hbeside.clock
  | invalidate =>
    change (p.invalidate model t.session).2.clock = _
    obtain ⟨-, hs⟩ | ⟨c, -, hs⟩ := p.invalidate_cases model t.session
    · rw [hs]
      rfl
    · rw [hs]
      rfl
  | advance => rfl

theorem timeout_happens (h : Happens p model t event t') {c : ListCache Loaded}
    (hc : t.session.caches.get? model = some c) :
    ∃ c', t'.session.caches.get? model = some c' ∧ c'.timeout = c.timeout := by
  cases h with
  | call => exact ⟨c, hc, rfl⟩
  | lookup => exact ⟨c, (congrArg _ (p.look_session model _ _).1).trans hc, rfl⟩
  | execute => exact ⟨c, (congrArg _ (Provider.receive_session _ _).1).trans hc, rfl⟩
  | @replace i r key list =>
    change ∃ c', (Provider.store model key list t.session).2.caches.get? model = some c' ∧ _
    obtain ⟨-, hs⟩ | ⟨d, hd, hs⟩ := Provider.store_cases model key list t.session
    · rw [hs]
      exact ⟨c, hc, rfl⟩
    · cases hc.symm.trans hd
      rw [hs]
      exact ⟨_, Fields.get?_insert_self _ _ _, rfl⟩
  | elsewhere hbeside => exact ⟨c, hbeside.cache.trans hc, rfl⟩
  | invalidate =>
    change ∃ c', (p.invalidate model t.session).2.caches.get? model = some c' ∧ _
    obtain ⟨-, hs⟩ | ⟨d, hd, hs⟩ := p.invalidate_cases model t.session
    · rw [hs]
      exact ⟨c, hc, rfl⟩
    · cases hc.symm.trans hd
      rw [hs]
      exact ⟨_, Fields.get?_insert_self _ _ _, rfl⟩
  | advance => exact ⟨c, hc, rfl⟩

theorem entry_happens (h : Happens p model t event t') (he : t'.entry? model = some e) :
    (t.entry? model = some e ∧ (event.rewrites = false ∨ p.models.get? model = none)) ∨
      ∃ i r, event = .replace i ∧ t.calls[i]? = some (r, .loaded e.key e.rows) ∧
        e.stamp = t.session.clock := by
  -- only the last step of a call puts an entry there
  cases h with
  | call => exact .inl ⟨he, .inl rfl⟩
  | @lookup i r =>
    unfold Traffic.entry? Traffic.proceed at he
    rw [(p.look_session model _ _).1] at he
    exact .inl ⟨he, .inl rfl⟩
  | execute =>
    unfold Traffic.entry? Traffic.proceed at he
    rw [(Provider.receive_session _ _).1] at he
    exact .inl ⟨he, .inl rfl⟩
  | @replace i r key list hi =>
    unfold Traffic.entry? Traffic.proceed at he
    obtain ⟨hnone, hs⟩ | ⟨c, -, hs⟩ := Provider.store_cases model key list t.session
    · rw [hs, hnone] at he
      cases he
    · rw [hs, Fields.get?_insert_self] at he
      cases he
      exact .inr ⟨i, r, rfl, hi, rfl⟩
  | elsewhere hbeside =>
    unfold Traffic.entry? at he
    rw [hbeside.cache] at he
    exact .inl ⟨he, .inl rfl⟩
  | invalidate =>
    unfold Traffic.entry? at he
    obtain ⟨hnone, hs⟩ | ⟨c, -, hs⟩ := p.invalidate_cases model t.session
    · rw [hs] at he
      rcases hnone with hm | hc
      · exact .inl ⟨he, .inr hm⟩
      · rw [hc] at he
        cases he
    · rw [hs, Fields.get?_insert_self] at he
      cases he
  | advance => exact .inl ⟨he, .inl rfl⟩

theorem stage_happens (h : Happens p model t event t') (hi : t'.calls[i]? = some (r, stage)) :
    (t.calls[i]? = some (r, stage) ∧ event.caller? ≠ some i) ∨
      (t.calls[i]? = none ∧ stage = .called ∧ event.caller? = none) ∨
      ∃ stage', t.calls[i]? = some (r, stage') ∧ event.caller? = some i ∧
        stage'.Moves p model t.session i r event stage := by
  cases h with
  | call r' =>
    rw [List.getElem?_append] at hi
    split at hi
    · exact .inl ⟨hi, nofun⟩
    · next hge =>
      obtain ⟨hlt, hcalled⟩ := List.getElem?_eq_some_iff.1 hi
      rw [List.getElem_singleton] at hcalled
      cases hcalled
      exact .inr (.inl ⟨List.getElem?_eq_none (Nat.not_lt.1 hge), rfl, rfl⟩)
  | @lookup j r' hj =>
    obtain ⟨rfl, rfl, rfl⟩ | ⟨hne, hi⟩ := Traffic.calls_proceed_cases hi
    · exact .inr (.inr ⟨_, hj, rfl, .lookup⟩)
    · exact .inl ⟨hi, fun h => hne (Option.some.inj h)⟩
  | @execute j r' errand rows hj =>
    obtain ⟨rfl, rfl, rfl⟩ | ⟨hne, hi⟩ := Traffic.calls_proceed_cases hi
    · exact .inr (.inr ⟨_, hj, rfl, .execute errand rows⟩)
    · exact .inl ⟨hi, fun h => hne (Option.some.inj h)⟩
  | @replace j r' key list hj =>
    obtain ⟨rfl, rfl, rfl⟩ | ⟨hne, hi⟩ := Traffic.calls_proceed_cases hi
    · exact .inr (.inr ⟨_, hj, rfl, .replace key list⟩)
    · exact .inl ⟨hi, fun h => hne (Option.some.inj h)⟩
  | elsewhere => exact .inl ⟨hi, nofun⟩
  | invalidate => exact .inl ⟨hi, nofun⟩
  | advance => exact .inl ⟨hi, nofun⟩

theorem idle_happens (h : Happens p model t event t') (hi : t'.calls[i]? = none) :
    t.calls[i]? = none ∧ event.caller? ≠ some i := by
  have hproceed : ∀ {j r' stage stage' s}, t.calls[j]? = some (r', stage') →
      (t.proceed j r' stage s).calls[i]? = none → t.calls[i]? = none ∧ some j ≠ some i := by
    intro j r' stage stage' s hj hi
    rw [Traffic.calls_proceed] at hi
    by_cases hij : j = i
    · rw [if_pos hij, if_pos (List.getElem?_eq_some_iff.1 hj).1] at hi
      cases hi
    · rw [if_neg hij] at hi
      exact ⟨hi, fun h => hij (Option.some.inj h)⟩
  cases h with
  | call =>
    rw [List.getElem?_eq_none_iff, List.length_append] at hi
    exact ⟨List.getElem?_eq_none (by omega), nofun⟩
  | lookup hj => exact hproceed hj hi
  | execute _ hj => exact hproceed hj hi
  | replace hj => exact hproceed hj hi
  | elsewhere => exact ⟨hi, nofun⟩
  | invalidate => exact ⟨hi, nofun⟩
  | advance => exact ⟨hi, nofun⟩

theorem after_moves {stage' : Stage} {steps : List Event}
    (h : stage.Moves p model s i r event stage') (ha : stage.After i steps)
    (hk : stage.Keyed p model r) :
    stage'.After i (steps ++ [event]) ∧ stage'.Keyed p model r := by
  cases h with
  | lookup =>
    cases ha
    obtain ⟨hlooked, -⟩ := p.looked_look model r s
    generalize (p.look model r s).1 = x at hlooked
    cases hlooked with
    | refused e => exact ⟨.refused e, trivial⟩
    | hit => exact ⟨.hit _, trivial⟩
    | missed hkey => exact ⟨.missed _, hkey⟩
  | execute errand rows =>
    cases ha
    cases rows with
    | error e => exact ⟨.failed e, trivial⟩
    | ok rows =>
      obtain ⟨key, q, statement⟩ := errand
      cases key with
      | none => exact ⟨.passed ⟨s.loads, rows⟩, trivial⟩
      | some key => exact ⟨.loaded key ⟨s.loads, rows⟩, hk key rfl⟩
  | replace key list =>
    cases ha
    exact ⟨.kept list, trivial⟩

theorem Stored.later {before after : List Event} (hs : Stored p model past t e i before after)
    (h : Happens p model t event t') (hevent : event.rewrites = false) :
    Stored p model (past ++ [event]) t' e i before (after ++ [event]) where
  replaced := by rw [hs.replaced, List.append_assoc, List.cons_append]
  executed := hs.executed
  key := by
    obtain ⟨r, hr, hkey⟩ := hs.key
    exact ⟨r, request?_happens h hr, hkey⟩
  stamp := hs.stamp
  last := by
    intro event' hmem
    rcases List.mem_append.1 hmem with hmem | hmem
    · exact hs.last event' hmem
    · rwa [List.mem_singleton.1 hmem]

theorem Stored.read {before after : List Event} (h : Stored p model past t e i before after) :
    .execute i (.ok e.rows.rows) ∈ before := by
  have hown : .execute i (.ok e.rows.rows) ∈ ownSteps i before := by
    rw [h.executed]
    simp
  exact List.mem_of_mem_filter hown

theorem Served.later {list : Loaded} {before after : List Event} {u : Traffic}
    (hs : Served p model uses past i r list before after u e) :
    Served p model uses (past ++ [event]) i r list before (after ++ [event]) u e :=
  { hs with looked := by rw [hs.looked, List.append_assoc, List.cons_append] }

namespace Traffic.Traced

theorem start : Traced p model uses [] ⟨p.session uses, []⟩ where
  clock := rfl
  timeout := fun m timeout hm ht => Provider.kept_session uses model m timeout hm ht
  stages := by
    intro i r stage hi
    rw [List.getElem?_nil] at hi
    cases hi
  idle := fun _ _ => rfl
  hits := by
    intro i r list hi
    rw [List.getElem?_nil] at hi
    cases hi
  entry := by
    intro e he
    obtain ⟨c, hc, hentry⟩ := Option.bind_eq_some_iff.1 he
    rw [Provider.entry_emptyCaches hc] at hentry
    cases hentry

variable (ht : Traced p model uses past t) (h : Happens p model t event t')

include ht h

theorem stages_next (i : Nat) (r : Request) (stage : Stage) (hi : t'.calls[i]? = some (r, stage)) :
    stage.After i (ownSteps i (past ++ [event])) ∧ stage.Keyed p model r := by
  obtain ⟨hi, hne⟩ | ⟨hnone, rfl, hcaller⟩ | ⟨stage', hi, hcaller, hmoves⟩ := stage_happens h hi
  · rw [ownSteps_snoc_of_ne hne]
    exact ht.stages i r stage hi
  · rw [ownSteps_snoc_of_ne (by rw [hcaller]; exact nofun), ht.idle i hnone]
    exact ⟨.called, trivial⟩
  · rw [ownSteps_snoc_self hcaller]
    obtain ⟨hafter, hkeyed⟩ := ht.stages i r stage' hi
    exact after_moves hmoves hafter hkeyed

theorem hits_next (hpast : History p model uses past t) (i : Nat) (r : Request) (list : Loaded)
    (hi : t'.calls[i]? = some (r, .over (.ok list)))
    (hsteps : ownSteps i (past ++ [event]) = [.lookup i]) :
    ∃ before after u e, Served p model uses (past ++ [event]) i r list before after u e := by
  obtain ⟨hi, hne⟩ | ⟨-, hstage, -⟩ | ⟨stage', hi, hcaller, hmoves⟩ := stage_happens h hi
  · rw [ownSteps_snoc_of_ne hne] at hsteps
    obtain ⟨before, after, u, e, hserved⟩ := ht.hits i r list hi hsteps
    exact ⟨before, after ++ [event], u, e, hserved.later⟩
  -- a call that is new has no list yet
  · cases hstage
  · rw [ownSteps_snoc_self hcaller] at hsteps
    obtain ⟨hafter, -⟩ := ht.stages i r stage' hi
    generalize hover : Stage.over (.ok list) = stage at hmoves
    generalize ownSteps i past = steps at hafter hsteps
    cases hmoves with
    | lookup =>
      obtain ⟨hlooked, -⟩ := p.looked_look model r t.session
      generalize (p.look model r t.session).1 = x at hlooked hover
      cases hlooked with
      | refused => cases hover
      | missed => cases hover
      | @hit key list' hkey hlookup =>
        cases hover
        obtain ⟨c, e, hc, he, rfl, hfresh, rfl⟩ := Provider.fresh_of_lookup hlookup
        obtain ⟨m, hm, huses, hcached⟩ := hkey
        obtain ⟨timeout, htimeout⟩ := Provider.timeout_of_usesCache huses
        obtain ⟨c', hc', hct⟩ := ht.timeout m timeout hm htimeout
        cases hc.symm.trans hc'
        refine ⟨past, [], t, e, rfl, hpast, ?_, ⟨m, hm, huses, hcached⟩, rfl, m, timeout, hm,
          htimeout, ?_⟩
        · exact Option.bind_eq_some_iff.2 ⟨c, hc, he⟩
        · rw [← ht.clock, ← hct]
          omega
    -- whatever a call did beside the lookup is among its steps
    | execute =>
      cases hafter
      cases hsteps
    | replace =>
      cases hafter
      cases hsteps

theorem entry_next (e : CacheEntry Loaded) (he : t'.entry? model = some e) :
    ∃ i before after, Stored p model (past ++ [event]) t' e i before after := by
  obtain ⟨he, hevent⟩ | ⟨i, r, rfl, hi, hstamp⟩ := entry_happens h he
  · obtain ⟨i, before, after, hstored⟩ := ht.entry e he
    rcases hevent with hevent | hm
    · exact ⟨i, before, after ++ [event], hstored.later h hevent⟩
    · obtain ⟨r, -, m, hsome, -⟩ := hstored.key
      rw [hm] at hsome
      cases hsome
  · obtain ⟨hafter, hkeyed⟩ := ht.stages i r _ hi
    refine ⟨i, past, [], rfl, ?_, ⟨r, request?_happens h ?_, hkeyed⟩, hstamp.trans ht.clock, nofun⟩
    · generalize ownSteps i past = steps at hafter
      cases hafter
      rfl
    · unfold request?
      rw [hi]
      rfl

theorem next (hpast : History p model uses past t) :
    Traced p model uses (past ++ [event]) t' where
  clock := by rw [clock_happens h, elapsed_snoc, ht.clock]
  timeout := by
    intro m timeout hm htimeout
    obtain ⟨c, hc, hct⟩ := ht.timeout m timeout hm htimeout
    obtain ⟨c', hc', hsame⟩ := timeout_happens h hc
    exact ⟨c', hc', hsame.trans hct⟩
  stages := ht.stages_next h
  idle := by
    intro i hi
    obtain ⟨hnone, hne⟩ := idle_happens h hi
    rw [ownSteps_snoc_of_ne hne]
    exact ht.idle i hnone
  hits := ht.hits_next h hpast
  entry := ht.entry_next h

end Traffic.Traced

theorem History.traced (h : History p model uses past t) : t.Traced p model uses past := by
  induction h with
  | start => exact .start
  | next hpast hevent ih => exact ih.next hevent hpast

end Steps

end RecordQuery
