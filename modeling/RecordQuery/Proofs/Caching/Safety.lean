import RecordQuery.Proofs.Caching.Sequence

namespace RecordQuery

open Steps

/-- A criterion with a value, the request or the provider forbids the cache. -/
def Provider.Bypasses (p : Provider) (r : Request) : Prop :=
  (∃ entry ∈ r.criteria, entry.2.isNull = false) ∨ r.cached = some false ∨
    p.config.useCache = false

def Traffic.withCache (t : Traffic) (model : String) (c : ListCache Loaded) : Traffic :=
  ⟨{ t.session with caches := t.session.caches.insert model c }, t.calls⟩

/-- The step leaves the cache of the model as it is, and would be the same with any other. -/
structure Ignores (p : Provider) (model : String) (t : Traffic) (event : Event) (t' : Traffic) :
    Prop where
  unchanged : t'.session.caches.get? model = t.session.caches.get? model
  unread : ∀ c, Happens p model (t.withCache model c) event (t'.withCache model c)

section

variable {p : Provider} {model : String} {uses : Nat} {past : List Event} {t t' : Traffic}
  {event : Event} {i : Nat} {r : Request}

theorem Provider.Bypasses.usesCache (h : p.Bypasses r) (m : Model) : p.usesCache m r = false := by
  unfold Provider.usesCache
  rcases h with ⟨entry, hmem, hbag⟩ | hcached | hconfig
  · have hcriteria : r.hasCriteria = true := List.any_eq_true.2 ⟨entry, hmem, by simp [hbag]⟩
    simp [hcriteria]
  · simp [hcached]
  · simp [hconfig]

theorem Provider.Bypasses.look (h : p.Bypasses r) (model : String) (s : Session)
    (caches : Fields (ListCache Loaded)) :
    p.look model r { s with caches }
      = ((p.look model r s).1, { (p.look model r s).2 with caches }) := by
  obtain ⟨x, uses, hkey, hlook⟩ := p.look_eq model r s.uses
  have hfound : ∀ s : Session, x.map (Provider.found model s) = x.map .inr := by
    intro s
    cases x with
    | error e => rfl
    | ok errand =>
      have hnone : errand.key = none := by
        cases hsome : errand.key with
        | none => rfl
        | some key =>
          obtain ⟨m, -, huses, -⟩ := hkey errand key rfl hsome
          rw [h.usesCache] at huses
          cases huses
      change Except.ok (Provider.found model s errand) = _
      unfold Provider.found
      rw [hnone]
      rfl
  rw [hlook s rfl, hlook { s with caches } rfl, hfound, hfound]

theorem ignores_lookup (h : p.Bypasses r) (hi : t.calls[i]? = some (r, .called)) :
    Ignores p model t (.lookup i) (t.proceed i r (.afterLook (p.look model r t.session).1)
      (p.look model r t.session).2) where
  unchanged := congrArg (Fields.get? model) (p.look_session model r t.session).1
  unread := by
    intro c
    have hlook := h.look model t.session (t.session.caches.insert model c)
    have hcall : (t.withCache model c).calls[i]? = some (r, .called) := hi
    have hstep := @Happens.lookup p model _ _ _ hcall
    unfold Traffic.withCache at hstep ⊢
    rw [hlook] at hstep
    unfold Traffic.proceed at hstep ⊢
    rw [(p.look_session model r t.session).1]
    exact hstep

theorem ignores_execute {errand : Errand} (rows : Except Error (List Record))
    (hi : t.calls[i]? = some (r, .missed errand)) :
    Ignores p model t (.execute i rows) (t.proceed i r
      (.afterLoad errand.key (Provider.receive rows t.session).1)
      (Provider.receive rows t.session).2) where
  unchanged := congrArg (Fields.get? model) (Provider.receive_session rows t.session).1
  unread := by
    intro c
    have hcall : (t.withCache model c).calls[i]? = some (r, .missed errand) := hi
    have hstep := @Happens.execute p model _ _ _ _ rows hcall
    cases rows <;> exact hstep

theorem ignores_of_bypasses (hpast : History p model uses past t)
    (hcaller : event.caller? = some i) (hr : t.request? i = some r) (h : p.Bypasses r)
    (hevent : Happens p model t event t') : Ignores p model t event t' := by
  have hrequest : ∀ {j r' stage}, some j = some i → t.calls[j]? = some (r', stage) → r' = r := by
    intro j r' stage hj hget
    cases hj
    unfold Traffic.request? at hr
    rw [hget] at hr
    exact Option.some.inj hr
  cases hevent with
  | @lookup j r' hj =>
    cases hrequest hcaller hj
    exact ignores_lookup h hj
  | @execute j r' errand rows hj => exact ignores_execute rows hj
  | @replace j r' key list hj =>
    cases hrequest hcaller hj
    obtain ⟨-, m, -, huses, -⟩ := hpast.traced.stages j r _ hj
    rw [h.usesCache m] at huses
    cases huses
  | call => cases hcaller
  | elsewhere => cases hcaller
  | invalidate => cases hcaller
  | advance => cases hcaller

theorem ignores_failure {e : Error} (h : Happens p model t (.execute i (.error e)) t') :
    Ignores p model t (.execute i (.error e)) t' ∧
      ∃ r, t'.calls[i]? = some (r, .over (.error e)) := by
  cases h with
  | @execute _ r errand _ hi =>
    refine ⟨ignores_execute (.error e) hi, r, ?_⟩
    rw [Traffic.calls_proceed, if_pos rfl, if_pos (List.getElem?_eq_some_iff.1 hi).1]
    rfl

theorem answered_cases (h : History p model uses past t) {list : Loaded}
    (hi : t.calls[i]? = some (r, .over (.ok list))) :
    ownSteps i past = [.lookup i] ∨ .execute i (.ok list.rows) ∈ past := by
  have hsub : ∀ event ∈ ownSteps i past, event ∈ past := fun _ h => List.mem_of_mem_filter h
  obtain ⟨hafter, -⟩ := h.traced.stages i r _ hi
  generalize ownSteps i past = steps at hafter hsub
  cases hafter with
  | hit => exact .inl rfl
  | passed => exact .inr (hsub _ (by simp))
  | kept => exact .inr (hsub _ (by simp))

end

/-- In every history: the entry is the list that one call loaded, under the key of the call and
stamped with the time it was put there; a call is answered with the rows read for it, or from an
entry with its key that is younger than the timeout; a call that may not be cached, and a failed
execution, neither read the cache of the model nor change it. And every list call of a provider is
such a history, with those that its execution makes. -/
theorem interleaved_calls_safe (p : Provider) (model : String) (uses : Nat) (past : List Event)
    (t : Traffic) (h : History p model uses past t) :
    (∀ e, t.entry? model = some e → ∃ i before after, Stored p model past t e i before after) ∧
    (∀ i r list, t.calls[i]? = some (r, .over (.ok list)) → .execute i (.ok list.rows) ∈ past ∨
      ∃ before after u e, Served p model uses past i r list before after u e) ∧
    (∀ event t' i r, event.caller? = some i → t.request? i = some r → p.Bypasses r →
      Happens p model t event t' → Ignores p model t event t') ∧
    (∀ i e t', Happens p model t (.execute i (.error e)) t' →
      Ignores p model t (.execute i (.error e)) t' ∧
        ∃ r, t'.calls[i]? = some (r, .over (.error e))) ∧
    ∀ backend r, ∃ events rest, History p model uses (past ++ events)
      ⟨(p.list backend model r t.session).2,
        t.calls ++ (r, .over (p.list backend model r t.session).1) :: rest⟩ := by
  refine ⟨h.traced.entry, ?_, ?_, ?_, ?_⟩
  · intro i r list hi
    obtain hhit | hown := answered_cases h hi
    · exact .inr (h.traced.hits i r list hi hhit)
    · exact .inl hown
  · exact fun event t' i r hcaller hr hbypass hevent =>
      ignores_of_bypasses h hcaller hr hbypass hevent
  · exact fun i e t' hevent => ignores_failure hevent
  · exact fun backend r => Provider.call_follows (Provider.follows_execute backend p.fuel) h r

namespace Blog

def overlapping : List Event :=
  [.call .empty, .call .empty, .lookup 0, .lookup 1, .advance 5, .execute 0 (.ok [[]]), .replace 0,
    .call .empty, .advance 999, .lookup 2, .call (Request.empty.withCached false)]

end Blog

theorem interleaved_calls_safe_blog :
    ∃ t e r list, History Blog.cachedProvider "Post" 0 Blog.overlapping t ∧
      t.entry? "Post" = some e ∧ t.calls[2]? = some (r, .over (.ok list)) ∧
      (∃ i before after,
        Stored Blog.cachedProvider "Post" Blog.overlapping t e i before after ∧ e.stamp = 5) ∧
      (∃ before after u e,
        Served Blog.cachedProvider "Post" 0 Blog.overlapping 2 r list before after u e) ∧
      (∃ t', Ignores Blog.cachedProvider "Post" t (.execute 1 (.error .noCount)) t') ∧
      (∃ t', Ignores Blog.cachedProvider "Post" t (.lookup 3) t') ∧
      ∃ events rest, History Blog.cachedProvider "Post" 0 (Blog.overlapping ++ events)
        ⟨(Blog.cachedProvider.list Blog.backend "Post" .empty t.session).2, t.calls ++ rest⟩ := by
  have hstamp : ((Traffic.run? Blog.cachedProvider "Post" 0 Blog.overlapping).bind
      fun t => (t.entry? "Post").map CacheEntry.stamp) = some 5 := by
    decide +kernel
  have hserial : ((Traffic.run? Blog.cachedProvider "Post" 0 Blog.overlapping).bind
      fun t => (t.answer? 2).map fun answer => answer.2.serial) = some 0 := by
    decide +kernel
  have hfails : ((Traffic.run? Blog.cachedProvider "Post" 0 Blog.overlapping).bind
      (Traffic.take? Blog.cachedProvider "Post" · (.execute 1 (.error .noCount)))).isSome := by
    decide +kernel
  have hlooks : ((Traffic.run? Blog.cachedProvider "Post" 0 Blog.overlapping).bind
      (Traffic.take? Blog.cachedProvider "Post" · (.lookup 3))).isSome := by
    decide +kernel
  have hrequest : ((Traffic.run? Blog.cachedProvider "Post" 0 Blog.overlapping).bind
      fun t => (t.request? 3).map Request.cached) = some (some false) := by
    decide +kernel
  cases hrun : Traffic.run? Blog.cachedProvider "Post" 0 Blog.overlapping with
  | none =>
    rw [hrun] at hstamp
    cases hstamp
  | some t =>
    rw [hrun, Option.bind_some] at hstamp hserial hfails hlooks hrequest
    obtain ⟨e, he, hstamp⟩ := Option.map_eq_some_iff.1 hstamp
    obtain ⟨⟨r, list⟩, hanswer, -⟩ := Option.map_eq_some_iff.1 hserial
    obtain ⟨t₁, hfails⟩ := Option.isSome_iff_exists.1 hfails
    obtain ⟨t₃, hlooks⟩ := Option.isSome_iff_exists.1 hlooks
    obtain ⟨r₃, hr₃, hcached⟩ := Option.map_eq_some_iff.1 hrequest
    have hhistory := history_of_run? hrun
    obtain ⟨hentry, hover, hbypass, hfailure, hlist⟩ :=
      interleaved_calls_safe Blog.cachedProvider "Post" 0 Blog.overlapping t hhistory
    obtain ⟨i, before, after, hstored⟩ := hentry e he
    have hcall := Traffic.calls_of_answer? hanswer
    have hserved := (hover 2 r list hcall).resolve_left (by simp [Blog.overlapping])
    obtain ⟨events, rest, hnext⟩ := hlist Blog.backend .empty
    exact ⟨t, e, r, list, hhistory, he, hcall, ⟨i, before, after, hstored, hstamp⟩, hserved,
      ⟨t₁, (hfailure 1 .noCount t₁ (happens_of_take? hfails)).1⟩,
      ⟨t₃, hbypass _ t₃ 3 r₃ rfl hr₃ (.inr (.inl hcached)) (happens_of_take? hlooks)⟩,
      events, _, hnext⟩

end RecordQuery
