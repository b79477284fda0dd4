import RecordQuery.Proofs.Caching.Fuel

namespace RecordQuery.Provider

open Steps

variable {p : Provider} {backend : Backend} {R : String → Request → Prop} {model : String}
  {r : Request} {s : Session}

def Kept (p : Provider) (s : Session) : Prop :=
  ∀ model m timeout, p.models.get? model = some m → m.cacheTimeout = some timeout →
    ∃ c, s.caches.get? model = some c ∧ c.timeout = timeout

/-- The rows of an entry are the answer to a request that may be cached under its key. -/
def Right (p : Provider) (backend : Backend) (R : String → Request → Prop) (model : String)
    (e : CacheEntry Loaded) : Prop :=
  ∃ m r, p.models.get? model = some m ∧ R model r ∧ p.usesCache m r = true ∧
    r.cacheKey p.config.defaultProjection = .ok e.key ∧
    p.answerTo (p.answer backend p.fuel) model r = .ok e.rows.rows

structure Sound (p : Provider) (backend : Backend) (R : String → Request → Prop) (s : Session) :
    Prop where
  kept : p.Kept s
  right : ∀ model c e, s.caches.get? model = some c → c.entry = some e → p.Right backend R model e

/-- Of two requests cached under one key, the second has the answer of the first, if it
compiles. -/
def Decided (p : Provider) (backend : Backend) (R : String → Request → Prop) : Prop :=
  ∀ model m timeout r r' key rows q, p.models.get? model = some m →
    m.cacheTimeout = some timeout → 0 < timeout → R model r → R model r' →
    p.usesCache m r = true → p.usesCache m r' = true →
    r.cacheKey p.config.defaultProjection = .ok key →
    r'.cacheKey p.config.defaultProjection = .ok key →
    p.answerTo (p.answer backend p.fuel) model r = .ok rows → (p.compile model r' 0).1 = .ok q →
    p.answerTo (p.answer backend p.fuel) model r' = .ok rows

theorem timeout_of_usesCache {m : Model} (h : p.usesCache m r = true) :
    ∃ timeout, m.cacheTimeout = some timeout := by
  unfold usesCache at h
  cases ht : m.cacheTimeout with
  | none =>
    rw [ht] at h
    cases h
  | some timeout => exact ⟨timeout, rfl⟩

theorem fresh_of_lookup {key : String} {list : Loaded} (h : lookup? model key s = some list) :
    ∃ c e, s.caches.get? model = some c ∧ c.entry = some e ∧ e.key = key ∧
      s.clock - e.stamp < c.timeout ∧ e.rows = list := by
  unfold lookup? cacheOf? at h
  obtain ⟨c, hc, hfresh⟩ := Option.bind_eq_some_iff.1 h
  unfold ListCache.fresh? at hfresh
  cases he : c.entry with
  | none =>
    rw [he] at hfresh
    cases hfresh
  | some e =>
    rw [he] at hfresh
    simp only [Option.ite_none_right_eq_some, Option.some.injEq] at hfresh
    exact ⟨c, e, hc, he, hfresh.1.1, hfresh.1.2, hfresh.2⟩

theorem Kept.insert (h : p.Kept s) {c d : ListCache Loaded} (hc : s.caches.get? model = some c)
    (hd : d.timeout = c.timeout) : p.Kept { s with caches := s.caches.insert model d } := by
  intro name m timeout hm ht
  obtain ⟨c', hc', htimeout⟩ := h name m timeout hm ht
  by_cases hname : model = name
  · subst hname
    cases hc.symm.trans hc'
    exact ⟨d, Fields.get?_insert_self _ _ _, hd.trans htimeout⟩
  · exact ⟨c', (Fields.get?_insert_of_ne hname _ _).trans hc', htimeout⟩

theorem Sound.insert (h : p.Sound backend R s) {c d : ListCache Loaded}
    (hc : s.caches.get? model = some c) (hd : d.timeout = c.timeout)
    (he : ∀ e, d.entry = some e → p.Right backend R model e) :
    p.Sound backend R { s with caches := s.caches.insert model d } := by
  refine ⟨h.kept.insert hc hd, ?_⟩
  intro name c' e hc' he'
  by_cases hname : model = name
  · subst hname
    cases (Fields.get?_insert_self model d s.caches).symm.trans hc'
    exact he e he'
  · exact h.right name c' e ((Fields.get?_insert_of_ne hname d s.caches).symm.trans hc') he'

theorem maintains_store {key : String} {list : Loaded}
    (hright : ∀ stamp, p.Right backend R model ⟨stamp, key, list⟩) :
    Maintains (p.Sound backend R) (store model key list) fun _ => True := by
  apply maintains_modify
  intro s hs
  cases hc : cacheOf? model s with
  | none => exact hs
  | some c =>
    refine hs.insert (d := c.replace s.clock key list) hc rfl ?_
    rintro e ⟨rfl⟩
    exact hright _

theorem maintains_invalidate (model : String) :
    Maintains (p.Sound backend R) (p.invalidate model) fun _ => True := by
  apply maintains_bind (maintains_lift (Q := fun _ => True) fun _ _ => trivial)
  intro m _
  apply maintains_modify
  intro s hs
  cases hc : cacheOf? model s with
  | none => exact hs
  | some c =>
    refine hs.insert (d := c.invalidate) hc rfl ?_
    rintro e ⟨⟩

theorem maintains_advance (ms : Nat) :
    Maintains (p.Sound backend R) (advance ms) fun _ => True :=
  maintains_modify fun _ hs => ⟨hs.kept, hs.right⟩

theorem hit_right (hR : p.Decided backend R) (hs : p.Sound backend R s) {m : Model}
    {q : CompiledQuery} {key : String} {list : Loaded} (hm : p.models.get? model = some m)
    (hr : R model r) (huses : p.usesCache m r = true)
    (hkey : r.cacheKey p.config.defaultProjection = .ok key) (hq : (p.compile model r 0).1 = .ok q)
    (h : lookup? model key s = some list) :
    p.answerTo (p.answer backend p.fuel) model r = .ok list.rows := by
  obtain ⟨c, e, hc, he, rfl, hfresh, rfl⟩ := fresh_of_lookup h
  obtain ⟨m', r', hm', hr', huses', hkey', hanswer⟩ := hs.right model c e hc he
  cases hm.symm.trans hm'
  obtain ⟨timeout, htimeout⟩ := timeout_of_usesCache huses
  obtain ⟨c', hc', hct⟩ := hs.kept model m timeout hm htimeout
  cases hc.symm.trans hc'
  exact hR model m timeout r' r e.key e.rows.rows q hm htimeout (by omega) hr' hr huses' huses hkey'
    hkey hanswer hq

end RecordQuery.Provider
