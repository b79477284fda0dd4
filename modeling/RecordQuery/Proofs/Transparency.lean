import RecordQuery.Proofs.Caching.Key
import RecordQuery.Proofs.Caching.Refill

namespace RecordQuery

inductive Call
  | list (model : String) (r : Request)
  | invalidate (model : String)
  | advance (ms : Nat)

namespace Provider

open Steps

def uncached (p : Provider) : Provider := { p with config := { p.config with useCache := false } }

def replies (p : Provider) (backend : Backend) :
    List Call → Session → List (Except Error (List Record))
  | [], _ => []
  | .list model r :: calls, s =>
    (p.list backend model r s).1.map Loaded.rows ::
      p.replies backend calls (p.list backend model r s).2
  | .invalidate model :: calls, s => p.replies backend calls (p.invalidate model s).2
  | .advance ms :: calls, s => p.replies backend calls (advance ms s).2

/-- Histories of requests in `R` have the replies they have without caches. -/
def Transparent (p : Provider) (backend : Backend) (R : String → Request → Prop) : Prop :=
  ∀ calls uses, (∀ model r, .list model r ∈ calls → R model r) →
    (p.replies backend calls (p.session uses)).map ended =
      (p.uncached.replies backend calls (p.uncached.session uses)).map ended

def alone (p : Provider) (backend : Backend) (model : String) (r : Request) :
    Except Error (List Record) :=
  (p.uncached.list backend model r (p.uncached.session 0)).1.map Loaded.rows

/-- If a request in `R` has rows and may leave them in the cache, then each request in `R` that may
be served from there under its key, and compiles, has the same rows. -/
def KeyDecides (p : Provider) (backend : Backend) (R : String → Request → Prop) : Prop :=
  ∀ model m timeout r r' rows q, p.models.get? model = some m → m.cacheTimeout = some timeout →
    0 < timeout → R model r → R model r' → p.usesCache m r = true → p.usesCache m r' = true →
    r.cacheKey p.config.defaultProjection = r'.cacheKey p.config.defaultProjection →
    p.alone backend model r = .ok rows → (p.compile model r' 0).1 = .ok q →
    p.alone backend model r' = .ok rows

variable {p : Provider} {backend : Backend} {R : String → Request → Prop} {model : String}
  {r r' : Request}

theorem Constant.uncached (hp : p.Constant) : p.uncached.Constant := ⟨hp.criteria, hp.nested⟩

theorem usesCache_uncached (m : Model) (r : Request) : p.uncached.usesCache m r = false := by
  simp [usesCache, Provider.uncached]

theorem decided_uncached : p.uncached.Decided backend R := by
  intro model m timeout r r' key rows q _ _ _ _ _ huses
  rw [usesCache_uncached] at huses
  cases huses

theorem answer_uncached (fuel : Nat) : p.uncached.answer backend fuel = p.answer backend fuel := by
  induction fuel with
  | zero => rfl
  | succ fuel ih =>
    unfold answer
    rw [ih]
    rfl

theorem get?_emptyCaches {m : Model} {timeout : Nat} (hm : p.models.get? model = some m)
    (ht : m.cacheTimeout = some timeout) :
    p.emptyCaches.get? model = some (ListCache.empty timeout) := by
  have hmap : p.emptyCaches = p.models.filterMap fun entry =>
      (entry.2.cacheTimeout.map ListCache.empty).map (Prod.mk entry.1) := by
    unfold emptyCaches
    simp only [Option.map_map]
    rfl
  rw [hmap]
  apply Fields.get?_filterMap (f := fun m => m.cacheTimeout.map ListCache.empty) hm
  rw [ht]
  rfl

theorem kept_session (uses : Nat) : p.Kept (p.session uses) :=
  fun _ _ timeout hm ht => ⟨ListCache.empty timeout, get?_emptyCaches hm ht, rfl⟩

theorem entry_emptyCaches {c : ListCache Loaded} (h : p.emptyCaches.get? model = some c) :
    c.entry = none := by
  obtain ⟨⟨name, m⟩, _, hsome⟩ := List.mem_filterMap.1 (Fields.mem_of_get? h)
  cases ht : m.cacheTimeout with
  | none => simp [ht] at hsome
  | some timeout =>
    simp only [ht, Option.map_some, Option.some.injEq, Prod.mk.injEq] at hsome
    rw [← hsome.2]
    rfl

theorem sound_session (uses : Nat) : p.Sound backend R (p.session uses) := by
  constructor
  · exact kept_session uses
  · intro model c e hc he
    rw [entry_emptyCaches hc] at he
    cases he

theorem ended_list (hp : p.Constant) (hR : p.Decided backend R)
    (hsibling : ∀ entity, R entity p.siblingRequest) (hr : R model r) {s : Session}
    (hs : p.Sound backend R s) :
    ended ((p.list backend model r s).1.map Loaded.rows)
      = ended (p.answerTo (p.answer backend p.fuel) model r) :=
  (between_list hp hR hsibling hr).ended_eq hs

def answerOf? (p : Provider) (backend : Backend) :
    Call → Option (Option (Except Error (List Record)))
  | .list model r => some (ended (p.answerTo (p.answer backend p.fuel) model r))
  | _ => none

theorem answerOf?_uncached : p.uncached.answerOf? backend = p.answerOf? backend := by
  funext call
  cases call with
  | list model r =>
    unfold answerOf?
    rw [answer_uncached]
    rfl
  | _ => rfl

theorem ended_replies (hp : p.Constant) (hR : p.Decided backend R)
    (hsibling : ∀ entity, R entity p.siblingRequest) {calls : List Call}
    (hcalls : ∀ model r, .list model r ∈ calls → R model r) {s : Session}
    (hs : p.Sound backend R s) :
    (p.replies backend calls s).map ended = calls.filterMap (p.answerOf? backend) := by
  induction calls generalizing s with
  | nil => rfl
  | cons call calls ih =>
    have hrest : ∀ model r, .list model r ∈ calls → R model r :=
      fun model r h => hcalls model r (List.mem_cons_of_mem _ h)
    cases call with
    | list model r =>
      have hr := hcalls model r List.mem_cons_self
      have hnext := (between_list hp hR hsibling hr s hs).1
      rw [replies, List.map_cons, ended_list hp hR hsibling hr hs, ih hrest hnext]
      rfl
    | invalidate model => exact ih hrest (maintains_invalidate model s hs).1
    | advance ms => exact ih hrest (maintains_advance ms s hs).1

theorem ended_uncached (hp : p.Constant) {s : Session}
    (hs : p.uncached.Sound backend (fun _ _ => True) s) :
    ended ((p.uncached.list backend model r s).1.map Loaded.rows)
      = ended (p.answerTo (p.answer backend p.fuel) model r) := by
  have hlist : ended ((p.uncached.list backend model r s).1.map Loaded.rows)
      = ended (p.uncached.answerTo (p.uncached.answer backend p.uncached.fuel) model r) :=
    ended_list hp.uncached decided_uncached (fun _ => trivial) trivial hs
  rw [hlist, answer_uncached]
  rfl

theorem ended_alone (hp : p.Constant) (model : String) (r : Request) :
    ended (p.alone backend model r) = ended (p.answerTo (p.answer backend p.fuel) model r) :=
  ended_uncached hp (sound_session 0)

theorem alone_eq_ok (hp : p.Constant) {rows : List Record} :
    p.alone backend model r = .ok rows ↔
      p.answerTo (p.answer backend p.fuel) model r = .ok rows := by
  constructor
  · intro h
    apply eq_of_ended
    rw [← h, ended_alone hp]
  · intro h
    apply eq_of_ended
    rw [← h, ended_alone hp]

theorem KeyDecides.decided (hp : p.Constant) (h : p.KeyDecides backend R) :
    p.Decided backend R := by
  intro model m timeout r r' key rows q hm ht hpos hr hr' huses huses' hkey hkey' hrows hq
  apply (alone_eq_ok hp).1
  exact h model m timeout r r' rows q hm ht hpos hr hr' huses huses' (hkey.trans hkey'.symm)
    ((alone_eq_ok hp).2 hrows) hq

theorem transparent_of_keyDecides (hp : p.Constant)
    (hsibling : ∀ entity, R entity p.siblingRequest) (h : p.KeyDecides backend R) :
    p.Transparent backend R := by
  intro calls uses hcalls
  rw [ended_replies hp (h.decided hp) hsibling hcalls (sound_session uses),
    ended_replies hp.uncached (R := fun _ _ => True) decided_uncached (fun _ => trivial)
      (fun _ _ _ => trivial) (sound_session uses), answerOf?_uncached]

theorem keyDecides_of_transparent (hp : p.Constant) (h : p.Transparent backend R) :
    p.KeyDecides backend R := by
  intro model m timeout r r' rows q hm ht hpos hr hr' huses huses' hkey hrows hq
  have hall := h [.list model r, .list model r'] 0 (by
    intro model' r'' hmem
    simp only [List.mem_cons, Call.list.injEq, List.not_mem_nil, or_false] at hmem
    rcases hmem with ⟨rfl, rfl⟩ | ⟨rfl, rfl⟩
    · exact hr
    · exact hr')
  simp only [replies, List.map_cons, List.map_nil, List.cons.injEq, and_true] at hall
  obtain ⟨hfirst, hsecond⟩ := hall
  change _ = ended (p.alone backend model r) at hfirst
  rw [hrows] at hfirst
  rcases hlist : p.list backend model r (p.session 0) with ⟨x, t⟩
  rw [hlist] at hfirst hsecond
  have hx := eq_of_ended hfirst
  cases x with
  | error e => cases hx
  | ok list =>
    cases hx
    obtain ⟨key, hr, hlookup⟩ := lookup_list hm ht hpos huses (kept_session 0) hlist
    rw [list_of_lookup hp hm huses' (hkey.symm.trans hr) hq hlookup] at hsecond
    have hsound : p.uncached.Sound backend (fun _ _ => True)
        (p.uncached.list backend model r (p.uncached.session 0)).2 :=
      (between_list hp.uncached decided_uncached (fun _ => trivial) trivial _ (sound_session 0)).1
    apply eq_of_ended
    rw [ended_alone hp]
    exact (hsecond.trans (ended_uncached hp hsound)).symm

/-- The key tells what the request asks for: its sorts have plain names, and no null bag has a name
under which a list inside its projection looks for criteria. -/
structure Telling (p : Provider) (model : String) (r : Request) : Prop where
  sorts : r.PlainSorts
  bags : ∀ m projection, p.models.get? model = some m →
    m.projections.get? (r.projection.getD p.config.defaultProjection) = some projection →
    projection.Every (fun _ => True) fun options =>
      ∀ c ∈ options.criteria, r.criteria.get? c.name ≠ some .null

theorem telling_siblingRequest (p : Provider) (entity : String) :
    p.Telling entity p.siblingRequest where
  sorts := by
    intro name hname
    cases hname
  bags := by
    intro m projection _ _
    apply projection.every_of (fun _ => trivial)
    intro _ _ _ h
    cases h

theorem inert_of_usesCache {m : Model} {nestable : String → Prop} (h : p.usesCache m r = true)
    (hn : ∀ name, nestable name → r.criteria.get? name ≠ some .null) :
    r.criteria.Inert nestable := by
  have hcriteria : r.hasCriteria = false := by
    unfold usesCache at h
    rw [Bool.and_eq_true, Bool.not_eq_true'] at h
    exact h.2
  have hnull : ∀ entry ∈ r.criteria, entry.2 = .null := by
    rintro ⟨name, bag⟩ hentry
    unfold Request.hasCriteria at hcriteria
    have hbag : ¬ (!bag.isNull) = true := List.any_eq_false.1 hcriteria (name, bag) hentry
    cases bag with
    | null => rfl
    | _ => exact absurd rfl hbag
  intro entry hentry
  refine ⟨by rw [hnull entry hentry]; rfl, fun hnestable => ?_⟩
  obtain ⟨bag, hbag⟩ := Fields.exists_get?_of_mem hentry
  have hbagnull := hnull _ (Fields.mem_of_get? hbag)
  dsimp only at hbagnull
  rw [hbagnull] at hbag
  exact hn entry.1 hnestable hbag

theorem keyDecides_of_telling (hp : p.Constant) (h : ∀ model r, R model r → p.Telling model r) :
    p.KeyDecides backend R := by
  intro model m timeout r r' rows q hm _ _ hr hr' huses huses' hkey hrows hq
  have ht := h model r hr
  have ht' := h model r' hr'
  obtain ⟨key, hkey'⟩ := cacheKey_of_compile hq
  obtain ⟨hprojection, hsorts, hpage⟩ :=
    Request.cacheKey_inj ht.sorts ht'.sorts (hkey.trans hkey') hkey'
  let nestable : String → Prop :=
    fun name => r.criteria.get? name ≠ some .null ∧ r'.criteria.get? name ≠ some .null
  have hcriteria : r.criteria.Inert nestable ∧ r'.criteria.Inert nestable :=
    ⟨inert_of_usesCache huses fun _ hn => hn.1, inert_of_usesCache huses' fun _ hn => hn.2⟩
  have halike : RequestsAlike (.inert nestable) p r r' := ⟨hprojection, hsorts, hpage, hcriteria⟩
  have hparallel := parallel_compile (L := .inert nestable) model hp (by
    intro m projection hm hget
    have hbags := ht.bags m projection hm hget
    rw [hprojection] at hget
    refine hbags.combine (fun _ _ _ => trivial) ?_ (ht'.bags m projection hm hget)
    exact fun _ hn hn' c hc => ⟨hn c hc, hn' c hc⟩) halike
  rw [alone_eq_ok hp] at hrows ⊢
  rw [← hrows]
  exact (answerTo_congr (Likeness.exact_inert nestable) (hparallel 0 0 trivial).2).symm

end Provider

/-- Over all histories of requests in `R` the caches cannot be told from none exactly if requests
in `R` that share a key have one answer; and over requests with telling keys they cannot. -/
theorem list_cache_transparent (p : Provider) (hp : p.Constant) (backend : Backend) :
    (∀ R, (∀ entity, R entity p.siblingRequest) →
      (p.Transparent backend R ↔ p.KeyDecides backend R)) ∧ p.Transparent backend p.Telling := by
  constructor
  · intro R hsibling
    exact ⟨Provider.keyDecides_of_transparent hp, Provider.transparent_of_keyDecides hp hsibling⟩
  · apply Provider.transparent_of_keyDecides hp (Provider.telling_siblingRequest p)
    exact Provider.keyDecides_of_telling hp fun _ _ h => h

namespace Blog

def praised : Projection :=
  .list "comments" ⟨"comments", none,
    some ⟨"praise", ⟨.and, [⟨"body", "body", .equal, some (.fixed (.text "good"))⟩]⟩⟩, .left⟩
    (.column "body" "body" (.done [])) (.done [])

def cachedPosts : Model :=
  ((Model.ofEntity "Post").withCache 1000).withProjection "default" praised

def cachedProvider : Provider := ⟨schema, .sqlite, .standard, [("Post", cachedPosts)]⟩

def backend : Backend := fun statement => if statement.params.isEmpty then .ok [[]] else .ok []

def praiseRequest : Request := Request.empty.withCriterion "praise" .null

def comments (reply : Except Error (List Record)) : Option (List Nat) :=
  reply.toOption.map fun rows => rows.map fun row =>
    match row.get? "comments" with
    | some (.list items) => items.length
    | _ => 0

theorem constant_cachedProvider : cachedProvider.Constant where
  criteria := by
    intro m hm spec hspec
    rw [List.mem_singleton.1 hm] at hspec
    cases hspec
  nested := by
    intro m hm projection hp
    rw [List.mem_singleton.1 hm] at hp
    rcases List.mem_cons.1 hp with rfl | hp
    · trivial
    · rw [List.mem_singleton.1 hp]
      refine ⟨?_, trivial, trivial⟩
      rintro c ⟨rfl⟩ item hitem v hv
      rw [List.mem_singleton.1 hitem] at hv
      cases hv
      trivial

end Blog

theorem list_cache_transparent_blog :
    Blog.cachedProvider.Constant ∧
    Blog.cachedProvider.Transparent Blog.backend Blog.cachedProvider.Telling ∧
    ¬ Blog.cachedProvider.Transparent Blog.backend fun _ _ => True := by
  have h := list_cache_transparent Blog.cachedProvider Blog.constant_cachedProvider Blog.backend
  refine ⟨Blog.constant_cachedProvider, h.2, fun htransparent => ?_⟩
  have hdecides := (h.1 (fun _ _ => True) fun _ => trivial).1 htransparent
  have hall : Blog.comments (Blog.cachedProvider.alone Blog.backend "Post" .empty) = some [1] := by
    decide +kernel
  have hgood : Blog.comments (Blog.cachedProvider.alone Blog.backend "Post" Blog.praiseRequest)
      = some [0] := by
    decide +kernel
  obtain ⟨q, hq⟩ := Steps.ok_of_toBool
    (m := Blog.cachedProvider.compile "Post" Blog.praiseRequest) (s := 0) (by decide +kernel)
  cases hrows : Blog.cachedProvider.alone Blog.backend "Post" .empty with
  | error e =>
    rw [hrows] at hall
    cases hall
  | ok rows =>
    have hsame := hdecides "Post" Blog.cachedPosts 1000 .empty Blog.praiseRequest rows q rfl rfl
      (by decide) trivial trivial rfl rfl rfl hrows (congrArg Prod.fst hq)
    rw [hsame, ← hrows, hall] at hgood
    cases hgood

end RecordQuery
