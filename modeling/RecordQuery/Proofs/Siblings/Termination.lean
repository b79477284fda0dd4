import RecordQuery.Proofs.Siblings.Exhaustion
import RecordQuery.Proofs.Siblings.Settled

namespace RecordQuery

namespace Provider

open Steps

variable {p : Provider} {q : CompiledQuery} {entity next : String}

theorem Denormalizes.mem (h : p.Denormalizes q entity) (hn : q.nested = []) :
    entity ∈ q.dependencies := by
  cases h with
  | sibling hentity => exact hentity
  | nested _ ht _ _ =>
    rw [hn] at ht
    cases ht

theorem leads_iff (hp : p.Constant) {i j : Nat}
    (h : p.compile entity p.siblingRequest i = (.ok q, j)) :
    p.Leads entity next ↔ p.Denormalizes q next := by
  constructor
  · rintro ⟨_, q', _, h', hnext⟩
    obtain ⟨hentity, hdependencies, hnested⟩ := compile_same hp h' h
    exact hnext.congr hentity hdependencies hnested
  · exact fun hnext => ⟨i, q, j, h, hnext⟩

theorem grounded_of_flat (hp : p.Constant) {i j : Nat}
    (h : p.compile entity p.siblingRequest i = (.ok q, j)) (hn : q.nested = [])
    (hd : ∀ next ∈ q.dependencies, p.Grounded next) : p.Grounded entity :=
  ⟨entity, fun next hnext => hd next (((leads_iff hp h).1 hnext).mem hn)⟩

theorem not_bottomless_of_flat (hn : q.nested = [])
    (hd : ∀ next ∈ q.dependencies, p.Grounded next) : ¬p.Bottomless q := by
  intro hbottomless
  obtain ⟨next, hnext, hnot⟩ := bottomless_iff.1 hbottomless
  exact hnot (hd next (hnext.mem hn))

theorem exists_flat (p : Provider) (model : String) (r : Request) (dependencies : List String)
    (h : (p.compile model r 0).1.toOption.map (fun q => (q.dependencies, q.nested.isEmpty))
      = some (dependencies, true)) :
    ∃ q uses, p.compile model r 0 = (.ok q, uses) ∧ q.dependencies = dependencies ∧
      q.nested = [] := by
  obtain ⟨q, uses, hq, hread⟩ := ok_of_toOption_map h
  obtain ⟨hdependencies, hnested⟩ := Prod.mk.inj hread
  exact ⟨q, uses, hq, hdependencies, List.isEmpty_iff.1 hnested⟩

end Provider

/-- A list depends on no level of the recursion beyond the fuel, however it would go on there, unless
an infinite chain of models starts at its query. If one does, then with empty caches the recursion
fails at its last level and never before, so that the number of statements has no bound; provided
that computed values are constant, the list of each cached model compiles, and the backend answers
with rows. -/
theorem lists_return_unless_bottomless (p : Provider) (backend : Backend) :
    (∀ model r s, (∀ q uses, p.compile model r s.uses = (.ok q, uses) → ¬p.Bottomless q) →
      ∀ below n, p.fuel ≤ n →
        p.listWith (p.unrolled backend below n) model r s = p.list backend model r s) ∧
    (p.Constant → p.Stocked → (∀ statement, ∃ row rows, backend statement = .ok (row :: rows)) →
      ∀ model r uses q uses', p.compile model r uses = (.ok q, uses') → p.Bottomless q →
      ∀ n, (∃ entity, (p.listWith (p.execute backend n) model r (p.session uses)).1
          = .error (.endless entity)) ∧
        n ≤ (p.listWith (p.execute backend n) model r (p.session uses)).2.log.length) :=
  ⟨fun _ _ _ h _ _ hn => Provider.listWith_unrolled hn h,
    fun hp hstocked hrows _ _ _ _ _ hq hbottomless n =>
      Provider.listWith_bottomless hp hstocked hrows hq hbottomless n⟩

namespace Tagging

def post : Entity :=
  (((Entity.ofTable "Post" "posts").withPrimaryKey ⟨"id", "id", .integer⟩).withAttribute
    ⟨"title", "title", .text⟩).withAssociation ⟨"tags", .hasMany, "Tag", "postId", none, none⟩

def tag : Entity :=
  (((Entity.ofTable "Tag" "tags").withPrimaryKey ⟨"id", "id", .integer⟩).withAttribute
    ⟨"name", "name", .text⟩).withAssociation ⟨"posts", .hasMany, "Post", "tagId", none, none⟩

def schema : Schema where
  entities := [post, tag]
  distinct := by decide
  keyed := by decide

def posts : Model :=
  ((Model.ofEntity "Post").withCache 60000).withProjection "default"
    (.column "title" "title" (.column "tags" "tags" (.done [])))

def tags : Model :=
  ((Model.ofEntity "Tag").withCache 60000).withProjection "default"
    (.column "name" "name" (.column "posts" "posts" (.done [])))

def provider : Provider := ⟨schema, .sqlite, .standard, [("Post", posts), ("Tag", tags)]⟩

def stored : Backend := fun _ => .ok [[("$id", .int 1)]]

theorem constant_provider : provider.Constant :=
  Provider.constant_of_plain (by decide) (by decide)

theorem stocked_provider : provider.Stocked :=
  Provider.stocked_of_compiles constant_provider (by decide +kernel)

theorem leads : provider.Leads "Post" "Tag" ∧ provider.Leads "Tag" "Post" := by
  obtain ⟨q, uses, hq, hdependencies, -⟩ :=
    provider.exists_flat "Post" provider.siblingRequest ["Tag"] (by decide +kernel)
  obtain ⟨q', uses', hq', hdependencies', -⟩ :=
    provider.exists_flat "Tag" provider.siblingRequest ["Post"] (by decide +kernel)
  exact ⟨⟨0, q, uses, hq, .sibling (hdependencies ▸ List.mem_singleton_self "Tag")⟩,
    ⟨0, q', uses', hq', .sibling (hdependencies' ▸ List.mem_singleton_self "Post")⟩⟩

def chain : Nat → String
  | 0 => "Tag"
  | 1 => "Post"
  | k + 2 => chain k

theorem leads_chain (k : Nat) : provider.Leads (chain k) (chain (k + 1)) := by
  induction k using chain.induct with
  | case1 => exact leads.2
  | case2 => exact leads.1
  | case3 k ih => exact ih

end Tagging

theorem Blog.bounded_discussion : ∃ q uses,
    (discussion "default").compile "Post" .empty 0 = (.ok q, uses) ∧
      ¬(discussion "default").Bottomless q := by
  obtain ⟨comments, _, hcomments, hnone, hflat⟩ := (discussion "default").exists_flat
    "Comment" (discussion "default").siblingRequest [] (by decide +kernel)
  have hgrounded : (discussion "default").Grounded "Comment" :=
    Provider.grounded_of_flat constant_discussion hcomments hflat (by simp [hnone])
  obtain ⟨posts, uses, hposts, hdependencies, hnested⟩ :=
    (discussion "default").exists_flat "Post" .empty ["Comment"] (by decide +kernel)
  refine ⟨posts, uses, hposts, Provider.not_bottomless_of_flat hnested ?_⟩
  rw [hdependencies]
  simpa using hgrounded

theorem lists_return_unless_bottomless_tagged :
    Provider.build Blog.schema .sqlite .standard [Blog.discussed, Blog.keptComments "default"]
      = .ok (Blog.discussion "default") ∧
    (∃ q uses, (Blog.discussion "default").compile "Post" .empty 0 = (.ok q, uses) ∧
      ¬(Blog.discussion "default").Bottomless q) ∧
    (Blog.discussion "default").listWith
        ((Blog.discussion "default").unrolled Blog.empty (fun _ _ => throw .noCount) 4) "Post"
        .empty ((Blog.discussion "default").session 0)
      = (Blog.discussion "default").list Blog.empty "Post" .empty
        ((Blog.discussion "default").session 0) ∧
    Provider.build Tagging.schema .sqlite .standard [Tagging.posts, Tagging.tags]
      = .ok Tagging.provider ∧
    Tagging.provider.Constant ∧ Tagging.provider.Stocked ∧
    (∃ q uses, Tagging.provider.compile "Post" .empty 0 = (.ok q, uses) ∧
      Tagging.provider.Bottomless q) ∧
    ∀ n, (∃ entity, (Tagging.provider.listWith (Tagging.provider.execute Tagging.stored n) "Post"
        .empty (Tagging.provider.session 0)).1 = .error (.endless entity)) ∧
      n ≤ (Tagging.provider.listWith (Tagging.provider.execute Tagging.stored n) "Post"
        .empty (Tagging.provider.session 0)).2.log.length := by
  refine ⟨rfl, Blog.bounded_discussion, ?_, rfl, Tagging.constant_provider,
    Tagging.stocked_provider, ?_⟩
  · apply (lists_return_unless_bottomless (Blog.discussion "default") Blog.empty).1
    · obtain ⟨q, uses, hq, hbounded⟩ := Blog.bounded_discussion
      intro q' uses' hq'
      cases hq.symm.trans hq'
      exact hbounded
    · decide
  · obtain ⟨q, uses, hq, hdependencies, -⟩ :=
      Tagging.provider.exists_flat "Post" .empty ["Tag"] (by decide +kernel)
    have hbottomless : Tagging.provider.Bottomless q :=
      ⟨Tagging.chain, .sibling (hdependencies ▸ List.mem_singleton_self "Tag"),
        Tagging.leads_chain⟩
    refine ⟨⟨q, uses, hq, hbottomless⟩, ?_⟩
    exact (lists_return_unless_bottomless Tagging.provider Tagging.stored).2
      Tagging.constant_provider Tagging.stocked_provider (fun _ => ⟨_, _, rfl⟩) "Post" .empty 0 q
      uses hq hbottomless

end RecordQuery
