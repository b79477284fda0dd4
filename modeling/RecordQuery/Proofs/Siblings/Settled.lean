import RecordQuery.Proofs.Caching.Fuel
import RecordQuery.Proofs.Siblings.Chain

namespace RecordQuery.Provider

open Steps

variable {p : Provider} {backend : Backend} {q : CompiledQuery} {model entity : String}
  {r : Request} {execute execute' : Execute} {statement : Statement} {s : Session}

theorem listWith_congr (h : ∀ q uses statement, p.compile model r s.uses = (.ok q, uses) →
      execute q statement = execute' q statement) :
    p.listWith execute model r s = p.listWith execute' model r s := by
  unfold listWith
  apply lift_bind_congr_ok
  intro m _
  apply bind_congr_ok
  intro q t hq
  obtain ⟨uses, hcompile, -⟩ := counting_ok_iff.1 hq
  apply lift_bind_congr_ok
  intro statement _
  unfold cachedList load
  rw [h q uses statement hcompile]

theorem siblings_congr (h : ∀ uses q uses' statement,
      p.compile entity p.siblingRequest uses = (.ok q, uses') →
        execute q statement = execute' q statement) :
    p.siblings execute entity = p.siblings execute' entity := by
  have hlist : p.listWith execute entity p.siblingRequest
      = p.listWith execute' entity p.siblingRequest := by
    funext s
    exact listWith_congr fun q uses statement hq => h s.uses q uses statement hq
  unfold siblings
  rw [hlist]

theorem nestedList_congr {parentId : Value} {task : NestedTask}
    (h : ∀ root uses q' uses' statement, p.schema.entity entity = .ok root →
      Compilation.nestedQuery (p.setting root) task parentId uses = (.ok q', uses') →
        execute q' statement = execute' q' statement) :
    p.nestedList execute entity parentId task = p.nestedList execute' entity parentId task := by
  funext s
  unfold nestedList
  apply lift_bind_congr_ok
  intro root hroot
  apply bind_congr_ok
  intro q' t hq
  obtain ⟨uses, hx, rfl⟩ := counting_ok_iff.1 hq
  apply lift_bind_congr_ok
  intro statement _
  rw [bind_apply, bind_apply, h root s.uses q' uses statement hroot hx]

theorem executeOnce_congr
    (hs : ∀ entity ∈ q.dependencies, p.siblings execute entity = p.siblings execute' entity)
    (hn : ∀ parentId, ∀ task ∈ q.nested, p.nestedList execute q.entity parentId task
      = p.nestedList execute' q.entity parentId task) :
    p.executeOnce backend execute q statement = p.executeOnce backend execute' q statement := by
  have hrow : p.materialize execute q = p.materialize execute' q := by
    funext dependencies row
    unfold materialize
    dsimp only
    rw [mapM_congr_mem fun task ht => hn _ task ht]
  unfold executeOnce
  rw [mapM_congr_mem hs, hrow]

/-- From so many levels on, the list of the entity does not depend on what is below. -/
def Settles (p : Provider) (backend : Backend) (levels : Nat) (entity : String) : Prop :=
  ∀ below below' n n', levels ≤ n → levels ≤ n' →
    p.siblings (p.unrolled backend below n) entity = p.siblings (p.unrolled backend below' n') entity

theorem Settles.mono {levels levels' : Nat} (h : p.Settles backend levels entity)
    (hle : levels ≤ levels') : p.Settles backend levels' entity :=
  fun below below' n n' hn hn' => h below below' n n' (hle.trans hn) (hle.trans hn')

theorem unrolled_congr {levels depth : Nat}
    (hq : ∀ entity, p.Denormalizes q entity → p.Settles backend levels entity)
    (hwithin : q.Within depth) (statement : Statement) (below below' : Execute) {n n' : Nat}
    (hn : levels + depth < n) (hn' : levels + depth < n') :
    p.unrolled backend below n q statement = p.unrolled backend below' n' q statement := by
  -- on the depth: a list nests less deep than the query that needs it
  induction depth using Nat.strongRecOn generalizing q statement n n' with
  | _ depth ih =>
    obtain ⟨n, rfl⟩ := Nat.exists_eq_add_of_le' (Nat.one_le_of_lt hn)
    obtain ⟨n', rfl⟩ := Nat.exists_eq_add_of_le' (Nat.one_le_of_lt hn')
    apply executeOnce_congr
    · exact fun entity hentity =>
        hq entity (.sibling hentity) below below' n n' (by omega) (by omega)
    · intro parentId task ht
      have hdepth := hwithin task ht
      apply nestedList_congr
      intro root uses q' uses' statement hroot hx
      have hinner : ∀ entity, p.Denormalizes q' entity → p.Settles backend levels entity :=
        fun entity hentity => hq entity (.nested hroot ht hx hentity)
      exact ih task.inner.depth hdepth hinner
        (Compilation.within_nestedQuery (congrArg Prod.fst hx)) statement (by omega) (by omega)

theorem settles_of_leads {levels : Nat}
    (h : ∀ next, p.Leads entity next → p.Settles backend levels next) :
    p.Settles backend (levels + p.deepest + 1) entity := by
  intro below below' n n' hn hn'
  apply siblings_congr
  intro uses q uses' statement hq
  refine unrolled_congr (fun next hnext => h next ⟨uses, q, uses', hq, hnext⟩) ?_ statement below
    below' hn hn'
  exact within_compile (congrArg Prod.fst hq)

theorem settles_of_unknown (h : ∀ m, (entity, m) ∉ p.models) (levels : Nat) :
    p.Settles backend levels entity := by
  intro below below' n n' _ _
  apply siblings_congr
  intro uses q uses' statement hq
  obtain ⟨m, root, projection, v, hm, -⟩ := compile_ok hq
  exact absurd (mem_of_model hm) (h m)

theorem settles_of_grounded (hg : p.Grounded entity) :
    p.Settles backend (p.models.length * (p.deepest + 1)) entity := by
  obtain ⟨k, hk, hstationary⟩ := exists_stationary (p.models.map Prod.fst)
    (P := fun k name => p.Settles backend (k * (p.deepest + 1)) name)
    (fun k name h => h.mono (Nat.mul_le_mul_right _ (Nat.le_succ k)))
  have hsettles : p.Settles backend (k * (p.deepest + 1)) entity := by
    induction hg with
    | intro entity _ ih =>
      have hnext : p.Settles backend ((k + 1) * (p.deepest + 1)) entity := by
        rw [Nat.succ_mul, ← Nat.add_assoc]
        exact settles_of_leads ih
      by_cases hmem : entity ∈ p.models.map Prod.fst
      · exact hstationary entity hmem hnext
      · exact settles_of_unknown (fun m hm => hmem (List.mem_map.2 ⟨_, hm, rfl⟩)) _
  rw [List.length_map] at hk
  exact hsettles.mono (Nat.mul_le_mul_right _ hk)

theorem listWith_unrolled {below : Execute} {n : Nat} (hn : p.fuel ≤ n)
    (h : ∀ q uses, p.compile model r s.uses = (.ok q, uses) → ¬p.Bottomless q) :
    p.listWith (p.unrolled backend below n) model r s = p.list backend model r s := by
  unfold list run
  rw [execute_eq_unrolled]
  apply listWith_congr
  intro q uses statement hq
  have hground : ∀ entity, p.Denormalizes q entity → p.Grounded entity := by
    intro entity hentity
    by_contra hnot
    exact h q uses hq (bottomless_iff.2 ⟨entity, hentity, hnot⟩)
  have hfuel : p.models.length * (p.deepest + 1) + p.deepest < p.fuel := by
    unfold fuel
    rw [Nat.add_mul]
    omega
  exact unrolled_congr (fun entity hentity => settles_of_grounded (hground entity hentity))
    (within_compile (congrArg Prod.fst hq)) statement _ _ (Nat.lt_of_lt_of_le hfuel hn) hfuel

end RecordQuery.Provider
