import RecordQuery.Proofs.Caching.Refill
import RecordQuery.Proofs.Siblings.Chain
import RecordQuery.Proofs.Transparency

namespace RecordQuery.Provider

open Steps

variable {p : Provider} {backend : Backend} {q q' : CompiledQuery} {model entity : String}
  {r : Request} {execute : Execute} {statement : Statement} {s t : Session} {list : Loaded}

theorem listWith_cases (h : p.listWith execute model r s = (.ok list, t)) :
    ∃ q uses, p.compile model r s.uses = (.ok q, uses) ∧
      ((∃ key, lookup? model key { s with uses } = some list ∧ t = { s with uses }) ∨
      ∃ statement rows u, execute q statement { s with uses } = (.ok rows, u) ∧
        ∀ entity, entity ≠ model → t.caches.get? entity = u.caches.get? entity) := by
  unfold listWith at h
  obtain ⟨m, hm, h⟩ := lift_bind_ok h
  obtain ⟨q, u, hq, h⟩ := bind_ok h
  obtain ⟨uses, hcompile, rfl⟩ := counting_ok_iff.1 hq
  obtain ⟨statement, -, h⟩ := lift_bind_ok h
  refine ⟨q, uses, hcompile, ?_⟩
  split at h
  · obtain ⟨key, -, h⟩ := lift_bind_ok h
    cases hlookup : lookup? model key { s with uses } with
    | some list' =>
      rw [cachedList_hit hlookup] at h
      cases h
      exact .inl ⟨key, hlookup, rfl⟩
    | none =>
      rw [cachedList_miss hlookup] at h
      obtain ⟨list', v, hload, h⟩ := bind_ok h
      obtain ⟨rows, w, hexecute, hloaded⟩ := bind_ok hload
      cases hloaded
      obtain ⟨_, x, hstore, h⟩ := bind_ok h
      cases h
      -- the rows are kept for this model, if at all
      refine .inr ⟨statement, rows, w, hexecute, fun entity hentity => ?_⟩
      have hcases := store_cases model key ⟨w.loads, rows⟩ { w with loads := w.loads + 1 }
      rw [hstore] at hcases
      obtain ⟨-, rfl⟩ | ⟨c, -, rfl⟩ := hcases
      · rfl
      · exact Fields.get?_insert_of_ne hentity.symm _ _
  · obtain ⟨rows, w, hexecute, hloaded⟩ := bind_ok h
    cases hloaded
    exact .inr ⟨statement, rows, w, hexecute, fun _ _ => rfl⟩

theorem compile_same (hp : p.Constant) {i i' j j' : Nat} (h : p.compile model r i = (.ok q, i'))
    (h' : p.compile model r j = (.ok q', j')) :
    q.entity = q'.entity ∧ q.dependencies = q'.dependencies ∧ q.nested = q'.nested := by
  have halike := outlined_compile hp h h'
  refine ⟨halike.entity, halike.dependencies, ?_⟩
  exact List.forall₂_eq_eq_eq ▸ halike.nested.imp fun _ _ => Compilation.eq_of_taskAlike

theorem nested_same (hp : p.Constant) (hq : p.Ready q) {root : Entity} {task : NestedTask}
    (hroot : p.schema.entity q.entity = .ok root) (ht : task ∈ q.nested) {v w : Value}
    {i i' j j' : Nat} {x y : CompiledQuery}
    (hx : Compilation.nestedQuery (p.setting root) task v i = (.ok x, i'))
    (hy : Compilation.nestedQuery (p.setting root) task w j = (.ok y, j')) :
    x.entity = y.entity ∧ x.dependencies = y.dependencies ∧ x.nested = y.nested := by
  have hsound := hq.sound hp root hroot task ht
  obtain ⟨x', _, _, checked, _, hx', -, hchecked, -, hdx, hnx, -⟩ := hsound.compiles v i 0
  obtain ⟨y', _, _, checked', _, hy', -, hchecked', -, hdy, hny, -⟩ := hsound.compiles w j 0
  cases hx.symm.trans hx'
  cases hy.symm.trans hy'
  cases hchecked.symm.trans hchecked'
  refine ⟨?_, hdx.trans hdy.symm, hnx.trans hny.symm⟩
  obtain ⟨c, -, rfl, -⟩ := Compilation.run_ok hx
  obtain ⟨d, -, rfl, -⟩ := Compilation.run_ok hy
  rfl

def Clean (p : Provider) (s : Session) : Prop :=
  ∀ entity c e, s.caches.get? entity = some c → c.entry = some e → p.Grounded entity

/-- Queries that are loaded with clean caches denormalize grounded entities only, and the caches
stay clean. -/
def Grounds (p : Provider) (execute : Execute) : Prop :=
  ∀ q statement, p.Ready q → Ensures p.Clean (execute q statement) fun _ t =>
    p.Clean t ∧ ∀ entity, p.Denormalizes q entity → p.Grounded entity

section Grounds

variable (hp : p.Constant) (h : p.Grounds execute)

include hp h

theorem ensures_siblings (entity : String) : Ensures p.Clean (p.siblings execute entity)
    fun _ t => p.Clean t ∧ p.Grounded entity := by
  constructor
  intro s hs index t ht
  obtain ⟨list, u, hlist, ht⟩ := bind_ok ht
  cases ht
  obtain ⟨q, uses, hq, ⟨key, hlookup, rfl⟩ | ⟨statement, rows, v, hexecute, hcaches⟩⟩ :=
    listWith_cases hlist
  · obtain ⟨c, e, hc, he, -⟩ := fresh_of_lookup hlookup
    exact ⟨hs, hs entity c e hc he⟩
  · obtain ⟨hclean, hnext⟩ := (h q statement (ready_of_compile hq)).ok { s with uses } hs rows v
      hexecute
    have hgrounded : p.Grounded entity := by
      constructor
      rintro next ⟨_, q', _, hq', hdenormalizes⟩
      obtain ⟨hentity, hdependencies, hnested⟩ := compile_same hp hq' hq
      exact hnext next (hdenormalizes.congr hentity hdependencies hnested)
    refine ⟨?_, hgrounded⟩
    intro name c e hc he
    by_cases hname : name = entity
    · exact hname ▸ hgrounded
    · exact hclean name c e ((hcaches name hname).symm.trans hc) he

theorem ensures_nestedList (hq : p.Ready q) {task : NestedTask} (ht : task ∈ q.nested)
    (parentId : Value) :
    Ensures p.Clean (p.nestedList execute q.entity parentId task) fun _ t => p.Clean t ∧
      ∀ root v i x j entity, p.schema.entity q.entity = .ok root →
        Compilation.nestedQuery (p.setting root) task v i = (.ok x, j) →
        p.Denormalizes x entity → p.Grounded entity := by
  constructor
  intro s hs a t hlist
  obtain ⟨root, hroot, hlist⟩ := lift_bind_ok hlist
  obtain ⟨q', u, hq', hlist⟩ := bind_ok hlist
  obtain ⟨uses, hcompile, rfl⟩ := counting_ok_iff.1 hq'
  obtain ⟨statement, -, hlist⟩ := lift_bind_ok hlist
  obtain ⟨rows, v, hexecute, hlist⟩ := bind_ok hlist
  cases hlist
  have hready : p.Ready q' := hq.needs (.nested hroot ht hcompile)
  obtain ⟨hclean, hgrounded⟩ := (h q' statement hready).ok { s with uses } hs rows t hexecute
  refine ⟨hclean, ?_⟩
  intro root' w i y j entity hroot' hy hdenormalizes
  cases hroot.symm.trans hroot'
  obtain ⟨hentity, hdependencies, hnested⟩ := nested_same hp hq hroot ht hy hcompile
  exact hgrounded entity (hdenormalizes.congr hentity hdependencies hnested)

theorem ensures_materialize (hq : p.Ready q) (dependencies : List EntityIndex) (row : Record) :
    Ensures p.Clean (p.materialize execute q dependencies row) fun _ t => p.Clean t ∧
      ∀ task ∈ q.nested, ∀ root v i x j entity, p.schema.entity q.entity = .ok root →
        Compilation.nestedQuery (p.setting root) task v i = (.ok x, j) →
        p.Denormalizes x entity → p.Grounded entity := by
  unfold materialize
  apply ensures_bind (ensures_mapM fun task ht => ensures_nestedList hp h hq ht _)
  intro lists
  exact ensures_pure fun _ hs => hs

theorem grounds_executeOnce
    (hrows : ∀ statement, ∃ row rows, backend statement = .ok (row :: rows)) :
    p.Grounds (p.executeOnce backend execute) := by
  intro q statement hq
  constructor
  intro s hs a t ht
  obtain ⟨rows, u, hfetch, ht⟩ := bind_ok ht
  obtain ⟨row, rest, hrow⟩ := hrows statement
  rw [fetch_apply, hrow] at hfetch
  cases hfetch
  obtain ⟨dependencies, v, hdependencies, ht⟩ := bind_ok ht
  obtain ⟨hv, hsiblings⟩ := (ensures_mapM fun entity _ => ensures_siblings hp h entity).ok
    { s with log := s.log ++ [statement] } hs dependencies v hdependencies
  obtain ⟨hclean, hlists⟩ := (ensures_mapM fun row _ => ensures_materialize hp h hq dependencies
    row).ok v hv a t ht
  refine ⟨hclean, fun entity hentity => ?_⟩
  cases hentity with
  | sibling hmem => exact hsiblings entity hmem
  | nested hroot htask hx hdenormalizes =>
    exact hlists row List.mem_cons_self _ htask _ _ _ _ _ _ hroot hx hdenormalizes

end Grounds

theorem grounds_execute (hp : p.Constant)
    (hrows : ∀ statement, ∃ row rows, backend statement = .ok (row :: rows)) (levels : Nat) :
    p.Grounds (p.execute backend levels) := by
  induction levels with
  | zero =>
    intro q statement _
    exact ⟨fun s _ a t h => nomatch h⟩
  | succ levels ih => exact grounds_executeOnce hp ih hrows

theorem unanswered_of_bottomless (hp : p.Constant)
    (hrows : ∀ statement, ∃ row rows, backend statement = .ok (row :: rows)) {uses uses' : Nat}
    (hq : p.compile model r uses = (.ok q, uses')) (hbottomless : p.Bottomless q) (levels : Nat)
    (list : Loaded) (t : Session) :
    p.listWith (p.execute backend levels) model r (p.session uses) ≠ (.ok list, t) := by
  intro hlist
  obtain ⟨entity, hentity, hnot⟩ := bottomless_iff.1 hbottomless
  obtain ⟨q', uses'', hq', ⟨key, hlookup, -⟩ | ⟨statement, rows, u, hexecute, -⟩⟩ :=
    listWith_cases hlist
  · obtain ⟨c, e, hc, he, -⟩ := fresh_of_lookup hlookup
    rw [entry_emptyCaches hc] at he
    cases he
  · cases hq.symm.trans hq'
    have hclean : p.Clean { p.session uses with uses := uses' } := by
      intro name c e hc he
      rw [entry_emptyCaches hc] at he
      cases he
    obtain ⟨-, hgrounded⟩ :=
      (grounds_execute hp hrows levels q statement (ready_of_compile hq)).ok _ hclean rows u hexecute
    exact hnot (hgrounded entity hentity)

end RecordQuery.Provider
