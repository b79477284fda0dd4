import RecordQuery.Proofs.Caching.Traffic

namespace RecordQuery

open Steps

namespace Traffic

theorem getElem?_mid (calls rest : List (Request × Stage)) (call : Request × Stage) :
    (calls ++ call :: rest)[calls.length]? = some call := by
  simp

theorem proceed_mid (s s' : Session) (calls rest : List (Request × Stage))
    (call : Request × Stage) (r : Request) (stage : Stage) :
    (⟨s, calls ++ call :: rest⟩ : Traffic).proceed calls.length r stage s'
      = ⟨s', calls ++ (r, stage) :: rest⟩ := by
  simp [proceed]

end Traffic

namespace Provider

variable {p : Provider} {model : String} {uses : Nat}

/-- Every history goes on to where the steps end. Calls made on the way stay behind. -/
def Follows (p : Provider) (model : String) (uses : Nat) {α : Type} (steps : Steps Session α) :
    Prop :=
  ∀ past t, History p model uses past t → ∃ events t',
    History p model uses (past ++ events) t' ∧ t'.session = (steps t.session).2 ∧
      t.calls <+: t'.calls

section Follows

variable {α β : Type}

theorem follows_bind {m : Steps Session α} {f : α → Steps Session β} (hm : Follows p model uses m)
    (hf : ∀ a, Follows p model uses (f a)) : Follows p model uses (m >>= f) := by
  intro past t hpast
  obtain ⟨events, u, hu, hsession, hcalls⟩ := hm past t hpast
  rw [bind_apply]
  rcases hx : m t.session with ⟨x, s⟩
  rw [hx] at hsession
  subst hsession
  cases x with
  | error e => exact ⟨events, u, hu, rfl, hcalls⟩
  | ok a =>
    obtain ⟨events', t', ht', hsession', hcalls'⟩ := hf a _ u hu
    rw [List.append_assoc] at ht'
    exact ⟨events ++ events', t', ht', hsession', hcalls.trans hcalls'⟩

theorem follows_beside {m : Steps Session α} (h : ∀ s : Session, s.Beside model (m s).2) :
    Follows p model uses m :=
  fun _ t hpast => ⟨[.elsewhere], ⟨(m t.session).2, t.calls⟩, hpast.next (.elsewhere (h t.session)),
    rfl, List.prefix_rfl⟩

theorem follows_pure (a : α) : Follows p model uses (pure a) :=
  follows_beside fun _ => ⟨rfl, rfl⟩

theorem follows_lift (x : Except Error α) : Follows p model uses (liftM x) :=
  follows_beside fun _ => ⟨rfl, rfl⟩

theorem follows_get : Follows p model uses (get : Steps Session Session) :=
  follows_beside fun _ => ⟨rfl, rfl⟩

theorem follows_mapM {xs : List α} {f : α → Steps Session β}
    (h : ∀ x, Follows p model uses (f x)) : Follows p model uses (xs.mapM f) := by
  induction xs with
  | nil => exact follows_pure []
  | cons x xs ih =>
    rw [List.mapM_cons]
    apply follows_bind (h x)
    intro b
    apply follows_bind ih
    exact fun bs => follows_pure (b :: bs)

theorem follows_counting (steps : Steps Nat α) : Follows p model uses (counting steps) := by
  apply follows_beside
  intro s
  unfold counting
  rcases steps s.uses with ⟨x, uses⟩
  exact ⟨rfl, rfl⟩

theorem follows_fetch (backend : Backend) (statement : Statement) :
    Follows p model uses (fetch backend statement) :=
  follows_beside fun _ => ⟨rfl, rfl⟩

theorem follows_loaded (rows : List Record) : Follows p model uses (loaded rows) :=
  follows_beside fun _ => ⟨rfl, rfl⟩

theorem follows_store {name key : String} {list : Loaded} (h : name ≠ model) :
    Follows p model uses (store name key list) := by
  apply follows_beside
  intro s
  obtain ⟨-, hs⟩ | ⟨c, -, hs⟩ := store_cases name key list s
  · rw [hs]
    exact ⟨rfl, rfl⟩
  · rw [hs]
    exact ⟨Fields.get?_insert_of_ne h _ _, rfl⟩

end Follows

section Execute

variable {execute : Execute} (h : ∀ q statement, Follows p model uses (execute q statement))

include h

theorem follows_load (q : CompiledQuery) (statement : Statement) :
    Follows p model uses (load execute q statement) :=
  follows_bind (h q statement) follows_loaded

theorem follows_listWith_of_ne {name : String} (hname : name ≠ model) (r : Request) :
    Follows p model uses (p.listWith execute name r) := by
  apply follows_bind (follows_lift _)
  intro m
  apply follows_bind (follows_counting _)
  intro q
  apply follows_bind (follows_lift _)
  intro statement
  cases p.usesCache m r with
  | false => exact follows_load h q statement
  | true =>
    apply follows_bind (follows_lift _)
    intro key
    apply follows_bind follows_get
    intro s
    cases lookup? name key s with
    | some list => exact follows_pure list
    | none =>
      apply follows_bind (follows_load h q statement)
      intro list
      apply follows_bind (follows_store hname)
      exact fun _ => follows_pure list

theorem errand_follows {past : List Event} {s : Session} {calls : List (Request × Stage)}
    {r : Request} {errand : Errand}
    (hpast : History p model uses past ⟨s, calls ++ [(r, .missed errand)]⟩) :
    ∃ events rest, History p model uses (past ++ events)
      ⟨(fulfil execute model errand s).2,
        calls ++ (r, .over (fulfil execute model errand s).1) :: rest⟩ := by
  obtain ⟨events, ⟨u, calls'⟩, hu, rfl, rest, rfl⟩ :=
    h errand.query errand.statement past _ hpast
  rw [List.append_assoc, List.singleton_append] at hu
  have hloaded := hu.next (.execute (execute errand.query errand.statement s).1
    (Traffic.getElem?_mid ..))
  rw [Traffic.proceed_mid, ← load_apply, List.append_assoc] at hloaded
  unfold fulfil
  rw [bind_apply]
  rcases hload : load execute errand.query errand.statement s with ⟨x, v⟩
  rw [hload] at hloaded
  cases x with
  | error e => exact ⟨_, rest, hloaded⟩
  | ok list =>
    cases hkey : errand.key with
    | none =>
      rw [hkey] at hloaded
      exact ⟨_, rest, hloaded⟩
    | some key =>
      rw [hkey] at hloaded
      have hkept := hloaded.next (.replace (Traffic.getElem?_mid ..))
      rw [Traffic.proceed_mid, List.append_assoc] at hkept
      exact ⟨_, rest, hkept⟩

theorem call_follows {past : List Event} {t : Traffic} (hpast : History p model uses past t)
    (r : Request) : ∃ events rest, History p model uses (past ++ events)
      ⟨(p.listWith execute model r t.session).2,
        t.calls ++ (r, .over (p.listWith execute model r t.session).1) :: rest⟩ := by
  have hlooked := (hpast.next (.call t r)).next (.lookup (Traffic.getElem?_mid ..))
  rw [Traffic.proceed_mid, List.append_assoc] at hlooked
  rw [listWith_eq, bind_apply]
  rcases hlook : p.look model r t.session with ⟨x, s⟩
  rw [hlook] at hlooked
  match x, hlooked with
  | .error e, hlooked => exact ⟨_, [], hlooked⟩
  | .ok (.inl list), hlooked => exact ⟨_, [], hlooked⟩
  | .ok (.inr errand), hlooked =>
    obtain ⟨events, rest, hover⟩ := errand_follows h hlooked
    rw [List.append_assoc] at hover
    exact ⟨_, rest, hover⟩

theorem follows_listWith (name : String) (r : Request) :
    Follows p model uses (p.listWith execute name r) := by
  by_cases hname : name = model
  · subst hname
    intro past t hpast
    obtain ⟨events, rest, ht'⟩ := call_follows h hpast r
    exact ⟨events, _, ht', rfl, List.prefix_append ..⟩
  · exact follows_listWith_of_ne h hname r

theorem follows_nestedList (entity : String) (parentId : Value) (task : NestedTask) :
    Follows p model uses (p.nestedList execute entity parentId task) := by
  apply follows_bind (follows_lift _)
  intro root
  apply follows_bind (follows_counting _)
  intro q
  apply follows_bind (follows_lift _)
  intro statement
  apply follows_bind (h q statement)
  exact fun rows => follows_pure _

theorem follows_siblings (entity : String) : Follows p model uses (p.siblings execute entity) := by
  apply follows_bind (follows_listWith h entity _)
  exact fun list => follows_pure _

theorem follows_materialize (q : CompiledQuery) (dependencies : List EntityIndex) (row : Record) :
    Follows p model uses (p.materialize execute q dependencies row) := by
  apply follows_bind (follows_mapM fun task => follows_nestedList h _ _ task)
  exact fun lists => follows_pure _

end Execute

theorem follows_execute (backend : Backend) (fuel : Nat) (q : CompiledQuery)
    (statement : Statement) : Follows p model uses (p.execute backend fuel q statement) := by
  induction fuel generalizing q statement with
  | zero => exact follows_beside fun _ => ⟨rfl, rfl⟩
  | succ fuel ih =>
    apply follows_bind (follows_fetch backend statement)
    intro rows
    apply follows_bind (follows_mapM fun entity => follows_siblings ih entity)
    exact fun dependencies => follows_mapM fun row => follows_materialize ih q dependencies row

end Provider

end RecordQuery
