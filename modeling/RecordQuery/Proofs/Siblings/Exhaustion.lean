import RecordQuery.Proofs.Siblings.Grounding

namespace RecordQuery.Provider

open Steps

variable {α β γ : Type} {p : Provider} {backend : Backend} {q : CompiledQuery}
  {model entity : String} {r : Request} {execute : Execute} {s : Session}

/-- The steps take no statement back, and have sent so many when they fail. -/
def FailsAfter (n : Nat) (m : Steps Session α) : Prop :=
  ∀ s, s.log.length ≤ (m s).2.log.length ∧
    ∀ e, (m s).1 = .error e → s.log.length + n ≤ (m s).2.log.length

section FailsAfter

variable {n : Nat}

theorem failsAfter_of_failsIn {m : Steps Session α} (h : FailsIn (fun _ => False) m) :
    FailsAfter n m :=
  fun s => ⟨(h s).1.length_le, fun e he => ((h s).2 e he).elim⟩

theorem failsAfter_bind {m : Steps Session α} {f : α → Steps Session β} (hm : FailsAfter n m)
    (hf : ∀ a, FailsAfter n (f a)) : FailsAfter n (m >>= f) := by
  intro s
  have h := hm s
  rw [bind_apply]
  rcases hx : m s with ⟨x, t⟩
  rw [hx] at h
  cases x with
  | error e => exact ⟨h.1, fun _ _ => h.2 e rfl⟩
  | ok a =>
    obtain ⟨hlog, herror⟩ := hf a t
    exact ⟨h.1.trans hlog, fun e he => (Nat.add_le_add_right h.1 n).trans (herror e he)⟩

theorem failsAfter_mapM {xs : List γ} {f : γ → Steps Session α}
    (h : ∀ x ∈ xs, FailsAfter n (f x)) : FailsAfter n (xs.mapM f) := by
  induction xs with
  | nil => exact failsAfter_of_failsIn (failsIn_pure [])
  | cons x xs ih =>
    rw [List.mapM_cons]
    apply failsAfter_bind (h x List.mem_cons_self)
    intro a
    apply failsAfter_bind (ih fun y hy => h y (List.mem_cons_of_mem x hy))
    exact fun as => failsAfter_of_failsIn (failsIn_pure (a :: as))

theorem failsAfter_listWith {uses : Nat} (hq : p.compile model r s.uses = (.ok q, uses))
    (h : ∀ statement, FailsAfter n (execute q statement)) :
    s.log.length ≤ (p.listWith execute model r s).2.log.length ∧
      ∀ e, (p.listWith execute model r s).1 = .error e →
        s.log.length + n ≤ (p.listWith execute model r s).2.log.length := by
  obtain ⟨statement, hrow⟩ := rowStatement_of_serves (.request hq)
  obtain ⟨list, hlist⟩ | ⟨after, hafter, hlist⟩ :=
    listWith_ok (E := fun _ => False) execute hq hrow
  · rw [hlist]
    exact ⟨Nat.le_refl _, fun _ he => nomatch he⟩
  · rw [hlist]
    exact failsAfter_bind (h statement) (fun rows => failsAfter_of_failsIn (hafter rows))
      { s with uses }

theorem failsAfter_siblings (hstocked : p.Stocked)
    (h : ∀ q statement, p.Ready q → FailsAfter n (execute q statement))
    (hentity : p.isCached entity = true) : FailsAfter n (p.siblings execute entity) := by
  refine failsAfter_bind ?_ fun list =>
    failsAfter_of_failsIn (failsIn_pure (EntityIndex.ofRecords list.rows))
  intro s
  rcases hq : p.compile entity p.siblingRequest s.uses with ⟨x, uses⟩
  cases x with
  | error e => exact absurd (congrArg Prod.fst hq) (hstocked entity hentity s.uses e)
  | ok q => exact failsAfter_listWith hq fun statement => h q statement (ready_of_compile hq)

theorem failsAfter_nestedList (hp : p.Constant)
    (h : ∀ q statement, p.Ready q → FailsAfter n (execute q statement)) (hq : p.Ready q)
    {task : NestedTask} (ht : task ∈ q.nested) (parentId : Value) :
    FailsAfter n (p.nestedList execute q.entity parentId task) := by
  intro s
  obtain ⟨root, hroot⟩ := entity_of_serves hq.serves
  obtain ⟨q', uses, _, _, _, hx, -⟩ := (hq.sound hp root hroot task ht).compiles parentId s.uses 0
  have hready : p.Ready q' := hq.needs (.nested hroot ht hx)
  obtain ⟨statement, hrow⟩ := rowStatement_of_serves hready.serves
  rw [nestedList_apply hroot hx hrow]
  exact failsAfter_bind (h q' statement hready)
    (fun rows => failsAfter_of_failsIn (failsIn_pure _)) { s with uses }

theorem failsAfter_building (hp : p.Constant) (hstocked : p.Stocked)
    (h : ∀ q statement, p.Ready q → FailsAfter n (execute q statement)) (hq : p.Ready q)
    (rows : List Record) : FailsAfter n (do
      let dependencies ← q.dependencies.mapM (p.siblings execute)
      rows.mapM (p.materialize execute q dependencies)) := by
  apply failsAfter_bind
  · exact failsAfter_mapM fun entity hentity =>
      failsAfter_siblings hstocked h (cached_of_serves hq.serves entity hentity)
  · intro dependencies
    refine failsAfter_mapM fun row _ => ?_
    apply failsAfter_bind (failsAfter_mapM fun task ht => failsAfter_nestedList hp h hq ht _)
    exact fun lists => failsAfter_of_failsIn (failsIn_pure _)

theorem failsAfter_execute (hp : p.Constant) (hstocked : p.Stocked)
    (hanswers : ∀ statement, ∃ rows, backend statement = .ok rows) (levels : Nat) (hq : p.Ready q)
    (statement : Statement) : FailsAfter levels (p.execute backend levels q statement) := by
  induction levels generalizing q statement with
  | zero => exact fun s => ⟨Nat.le_refl _, fun _ _ => Nat.le_refl _⟩
  | succ levels ih =>
    intro s
    obtain ⟨rows, hrows⟩ := hanswers statement
    have hsent : fetch backend statement s
        = (.ok rows, { s with log := s.log ++ [statement] }) := by
      rw [fetch_apply, hrows]
    rw [execute, bind_of_ok hsent]
    obtain ⟨hlog, herror⟩ :=
      failsAfter_building hp hstocked (fun _ statement hq => ih hq statement) hq rows
        { s with log := s.log ++ [statement] }
    rw [List.length_append, List.length_singleton] at hlog herror
    refine ⟨by omega, fun e he => ?_⟩
    have := herror e he
    omega

end FailsAfter

section Bottomless

variable (hp : p.Constant) (hstocked : p.Stocked)

include hp hstocked

theorem failsIn_endless (hanswers : ∀ statement, ∃ rows, backend statement = .ok rows)
    (hq : p.Ready q) (levels : Nat) (statement : Statement) :
    FailsIn (fun e => ∃ entity, e = .endless entity) (p.execute backend levels q statement) := by
  refine (failsIn_execute hq levels statement).weaken fun e he => ?_
  obtain ⟨statement, hfault⟩ | hendless := he.stocked hp hstocked hq.serves
  · obtain ⟨rows, h⟩ := hanswers statement
    rw [h] at hfault
    cases hfault
  · exact hendless

theorem listWith_bottomless
    (hrows : ∀ statement, ∃ row rows, backend statement = .ok (row :: rows)) {uses uses' : Nat}
    (hq : p.compile model r uses = (.ok q, uses')) (hbottomless : p.Bottomless q) (levels : Nat) :
    (∃ entity, (p.listWith (p.execute backend levels) model r (p.session uses)).1
      = .error (.endless entity)) ∧
    levels ≤ (p.listWith (p.execute backend levels) model r (p.session uses)).2.log.length := by
  have hanswers : ∀ statement, ∃ rows, backend statement = .ok rows := by
    intro statement
    obtain ⟨row, rows, h⟩ := hrows statement
    exact ⟨row :: rows, h⟩
  have hready : p.Ready q := ready_of_compile hq
  obtain ⟨statement, hrow⟩ := rowStatement_of_serves hready.serves
  obtain ⟨list, hlist⟩ | ⟨after, hafter, hlist⟩ :=
    listWith_ok (E := fun e => ∃ entity, e = .endless entity) (s := p.session uses)
      (p.execute backend levels) hq hrow
  · exact absurd hlist (unanswered_of_bottomless hp hrows hq hbottomless levels list _)
  · have hfails := (failsIn_bind (failsIn_endless hp hstocked hanswers hready levels statement)
      hafter { p.session uses with uses := uses' }).2
    have hlate := (failsAfter_listWith (s := p.session uses) hq fun statement =>
      failsAfter_execute hp hstocked hanswers levels hready statement).2
    rw [← hlist] at hfails
    rcases hx : p.listWith (p.execute backend levels) model r (p.session uses) with ⟨x, t⟩
    rw [hx] at hfails hlate
    -- it cannot end with a list, and each level has sent its statement when it fails
    cases x with
    | ok list =>
      exact absurd hx (unanswered_of_bottomless hp hrows hq hbottomless levels list t)
    | error e =>
      obtain ⟨entity, rfl⟩ := hfails e rfl
      have hlog := hlate (.endless entity) rfl
      rw [show (p.session uses).log.length = 0 from rfl, Nat.zero_add] at hlog
      exact ⟨⟨entity, rfl⟩, hlog⟩

end Bottomless

end RecordQuery.Provider
