import RecordQuery.Proofs.Likeness.Exact
import RecordQuery.Proofs.Shape
import RecordQuery.Provider

/-!
The check of nested lists is complete. It compiles every list for a null parent; a list is compiled
for any other parent by the same steps, which differ in one value of one condition. So no list
inside a query that was accepted fails to compile when its rows are there.
-/

namespace RecordQuery

open Steps

namespace Condition

mutual

/-- The groups of a condition, whatever stands in them. -/
def outline : Condition → Condition
  | .group op conditions => .group op (outlines conditions)
  | _ => .constant true

def outlines : List Condition → List Condition
  | [] => []
  | c :: rest => outline c :: outlines rest

end

theorem outlines_eq_map (conditions : List Condition) :
    outlines conditions = conditions.map outline := by
  induction conditions with
  | nil => rfl
  | cons c rest ih => rw [outlines, ih, List.map_cons]

theorem inward_outline : Inward outline where
  group := fun op conditions => by rw [outline, outlines_eq_map]
  of_group := by
    intro c op conditions h
    cases c with
    | group op' inner =>
      rw [outline] at h
      cases h
      exact ⟨inner, rfl⟩
    | _ => cases h

end Condition

def Likeness.outlined : Likeness := .viewing .outline Condition.inward_outline fun _ _ _ _ => rfl

namespace Compilation

variable {s : Setting} {t u : NestedTask}

theorem eq_of_taskAlike (h : TaskAlike .outlined t u) : t = u := by
  obtain ⟨path, parent, options, inner, criteria, pool⟩ := t
  obtain ⟨path', parent', options', inner', criteria', pool'⟩ := u
  obtain ⟨rfl, rfl, rfl, rfl, hcriteria, hpool, -, -⟩ := h
  have hpool : pool = pool' := hpool
  have hcriteria : criteria = criteria' := by
    cases hcriteria with
    | none => rfl
    | some hbag => exact congrArg some hbag
  rw [hpool, hcriteria]

theorem both_parents (h : TaskAlike .outlined t t) (v w : Value) (i j : Nat) :
    Both (CompiledQuery.Alike .outlined) (nestedQuery s t v i).1 (nestedQuery s t w j).1 := by
  have hparents : ∀ column, Likeness.outlined.view (.eq column v)
      = Likeness.outlined.view (.eq column w) := fun _ => rfl
  exact (parallel_nestedQuery h hparents i j trivial).2

/-- The list compiles for a null parent and has a statement, and so have the lists inside it. -/
inductive Checked (s : Setting) : NestedTask → Prop
  | intro {t i x j statement} : nestedQuery s t .null i = (.ok x, j) →
    x.query.rowStatement s.dialect = .ok statement → (∀ u ∈ x.nested, Checked s u) → Checked s t

/-- Checked, and compiled alike wherever the counting of computed values stands. -/
structure Sound (s : Setting) (t : NestedTask) : Prop where
  checked : Checked s t
  alike : TaskAlike .outlined t t

theorem Sound.compiles (h : Sound s t) (v : Value) (i k : Nat) :
    ∃ x j statement checked l, nestedQuery s t v i = (.ok x, j) ∧
      x.query.rowStatement s.dialect = .ok statement ∧
      nestedQuery s t .null k = (.ok checked, l) ∧ x.handlers = checked.handlers ∧
      x.dependencies = checked.dependencies ∧ x.nested = checked.nested ∧
      ∀ u ∈ x.nested, Sound s u := by
  obtain @⟨_, k', y, l', statement', hy, hrow, hinner⟩ := h.checked
  have hagain : ∀ v i, ∃ x j, nestedQuery s t v i = (.ok x, j) ∧ x.Alike .outlined y := by
    intro v i
    have hboth := both_parents (s := s) h.alike v .null i k'
    rw [hy] at hboth
    obtain ⟨x, hx, halike⟩ := hboth.of_ok
    exact ⟨x, _, Prod.ext hx rfl, halike⟩
  have hnested : ∀ {x : CompiledQuery}, x.Alike .outlined y → x.nested = y.nested :=
    fun hx => List.forall₂_eq_eq_eq ▸ hx.nested.imp fun _ _ => eq_of_taskAlike
  obtain ⟨x, j, hx, halike⟩ := hagain v i
  obtain ⟨checked, l, hchecked, hsame⟩ := hagain .null k
  have hboth := Likeness.both_rowStatement halike.query s.dialect
  rw [hrow] at hboth
  obtain ⟨statement, hstatement, -⟩ := hboth.of_ok
  refine ⟨x, j, statement, checked, l, hx, hstatement, hchecked, ?_, ?_, ?_, ?_⟩
  · exact halike.handlers.trans hsame.handlers.symm
  · exact halike.dependencies.trans hsame.dependencies.symm
  · exact (hnested halike).trans (hnested hsame).symm
  · intro u hu
    have hforall := halike.nested
    rw [← hnested halike, List.forall₂_same] at hforall
    exact ⟨hinner u (hnested halike ▸ hu), hforall u hu⟩

end Compilation

/-- A list of the query, or one inside what such a list compiles to for some parent. -/
inductive CompiledQuery.Below (s : Setting) (q : CompiledQuery) : NestedTask → Prop
  | list {t} : t ∈ q.nested → Below s q t
  | inside {t v i x j u} : Below s q t → Compilation.nestedQuery s t v i = (.ok x, j) →
    u ∈ x.nested → Below s q u

open Compilation in
theorem CompiledQuery.Below.sound {s : Setting} {q : CompiledQuery} {t : NestedTask}
    (h : q.Below s t) (hq : ∀ t ∈ q.nested, Sound s t) : Sound s t := by
  induction h with
  | list ht => exact hq _ ht
  | @inside t v i x j u _ hx hu ih =>
    obtain ⟨x', j', _, _, _, hx', -, -, -, -, -, hsound⟩ := ih.compiles v i 0
    rw [hx] at hx'
    cases hx'
    exact hsound u hu

namespace Provider

variable {p : Provider} {s : Setting}

theorem checked_of_checkNested {depth i j : Nat} {ts : List NestedTask}
    (h : checkNested s depth ts i = (.ok (), j)) : ∀ t ∈ ts, Compilation.Checked s t := by
  induction depth generalizing ts i j with
  | zero =>
    cases ts with
    | nil => simp
    | cons => cases h
  | succ depth ih =>
    cases ts with
    | nil => simp
    | cons t ts =>
      intro u hu
      obtain ⟨k, l, hu⟩ := forM_ok h u hu
      obtain ⟨x, m, hx, hrest⟩ := bind_ok hu
      obtain ⟨statement, hrow, hinner⟩ := lift_bind_ok hrest
      exact .intro hx hrow (ih hinner)

theorem outlined_compile (hp : p.Constant) {model : String} {r : Request} {i i' j j' : Nat}
    {q q' : CompiledQuery} (h : p.compile model r i = (.ok q, j))
    (h' : p.compile model r i' = (.ok q', j')) : q.Alike .outlined q' := by
  have hsame : RequestsAlike .outlined p r r := ⟨rfl, rfl, rfl, rfl⟩
  have hboth := (parallel_compile (L := .outlined) model hp
    (fun _ projection _ _ => projection.every_of (fun _ => trivial) fun _ _ _ => trivial)
    hsame i i' trivial).2
  rw [h, h'] at hboth
  exact hboth

theorem sound_of_compile (hp : p.Constant) {model : String} {r : Request} {i j : Nat}
    {q : CompiledQuery} (h : p.compile model r i = (.ok q, j)) :
    ∃ root, p.schema.entity q.entity = .ok root ∧
      ∀ t ∈ q.nested, Compilation.Sound (p.setting root) t := by
  obtain ⟨m, root, projection, k, hm, hroot, hprojection, hrun, hcheck⟩ := compile_ok h
  obtain ⟨c, hc, rfl, -⟩ := Compilation.run_ok hrun
  have hentity : p.schema.entity (c.finish (p.setting root)).entity = .ok root :=
    Schema.entity_name hroot
  have hnested := (outlined_compile hp h h).nested
  rw [List.forall₂_same] at hnested
  exact ⟨root, hentity, fun t ht => ⟨checked_of_checkNested hcheck t ht, hnested t ht⟩⟩

theorem nestedList_apply {entity : String} {root : Entity} {t : NestedTask} {v : Value}
    {session : Session} {x : CompiledQuery} {uses : Nat} {statement : Statement}
    (hroot : p.schema.entity entity = .ok root)
    (hx : Compilation.nestedQuery (p.setting root) t v session.uses = (.ok x, uses))
    (hrow : x.query.rowStatement p.dialect = .ok statement) (execute : Execute) :
    p.nestedList execute entity v t session
      = (do
          let rows ← execute x statement
          return (t.options.outputKey, .list (rows.map Value.record)) : Steps Session _)
        { session with uses } := by
  have hcounting : counting (Compilation.nestedQuery (p.setting root) t v) session
      = (.ok x, { session with uses }) := counting_ok_iff.2 ⟨uses, hx, rfl⟩
  unfold nestedList
  rw [hroot, bind_of_ok (lift_apply (.ok root) session), bind_of_ok hcounting, hrow]
  exact bind_of_ok (lift_apply (.ok statement) _)

end Provider

/-- Once a request compiles, each of its lists at every depth compiles for every parent and has a
statement, with the handlers, dependencies and lists of the check for a null parent. So a list that
is loaded can fail in what it executes only. -/
theorem nested_lists_checked_ahead (p : Provider) (hp : p.Constant) {model : String} {r : Request}
    {i j : Nat} {q : CompiledQuery} (h : p.compile model r i = (.ok q, j)) :
    ∃ root, p.schema.entity q.entity = .ok root ∧
      ∀ t, q.Below (p.setting root) t → ∀ (v : Value) (session : Session) (k : Nat),
        ∃ x uses statement checked l,
          Compilation.nestedQuery (p.setting root) t v session.uses = (.ok x, uses) ∧
          x.query.rowStatement p.dialect = .ok statement ∧
          Compilation.nestedQuery (p.setting root) t .null k = (.ok checked, l) ∧
          x.handlers = checked.handlers ∧ x.dependencies = checked.dependencies ∧
          x.nested = checked.nested ∧ x.entity = q.entity ∧
          ∀ execute, p.nestedList execute q.entity v t session
            = (do
                let rows ← execute x statement
                return (t.options.outputKey, .list (rows.map Value.record)) : Steps Session _)
              { session with uses } := by
  obtain ⟨root, hroot, hsound⟩ := Provider.sound_of_compile hp h
  refine ⟨root, hroot, ?_⟩
  intro t ht v session k
  obtain ⟨x, uses, statement, checked, l, hx, hrow, hchecked, hh, hd, hn, -⟩ :=
    (ht.sound hsound).compiles v session.uses k
  have hentity : x.entity = q.entity := by
    obtain ⟨c, -, rfl, -⟩ := Compilation.run_ok hx
    exact Schema.name_of_entity hroot
  exact ⟨x, uses, statement, checked, l, hx, hrow, hchecked, hh, hd, hn, hentity,
    Provider.nestedList_apply hroot hx hrow⟩

theorem nested_lists_checked_ahead_blog :
    (Blog.provider .postgres).Constant ∧
    ∃ q j root t, (Blog.provider .postgres).compile "Post" Blog.request 0 = (.ok q, j) ∧
      q.Below ((Blog.provider .postgres).setting root) t ∧ t.options.outputKey = "comments" ∧
      ∃ x uses statement checked l,
        Compilation.nestedQuery ((Blog.provider .postgres).setting root) t (.text "7") 0
          = (.ok x, uses) ∧
        x.query.rowStatement .postgres = .ok statement ∧
        Compilation.nestedQuery ((Blog.provider .postgres).setting root) t .null 3
          = (.ok checked, l) ∧
        x.handlers = checked.handlers ∧ x.nested = checked.nested := by
  obtain ⟨q, j, hq, hkeys⟩ := ok_of_toOption_map
    (m := (Blog.provider .postgres).compile "Post" Blog.request) (s := 0)
    (f := fun q => q.nested.map fun t => t.options.outputKey) (b := ["comments"])
    (by decide +kernel)
  obtain ⟨root, -, hlists⟩ := nested_lists_checked_ahead _ (Blog.constant .postgres) hq
  obtain ⟨t, ht, hkey⟩ := List.mem_map.1 (hkeys ▸ List.mem_singleton_self "comments")
  obtain ⟨x, uses, statement, checked, l, hx, hrow, hchecked, hh, -, hn, -⟩ :=
    hlists t (.list ht) (.text "7") ((Blog.provider .postgres).session 0) 3
  exact ⟨Blog.constant _, q, j, root, t, hq, .list ht, hkey, x, uses, statement, checked, l, hx,
    hrow, hchecked, hh, hn⟩

end RecordQuery
