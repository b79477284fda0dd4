import RecordQuery.Proofs.Criteria.Placing
import RecordQuery.Proofs.Evolution
import RecordQuery.Proofs.Leaves

namespace RecordQuery

open Steps

def NestedTask.entry? (t : NestedTask) : Option (String × Value) :=
  t.options.criteria.bind fun criteria => t.criteria.map (Prod.mk criteria.name)

theorem NestedOptions.perm_left (options : NestedOptions) (pool : Pool) :
    pool.Perm ((options.criteria.bind fun criteria =>
      (options.taken pool).map (Prod.mk criteria.name)).toList ++ options.left pool) := by
  unfold taken left
  cases options.criteria with
  | none => exact .refl _
  | some criteria =>
    simp only [Option.bind_some]
    cases hget : Fields.get? criteria.name pool with
    | none =>
      rw [Fields.swapRemove_of_absent hget]
      exact .refl _
    | some bag => exact Fields.perm_swapRemove hget

namespace Compilation

variable {s : Setting} {base path : String} {mode : JoinMode} {leaves : List (String × Leaf)}
  {leaf : FieldLeaf} {l : String × Leaf} {p : ScopedPredicate}
  {c u c' : Compilation} {marked marked' : List (Join × Option (String × Value))}
  {tasks tasks' : List NestedTask}

def predicateOf (base : String) (k : ScopedCriterion) (value : Value) : ScopedPredicate :=
  ⟨Path.under base k.path, k.operator, value, k.parameter, false⟩

theorem scopedPredicate?_eq_some {pool : Pool} (h : scopedPredicate? pool base leaf = some p) :
    ∃ k bag value, leaf.criterion = some k ∧ pool.get? k.criterion = some bag ∧
      bag.field? k.parameter = some value ∧ p = predicateOf base k value := by
  unfold scopedPredicate? at h
  obtain ⟨k, hk, h⟩ := Option.bind_eq_some_iff.1 h
  obtain ⟨bag, hbag, h⟩ := Option.bind_eq_some_iff.1 h
  obtain ⟨value, hvalue, h⟩ := Option.bind_eq_some_iff.1 h
  exact ⟨k, bag, value, hk, hbag, hvalue, (Option.some.inj h).symm⟩

def Unmarked (c c' : Compilation) : Prop :=
  ∃ js, c'.query.source.joins = c.query.source.joins ++ js ∧ ∀ j ∈ js, Planning.Bare j

theorem unmarked_same (h : c'.query.source.joins = c.query.source.joins) : Unmarked c c' :=
  ⟨[], by rw [h, List.append_nil], by simp⟩

theorem Unmarked.trans (h : Unmarked c u) (h' : Unmarked u c') : Unmarked c c' := by
  obtain ⟨js, hjs, hbare⟩ := h
  obtain ⟨ks, hks, hbare'⟩ := h'
  exact ⟨js ++ ks, by rw [hks, hjs, List.append_assoc], List.forall_mem_append.2 ⟨hbare, hbare'⟩⟩

theorem unmarked_planned {t : Planning}
    (h : Planning.Run s.schema s.root mode (c.planning none) t) : Unmarked c (c.planned t) :=
  (h.bare rfl).2

theorem unmarked_resolve {x : Except Error Resolved} (h : resolve s path mode c = (x, c')) :
    Unmarked c c' := by
  obtain ⟨_, t, hwalked, heq⟩ := resolve_walked s path mode c
  rw [heq] at h
  cases h
  exact unmarked_planned hwalked.run

theorem unmarked_selectColumn {label : String} {b : Bool}
    (h : selectColumn s path mode label c = (.ok b, c')) : Unmarked c c' := by
  unfold selectColumn at h
  obtain ⟨r, u, hr, h⟩ := bind_ok h
  obtain ⟨_, w, hw, h⟩ := bind_ok h
  cases h
  have hselected : Unmarked u c' := by
    apply unmarked_same
    split at hw
    · rw [(picked_selectSiblings hw).query]
      rfl
    · rw [(picked_selectPlain (δ := s.dialect) hw).query]
      rfl
  exact (unmarked_resolve hr).trans hselected

theorem Amended.unmarked (h : Amended s c c') : Unmarked c c' := by
  induction h with
  | refl => exact unmarked_same rfl
  | tail _ hstep ih =>
    refine ih.trans ?_
    cases hstep with
    | join hrun => exact unmarked_planned hrun
    | order | filter | having | page | use => exact unmarked_same rfl

/-- What a field does to the joins and to the pool: it leaves the pool as it is, or its predicate
came to stand in one of the joins, and the criterion is used up. -/
inductive Fate (s : Setting) (path base : String) (leaf : FieldLeaf) (c : Compilation) :
    List Join → Pool → Prop
  | left {js : List Join} : (∀ j ∈ js, Planning.Bare j) → Fate s path base leaf c js c.pool
  | placed {k : ScopedCriterion} {bag value : Value} {before after : List Join} {j : Join} :
    leaf.criterion = some k → c.pool.get? k.criterion = some bag →
    bag.field? k.parameter = some value →
    Planning.Scopes s.schema s.root path (c.planning (some (predicateOf base k value)))
      (predicateOf base k value) j →
    (∀ j ∈ before, Planning.Bare j) → (∀ j ∈ after, Planning.Bare j) →
    Fate s path base leaf c (before ++ j :: after) (c.pool.swapRemove k.criterion)

theorem resolveScoped_added {waiting : Option ScopedPredicate} {r : Resolved} {applied : Bool}
    (h : resolveScoped s path mode waiting c = (.ok (r, applied), u)) :
    ∃ js w, u.query.source.joins = c.query.source.joins ++ js ∧
      Planning.Added s.schema s.root path (c.planning waiting) waiting js w ∧
      applied = w.any ScopedPredicate.applied := by
  obtain ⟨x, t, hwalked, heq⟩ := resolveScoped_walked s path mode waiting c
  obtain ⟨js, hjs, hadded⟩ := hwalked.trail.added
  rw [heq] at h
  cases x with
  | error e => cases h
  | ok r' =>
    cases h
    exact ⟨js, t.waiting, hjs, hadded, rfl⟩

theorem selectField_fate {b : Bool} (h : selectField s path base mode leaf c = (.ok b, c')) :
    c'.nested = c.nested ∧
    ∃ js, c'.query.source.joins = c.query.source.joins ++ js ∧
      Fate s path base leaf c js c'.pool := by
  obtain ⟨r, applied, u, hu, -, hsource, hpool, hnested, -⟩ := selectField_ok h
  obtain ⟨js, w, hjs, hadded, happlied⟩ := resolveScoped_added hu
  refine ⟨hnested, js, by rw [hsource, hjs], ?_⟩
  rw [hpool, happlied]
  generalize hwaiting : scopedPredicate? c.pool base leaf = waiting at hadded
  cases hadded with
  | bare hbare =>
    have hidle : w.any ScopedPredicate.applied = false := by
      cases w with
      | none => rfl
      | some p =>
        obtain ⟨_, _, _, -, -, -, rfl⟩ := scopedPredicate?_eq_some hwaiting
        rfl
    rw [hidle]
    exact .left hbare
  | placed hj hbefore hafter =>
    obtain ⟨k, bag, value, hk, hbag, hvalue, rfl⟩ := scopedPredicate?_eq_some hwaiting
    have htaken : leaf.left true c.pool = c.pool.swapRemove k.criterion := by
      unfold FieldLeaf.left
      rw [hk]
    rw [Option.any_some, htaken]
    exact .placed hk hbag hvalue hj hbefore hafter

def Placed (s : Setting) (base : String) (leaves : List (String × Leaf)) (entry : String × Value)
    (j : Join) : Prop :=
  ∃ path leaf k value before, (path, .field leaf) ∈ leaves ∧ leaf.criterion = some k ∧
    k.criterion = entry.1 ∧ entry.2.field? k.parameter = some value ∧
    Planning.Scopes s.schema s.root (Path.under base path) before (predicateOf base k value) j

/-- What leaves did to the pool: the joins they added, marked with the entries whose predicates they
hold, and the lists they put aside. -/
structure Ledger (s : Setting) (base : String) (leaves : List (String × Leaf))
    (c c' : Compilation) (marked : List (Join × Option (String × Value)))
    (tasks : List NestedTask) : Prop where
  joins : c'.query.source.joins = c.query.source.joins ++ marked.map Prod.fst
  nested : c'.nested = c.nested ++ tasks
  pool : c.pool.Perm
    (marked.filterMap Prod.snd ++ tasks.filterMap NestedTask.entry? ++ c'.pool)
  bare : ∀ j, (j, none) ∈ marked → Planning.Bare j
  placed : ∀ j entry, (j, some entry) ∈ marked → Placed s base leaves entry j

theorem Ledger.trans (h : Ledger s base leaves c u marked tasks)
    (h' : Ledger s base leaves u c' marked' tasks') :
    Ledger s base leaves c c' (marked ++ marked') (tasks ++ tasks') where
  joins := by rw [h'.joins, h.joins, List.map_append, List.append_assoc]
  nested := by rw [h'.nested, h.nested, List.append_assoc]
  pool := by
    rw [List.filterMap_append, List.filterMap_append]
    refine h.pool.trans ((h'.pool.append_left _).trans ?_)
    simp only [List.append_assoc]
    apply List.Perm.append_left
    simp only [← List.append_assoc]
    iterate 2 apply List.Perm.append_right
    exact List.perm_append_comm
  bare := fun j hj => (List.mem_append.1 hj).elim (h.bare j) (h'.bare j)
  placed := fun j entry hj => (List.mem_append.1 hj).elim (h.placed j entry) (h'.placed j entry)

theorem Unmarked.ledger (s : Setting) (base : String) (leaves : List (String × Leaf))
    (h : Unmarked c c') (hnested : c'.nested = c.nested)
    (hpool : c'.pool = c.pool) : ∃ marked, Ledger s base leaves c c' marked [] := by
  obtain ⟨js, hjs, hbare⟩ := h
  refine ⟨js.map fun j => (j, none), ?_, by rw [hnested, List.append_nil], ?_, ?_, ?_⟩
  · rw [hjs, List.map_map]
    simp [Function.comp_def]
  · rw [hpool]
    simp
  · simpa using hbare
  · simp

theorem ledger_selectField {b : Bool} (hl : (path, .field leaf) ∈ leaves)
    (h : selectField s (Path.under base path) base mode leaf c = (.ok b, c')) :
    ∃ marked, Ledger s base leaves c c' marked [] := by
  obtain ⟨hnested, js, hjs, hfate⟩ := selectField_fate h
  generalize hpool : c'.pool = pool at hfate
  cases hfate with
  | left hbare => exact Unmarked.ledger s base leaves ⟨js, hjs, hbare⟩ hnested hpool
  | @placed k bag value before after j hk hbag hvalue hj hbefore hafter =>
    refine ⟨before.map (fun j => (j, none)) ++
      (j, some (k.criterion, bag)) :: after.map fun j => (j, none), ?_,
      by rw [hnested, List.append_nil], ?_, ?_, ?_⟩
    · simp [hjs, Function.comp_def]
    · rw [hpool]
      simpa [List.filterMap_map, Function.comp_def] using Fields.perm_swapRemove hbag
    · intro j' hj'
      have hmem : j' ∈ before ∨ j' ∈ after := by simpa using hj'
      exact hmem.elim (hbefore j') (hafter j')
    · intro j' entry hj'
      obtain ⟨rfl, rfl⟩ : j' = j ∧ entry = (k.criterion, bag) := by simpa using hj'
      exact ⟨path, leaf, k, value, _, hl, hk, rfl, hvalue, hj⟩

theorem ledger_leaf {b : Bool} (hl : l ∈ leaves)
    (h : Compilation.leaf s base mode l c = (.ok b, c')) :
    ∃ marked tasks, Ledger s base leaves c c' marked tasks := by
  obtain ⟨path, l⟩ := l
  cases l with
  | column label =>
    obtain ⟨hpool, hnested, -⟩ := (blind_selectColumn _ mode label).holds h
    obtain ⟨marked, hledger⟩ := (unmarked_selectColumn h).ledger s base leaves hnested hpool
    exact ⟨marked, [], hledger⟩
  | field leaf =>
    obtain ⟨marked, hledger⟩ := ledger_selectField hl h
    exact ⟨marked, [], hledger⟩
  | list options inner =>
    unfold Compilation.leaf at h
    dsimp only at h
    rw [bind_of_ok (deferList_apply _ base options inner c)] at h
    cases h
    refine ⟨[], [⟨Path.under base path, base, options, inner, options.taken c.pool,
      options.left c.pool⟩], (List.append_nil _).symm, rfl, ?_, by simp, by simp⟩
    have hleft := options.perm_left c.pool
    rw [List.filterMap_nil, List.nil_append, List.filterMap_cons, List.filterMap_nil]
    unfold NestedTask.entry?
    dsimp only
    generalize options.criteria.bind (fun criteria =>
      (options.taken c.pool).map (Prod.mk criteria.name)) = entry at hleft ⊢
    cases entry <;> exact hleft

theorem ledger_mapM {ls : List (String × Leaf)} {bs : List Bool} (hls : ls ⊆ leaves)
    (h : ls.mapM (Compilation.leaf s base mode) c = (.ok bs, c')) :
    ∃ marked tasks, Ledger s base leaves c c' marked tasks := by
  induction ls generalizing c bs with
  | nil =>
    cases h
    exact ⟨[], [], (List.append_nil _).symm, (List.append_nil _).symm, .refl _, nofun, nofun⟩
  | cons l ls ih =>
    obtain ⟨hl, hls⟩ := List.cons_subset.1 hls
    obtain ⟨b, u, bs', hb, hbs, rfl⟩ := mapM_cons_ok h
    obtain ⟨marked, tasks, hfirst⟩ := ledger_leaf hl hb
    obtain ⟨marked', tasks', hrest⟩ := ih hls hbs
    exact ⟨_, _, hfirst.trans hrest⟩

end Compilation

end RecordQuery
