import RecordQuery.Proofs.Confinement
import RecordQuery.Proofs.Criteria.Any
import RecordQuery.Proofs.Criteria.Shedding

namespace RecordQuery

open Steps

/-- Given a bare null, the criteria ask for nothing: each needs a value, the definition has none,
and none of several takes the bare one. -/
structure CriteriaSpec.Quiet (spec : CriteriaSpec) : Prop where
  several : spec.items.length ≠ 1
  given : ∀ item ∈ spec.items, item.value = none ∧ item.operator.takesValue = true

def NestedOptions.Hushed (shed : String → Prop) (options : NestedOptions) : Prop :=
  ∀ k ∈ options.criteria, shed k.name → k.spec.Quiet

theorem Source.foldl_conjoin (ds : List Condition) (c : Condition) :
    ∃ d, ds.foldl Source.conjoin (some c) = some d ∧ d.conjuncts = c.conjuncts ++ ds := by
  induction ds generalizing c with
  | nil => exact ⟨c, rfl, (List.append_nil _).symm⟩
  | cons e ds ih =>
    obtain ⟨d, hd, hconjuncts⟩ := ih (c.andAlso e)
    refine ⟨d, hd, ?_⟩
    rw [hconjuncts, Condition.conjuncts_andAlso, List.append_assoc]
    rfl

namespace Compilation

variable {shed : String → Prop} {O : NestedOptions → Prop} {s : Setting} {base : String}
  {spec : CriteriaSpec} {t u : NestedTask} {parentId : Value} {c c' : Compilation}
  {i j l : Nat} {x y : CompiledQuery}

theorem criterion_quiet {item : Criterion} (hvalue : item.value = none)
    (htakes : item.operator.takesValue = true) (base : String) (c : Compilation) :
    criterion s .null false base item c = (.ok none, c) := by
  unfold criterion criterionValue Criterion.value?
  rw [hvalue, htakes]
  rfl

theorem criteria_quiet (h : spec.Quiet) (base : String) (c : Compilation) :
    criteria s spec .null base c = (.ok ⟨⟩, c) := by
  have hmany : decide (spec.items.length = 1) = false := decide_eq_false h.several
  have hfound : ∀ items : List Criterion, items ⊆ spec.items →
      items.mapM (criterion s .null false base) c = (.ok (items.map fun _ => none), c) := by
    intro items hitems
    induction items with
    | nil => rfl
    | cons item items ih =>
      obtain ⟨hitem, hitems⟩ := List.cons_subset.1 hitems
      obtain ⟨hvalue, htakes⟩ := h.given item hitem
      rw [List.mapM_cons, bind_of_ok (criterion_quiet hvalue htakes base c),
        bind_of_ok (ih hitems)]
      rfl
  have hnone : (spec.items.map fun _ => (none : Option (Predicate × Bool))).filterMap id = [] := by
    simp
  unfold criteria
  rw [hmany, bind_of_ok (hfound spec.items (List.Subset.refl _)), hnone]
  rfl

theorem Answers.eq_none_iff {item : Criterion} {single : Bool} {answer : Option Predicate}
    (h : Answers s .null single base item answer) :
    answer = none ↔ (item.value = none ∧ item.operator.takesValue = true) ∧ single = false := by
  cases h with
  | missing hvalue htakes =>
    refine iff_of_true rfl ?_
    unfold Criterion.value? at hvalue
    cases hv : item.value with
    | some v =>
      rw [hv] at hvalue
      cases hvalue
    | none =>
      rw [hv] at hvalue
      cases single with
      | false => exact ⟨⟨rfl, htakes⟩, rfl⟩
      | true => cases hvalue
  | found hvalue hneeds =>
    refine iff_of_false (Option.some_ne_none _) ?_
    rintro ⟨⟨hnone, htakes⟩, rfl⟩
    unfold Criterion.value? at hvalue
    rw [hnone] at hvalue
    rw [hneeds hvalue.symm] at htakes
    cases htakes

theorem answers_null {items : List Criterion} {single : Bool} {found : List (Option Predicate)}
    (h : List.Forall₂ (Answers s .null single base) items found) :
    found.filterMap id = [] ↔
      ∀ item ∈ items, (item.value = none ∧ item.operator.takesValue = true) ∧ single = false := by
  induction h with
  | nil => simp
  | @cons item answer items found hanswer _ ih =>
    rw [List.forall_mem_cons, ← ih, ← hanswer.eq_none_iff]
    cases answer <;> simp

theorem quiet_iff {found : List (Option Predicate)}
    (h : List.Forall₂ (Answers s .null (spec.items.length = 1) base) spec.items found) :
    found.filterMap id = [] ↔ spec.Quiet := by
  rw [answers_null h]
  constructor
  · intro hall
    refine ⟨fun hone => ?_, fun item hitem => (hall item hitem).1⟩
    obtain ⟨item, hitem⟩ := List.length_eq_one_iff.1 hone
    have hmany := (hall item (by rw [hitem]; exact List.mem_cons_self)).2
    exact of_decide_eq_false hmany hone
  · exact fun hquiet item hitem => ⟨hquiet.given item hitem, decide_eq_false hquiet.several⟩

theorem added_eq_nil (connective : Connective) (ps : List Predicate) :
    (ps.foldl Predicates.push .empty).added connective = [] ↔ ps = [] := by
  constructor
  · intro hnone
    unfold Predicates.added at hnone
    obtain ⟨hexpression, hstatement⟩ := List.append_eq_nil_iff.1 hnone
    cases ps with
    | nil => rfl
    | cons p ps =>
      cases p with
      | combined d =>
        have hmem := ((Predicates.foldl_push (.combined d :: ps) .empty d).1).2
          (.inr List.mem_cons_self)
        split at hexpression
        · next hempty =>
          rw [List.isEmpty_iff.1 hempty] at hmem
          cases hmem
        · cases hexpression
      | standing d =>
        have hmem := ((Predicates.foldl_push (.standing d :: ps) .empty d).2).2
          (.inr List.mem_cons_self)
        rw [hstatement] at hmem
        cases hmem
  · rintro rfl
    rfl

end Compilation

/-- Compiled alike, but for what lists took and what was left for those inside them. -/
structure CompiledQuery.Sheds (shed : String → Prop) (O : NestedOptions → Prop)
    (x y : CompiledQuery) : Prop where
  same : y = { x with nested := y.nested }
  nested : List.Forall₂ (fun t u => t.Sheds shed u ∧ t.Every O) x.nested y.nested

namespace Compilation

variable {shed : String → Prop} {O : NestedOptions → Prop} {s : Setting} {t u : NestedTask}
  {parentId : Value} {c c' : Compilation} {i j l : Nat} {x y : CompiledQuery}

theorem sheds_run {a b : Pool} (h : a.Sheds shed b) {m n : Steps Compilation Unit}
    (hmn : Parallel (Sheds shed O) m n fun _ _ => True) :
    Parallel Eq (run s a m) (run s b n) (CompiledQuery.Sheds shed O) := by
  rintro i _ rfl
  have hrun := hmn (start s a i) (start s b i) (sheds_start h i)
  unfold run
  rcases hm : m (start s a i) with ⟨x, c⟩
  rcases hn : n (start s b i) with ⟨y, d⟩
  rw [hm, hn] at hrun
  obtain ⟨hcd, hxy⟩ : Sheds shed O c d ∧ Both (fun _ _ => True) x y := hrun
  refine ⟨hcd.uses.symm, hxy.map fun _ _ _ => ⟨?_, hcd.nested⟩⟩
  rw [hcd.same]
  rfl

theorem sheds_nestedCriteria (h : t.Sheds shed u) (ht : t.options.Hushed shed) :
    Parallel (Sheds shed O) (nestedCriteria s t) (nestedCriteria s u) (fun _ _ => True) := by
  have hpath : u.path = t.path := by rw [h.same]
  have hoptions : u.options = t.options := by rw [h.same]
  unfold nestedCriteria
  rw [hpath, hoptions]
  rcases h.criteria with hcriteria | ⟨ht', hu', k, hk, hshed⟩
  · rw [hcriteria]
    cases t.options.criteria with
    | none => exact parallel_pure trivial
    | some k =>
      cases u.criteria with
      | none => exact parallel_pure trivial
      | some bag => exact (sheds_ungroupedCriteria k.spec bag t.path).weaken fun _ _ _ => trivial
  · rw [ht', hu', Option.mem_def.1 hk]
    intro c d hcd
    have hquiet : ungroupedCriteria s k.spec .null t.path c = (.ok ⟨⟩, c) := by
      unfold ungroupedCriteria
      rw [bind_of_ok (get_apply c), bind_of_ok (modify_apply _ c),
        bind_of_ok (criteria_quiet (ht k hk hshed) t.path _)]
      rfl
    dsimp only
    rw [hquiet]
    exact ⟨hcd, trivial⟩

theorem sheds_nestedQuery (h : t.Sheds shed u) (ht : t.Every (NestedOptions.Hushed shed))
    (parentId : Value) :
    Parallel Eq (nestedQuery s t parentId) (nestedQuery s u parentId)
      (CompiledQuery.Sheds shed (NestedOptions.Hushed shed)) := by
  apply sheds_run h.pool
  rw [nestedSteps_eq, nestedSteps_eq]
  apply parallel_bind (sheds_gatherNested h ht parentId)
  intro _ _ _
  exact sheds_nestedCriteria h ht.1

theorem filter_gatherNested (h : gatherNested s t parentId c = (.ok ⟨⟩, c')) :
    ∃ d, c'.query.source.filter = some d := by
  unfold gatherNested scopeNested at h
  obtain ⟨_, _, -, h⟩ := bind_ok h
  obtain ⟨_, _, -, h⟩ := bind_ok h
  obtain ⟨_, _, -, h⟩ := bind_ok h
  obtain ⟨_, _, -, h⟩ := bind_ok h
  obtain ⟨parent, w, -, h⟩ := bind_ok h
  cases h
  change ∃ d, Source.conjoin w.query.source.filter _ = some d
  cases w.query.source.filter with
  | none => exact ⟨_, rfl⟩
  | some e => exact ⟨_, rfl⟩

theorem gathered_of_sheds (h : t.Sheds shed u) (ht : t.Every O)
    (hx : nestedQuery s t parentId i = (.ok x, j))
    (hy : nestedQuery s u parentId i = (.ok y, l)) :
    ∃ c d c' d', Sheds shed O c d ∧ (∃ e, c.query.source.filter = some e) ∧
      nestedCriteria s t c = (.ok ⟨⟩, c') ∧ x = c'.finish s ∧
      nestedCriteria s u d = (.ok ⟨⟩, d') ∧ y = d'.finish s := by
  obtain ⟨c', hc', rfl, -⟩ := run_ok hx
  obtain ⟨d', hd', rfl, -⟩ := run_ok hy
  rw [nestedSteps_eq] at hc' hd'
  obtain ⟨_, c, hc, hc'⟩ := bind_ok hc'
  obtain ⟨_, d, hd, hd'⟩ := bind_ok hd'
  have hstart : Sheds shed O (start s t.pool i) (start s u.pool i) := sheds_start h.pool i
  have hboth := sheds_gatherNested (s := s) h ht parentId _ _ hstart
  rw [hc, hd] at hboth
  exact ⟨c, d, c', d', hboth.1, filter_gatherNested hc, hc', rfl, hd', rfl⟩

theorem nested_of_sheds (h : t.Sheds shed u) (ht : t.Every O)
    (hx : nestedQuery s t parentId i = (.ok x, j))
    (hy : nestedQuery s u parentId i = (.ok y, l)) :
    List.Forall₂ (fun t u => t.Sheds shed u ∧ t.Every O) x.nested y.nested := by
  obtain ⟨c, d, c', d', hcd, -, hc', rfl, hd', rfl⟩ := gathered_of_sheds h ht hx hy
  obtain ⟨v, hv, rfl⟩ := nestedCriteria_ok hc'
  obtain ⟨w, hw, rfl⟩ := nestedCriteria_ok hd'
  change List.Forall₂ _ v.nested w.nested
  rw [hv.holds.1, hw.holds.1]
  exact hcd.nested

theorem conjuncts_of_null (h : t.Sheds shed u) {k : NestedCriteria}
    (hk : t.options.criteria = some k) (hnull : t.criteria = some .null) (hnone : u.criteria = none)
    (hx : nestedQuery s t parentId i = (.ok x, j))
    (hy : nestedQuery s u parentId i = (.ok y, l)) :
    ∃ added, x.query.source.conjuncts = y.query.source.conjuncts ++ added ∧
      (added = [] ↔ k.spec.Quiet) := by
  have hany : t.Every fun _ => True :=
    ⟨trivial, t.inner.every_of (fun _ => trivial) fun _ => trivial⟩
  obtain ⟨c, d, c', d', hcd, ⟨e, he⟩, hc', rfl, hd', rfl⟩ := gathered_of_sheds h hany hx hy
  have hleft : nestedCriteria s u = pure ⟨⟩ := by
    unfold nestedCriteria
    rw [hnone]
    cases u.options.criteria <;> rfl
  -- without a bag the list ends here; with null its criteria are still to come
  rw [hleft] at hd'
  cases hd'
  unfold nestedCriteria ungroupedCriteria at hc'
  rw [hk, hnull] at hc'
  dsimp only at hc'
  rw [bind_of_ok (get_apply c), bind_of_ok (modify_apply _ c)] at hc'
  obtain ⟨_, w, hw, hc'⟩ := bind_ok hc'
  cases hc'
  obtain ⟨found, hfound, -, hfilter⟩ := criteria_added rfl hw
  dsimp only at hfilter
  rw [he] at hfilter
  obtain ⟨e', he', hconjuncts⟩ := Source.foldl_conjoin
    (((found.filterMap id).foldl Predicates.push .empty).added k.spec.connective) e
  refine ⟨((found.filterMap id).foldl Predicates.push .empty).added k.spec.connective, ?_,
    (added_eq_nil _ _).trans (quiet_iff hfound)⟩
  change w.query.source.conjuncts = d.query.source.conjuncts ++ _
  unfold Source.conjuncts
  rw [hcd.query, hfilter, he', he]
  exact hconjuncts

end Compilation

end RecordQuery
