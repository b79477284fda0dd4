import RecordQuery.Proofs.Joining.Scope
import RecordQuery.Provider.Compile

namespace RecordQuery

open Steps

namespace Compilation

variable {s : Setting} {path : String} {mode : JoinMode} {waiting : Option ScopedPredicate}
  {c c' c'' c₀ : Compilation} {t : Planning}

def planning (c : Compilation) (waiting : Option ScopedPredicate) : Planning :=
  ⟨c.plan, c.query, waiting⟩

def planned (c : Compilation) (t : Planning) : Compilation :=
  { c with plan := t.plan, query := t.query }

theorem resolveScoped_walked (s : Setting) (path : String) (mode : JoinMode)
    (waiting : Option ScopedPredicate) (c : Compilation) :
    ∃ x t, Planning.Walked s.schema s.root path mode (c.planning waiting)
        (s.schema.destination s.root path) x t ∧
      resolveScoped s path mode waiting c
        = (x.map fun r => (r, t.waiting.any ScopedPredicate.applied), c.planned t) :=
  ⟨_, _, Planning.walked_resolve s.schema s.root path mode (c.planning waiting), rfl⟩

theorem resolve_walked (s : Setting) (path : String) (mode : JoinMode) (c : Compilation) :
    ∃ x t, Planning.Walked s.schema s.root path mode (c.planning none)
        (s.schema.destination s.root path) x t ∧
      resolve s path mode c = (x, c.planned t) := by
  obtain ⟨x, t, hwalked, heq⟩ := resolveScoped_walked s path mode none c
  refine ⟨x, t, hwalked, ?_⟩
  unfold resolve
  rw [bind_apply, heq]
  cases x <;> rfl

structure Arrived (s : Setting) (path : String) (mode : JoinMode) (start t : Planning)
    (r : Resolved) : Prop where
  run : Planning.Run s.schema s.root mode start t
  column : ∃ d there, s.schema.destination s.root path = .ok d ∧ Planning.Standing t there ∧
    r = d.under there.tableAlias

theorem resolveScoped_ok {r : Resolved} {applied : Bool}
    (h : resolveScoped s path mode waiting c = (.ok (r, applied), c')) :
    ∃ t, Arrived s path mode (c.planning waiting) t r ∧ c' = c.planned t ∧
      applied = t.waiting.any ScopedPredicate.applied := by
  obtain ⟨x, t, hwalked, heq⟩ := resolveScoped_walked s path mode waiting c
  rw [heq] at h
  cases x with
  | error e => cases h
  | ok r' =>
    cases h
    exact ⟨t, ⟨hwalked.run, hwalked.of_ok⟩, rfl, rfl⟩

theorem resolve_ok {r : Resolved} (h : resolve s path mode c = (.ok r, c')) :
    ∃ t, Arrived s path mode (c.planning none) t r ∧ c' = c.planned t := by
  obtain ⟨x, t, hwalked, heq⟩ := resolve_walked s path mode c
  rw [heq] at h
  cases h
  exact ⟨t, ⟨hwalked.run, hwalked.of_ok⟩, rfl⟩

theorem criterionValue_ok {bag : Value} {single : Bool} {item : Criterion} {value : Option Value}
    (h : criterionValue item bag single c = (.ok value, c')) :
    (item.value? bag single c.uses).1 = value ∧
      c' = { c with uses := (item.value? bag single c.uses).2 } := by
  have hrun : criterionValue item bag single c = (.ok (item.value? bag single c.uses).1,
      { c with uses := (item.value? bag single c.uses).2 }) := rfl
  rw [hrun] at h
  cases h
  exact ⟨rfl, rfl⟩

theorem criterion_ok {bag : Value} {single : Bool} {base : String} {item : Criterion}
    {o : Option (Predicate × Bool)}
    (h : criterion s bag single base item c = (.ok o, c')) :
    ∃ value, (item.value? bag single c.uses).1 = value ∧
      (o = none ∧ value = none ∧ item.operator.takesValue = true ∧
          c' = { c with uses := (item.value? bag single c.uses).2 } ∨
        ∃ r p, (value = none → item.operator.takesValue = false) ∧
          resolve s (Path.under base item.path) .left
            { c with uses := (item.value? bag single c.uses).2 } = (.ok r, c') ∧
          item.operator.predicate r.column (value.getD .null) item.parameter = .ok p ∧
          o = some (p, r.toMany)) := by
  obtain ⟨value, u, hvalue, h⟩ := bind_ok h
  obtain ⟨hv, rfl⟩ := criterionValue_ok hvalue
  refine ⟨value, hv, ?_⟩
  by_cases hmissing : (value.isNone && item.operator.takesValue) = true
  · rw [if_pos hmissing] at h
    cases h
    obtain ⟨hnone, htakes⟩ := Bool.and_eq_true_iff.1 hmissing
    exact .inl ⟨rfl, Option.isNone_iff_eq_none.1 hnone, htakes, rfl⟩
  · rw [if_neg hmissing] at h
    obtain ⟨r, w, hr, h⟩ := bind_ok h
    obtain ⟨p, hp, h⟩ := lift_bind_ok h
    cases h
    exact .inr ⟨r, p, fun hnone => by simpa [hnone] using hmissing, hr, hp, rfl⟩

/-- A sort, a criterion or a page does one of these. -/
inductive Amends (s : Setting) (c : Compilation) : Compilation → Prop
  | join {t : Planning} : Planning.Run s.schema s.root .left (c.planning none) t →
    Amends s c (c.planned t)
  | order (term : OrderTerm) : Amends s c { c with query := c.query.order term }
  | filter (d : Condition) : Amends s c { c with query := c.query.addFilter d }
  | having (d : Condition) : c.grouped = true →
    Amends s c { c with query := c.query.addHaving d }
  | page (p : Page) : Amends s c { c with query := c.query.setPage p }
  | use (uses : Nat) : Amends s c { c with uses }

abbrev Amended (s : Setting) : Compilation → Compilation → Prop :=
  Relation.ReflTransGen (Amends s)

structure Keeps (c c' : Compilation) : Prop where
  aliases : c.query.source.aliases ⊆ c'.query.source.aliases
  fields : c'.query.fields = c.query.fields
  groupBy : c'.query.source.groupBy = c.query.source.groupBy
  grouped : c'.grouped = c.grouped
  having : c.grouped = false → c'.query.source.having = c.query.source.having

theorem Keeps.refl (c : Compilation) : Keeps c c :=
  ⟨List.Subset.refl _, rfl, rfl, rfl, fun _ => rfl⟩

theorem Keeps.trans (h : Keeps c c') (h' : Keeps c' c'') : Keeps c c'' where
  aliases := List.Subset.trans h.aliases h'.aliases
  fields := h'.fields.trans h.fields
  groupBy := h'.groupBy.trans h.groupBy
  grouped := h'.grouped.trans h.grouped
  having := fun hc => (h'.having (h.grouped.trans hc)).trans (h.having hc)

theorem keeps_planned (h : Planning.Run s.schema s.root mode (c.planning waiting) t) :
    Keeps c (c.planned t) := by
  obtain ⟨js, hjs⟩ := h.query
  have hquery : (c.planned t).query = { c.query with source := { c.query.source with
      joins := c.query.source.joins ++ js } } := hjs
  refine ⟨?_, by rw [hquery], by rw [hquery], rfl, fun _ => by rw [hquery]⟩
  rw [hquery]
  simp only [Source.aliases, List.map_append]
  exact List.cons_subset_cons _ (List.subset_append_left _ _)

theorem Amends.keeps (h : Amends s c c') : Keeps c c' := by
  cases h with
  | join hrun => exact keeps_planned hrun
  | having d hgrouped =>
    refine ⟨List.Subset.refl _, rfl, rfl, rfl, fun hc => ?_⟩
    rw [hgrouped] at hc
    cases hc
  | order | filter | page | use => exact ⟨List.Subset.refl _, rfl, rfl, rfl, fun _ => rfl⟩

theorem Amended.keeps (h : Amended s c c') : Keeps c c' := by
  induction h with
  | refl => exact .refl c
  | tail _ hstep ih => exact ih.trans hstep.keeps

theorem Amended.holds (h : Amended s c c') : c'.nested = c.nested ∧ c'.pool = c.pool := by
  induction h with
  | refl => exact ⟨rfl, rfl⟩
  | tail _ hstep ih =>
    rw [← ih.1, ← ih.2]
    cases hstep <;> exact ⟨rfl, rfl⟩

theorem amended_of_ok {α : Type} {m : Steps Compilation α} {a : α}
    (hm : Maintains (Amended s c) m fun _ => True) (h : m c = (.ok a, c')) : Amended s c c' := by
  have hamended := (hm c .refl).1
  rw [h] at hamended
  exact hamended

theorem amended_order (term : OrderTerm) :
    Maintains (Amended s c₀) (onQuery (·.order term)) (fun _ => True) :=
  maintains_modify fun _ hc => hc.tail (.order term)

theorem amended_filter (d : Condition) :
    Maintains (Amended s c₀) (onQuery (·.addFilter d)) (fun _ => True) :=
  maintains_modify fun _ hc => hc.tail (.filter d)

theorem amended_resolve (path : String) :
    Maintains (Amended s c₀) (resolve s path .left) (fun _ => True) := by
  intro c hc
  obtain ⟨x, t, hwalked, heq⟩ := resolve_walked s path .left c
  rw [heq]
  exact ⟨hc.tail (.join hwalked.run), fun _ _ => trivial⟩

theorem amended_sortTerm (base : String) (t : SortField) :
    Maintains (Amended s c₀) (sortTerm s base t) (fun _ => True) := by
  apply maintains_bind (Q := fun _ => True)
  · apply maintains_ite
    · exact fun _ => maintains_pure trivial
    · exact fun _ => maintains_map (amended_resolve _) fun _ _ => trivial
  · exact fun _ _ => amended_order _

theorem amended_sort (base : String) (order : SortSpec) :
    Maintains (Amended s c₀) (sort s base order) (fun _ => True) := by
  cases order with
  | random => exact amended_order _
  | fields terms => exact maintains_forM fun t _ => amended_sortTerm base t

theorem amended_criterionValue (item : Criterion) (bag : Value) (single : Bool) :
    Maintains (Amended s c₀) (criterionValue item bag single) (fun _ => True) := by
  apply maintains_bind maintains_get
  intro c hc
  apply maintains_bind (maintains_set (hc.tail (.use _)))
  exact fun _ _ => maintains_pure trivial

theorem amended_criterion (bag : Value) (single : Bool) (base : String) (item : Criterion) :
    Maintains (Amended s c₀) (criterion s bag single base item) (fun _ => True) := by
  apply maintains_bind (amended_criterionValue item bag single)
  intro value _
  apply maintains_ite
  · exact fun _ => maintains_pure trivial
  · intro _
    apply maintains_bind (amended_resolve _)
    intro r _
    apply maintains_bind (maintains_lift (Q := fun _ => True) fun _ _ => trivial)
    exact fun _ _ => maintains_pure trivial

theorem amended_place (toMany : Bool) (d : Condition) :
    Maintains (Amended s c₀) (place s toMany d) (fun _ => True) := by
  apply maintains_modify
  intro c hc
  split
  · next hgroups => exact hc.tail (.having _ (Bool.and_eq_true_iff.1 hgroups).2)
  · exact hc.tail (.filter d)

theorem amended_placeAll (connective : Connective) (found : List (Predicate × Bool)) :
    Maintains (Amended s c₀) (placeAll s connective found) (fun _ => True) := by
  apply maintains_bind (Q := fun _ => True)
  · apply maintains_ite
    · exact fun _ => maintains_pure trivial
    · exact fun _ => amended_place _ _
  · exact fun _ _ => maintains_forM fun d _ => amended_filter d

theorem amended_criteria (spec : CriteriaSpec) (bag : Value) (base : String) :
    Maintains (Amended s c₀) (criteria s spec bag base) (fun _ => True) := by
  apply maintains_bind (maintains_mapM fun item _ => amended_criterion bag _ base item)
  exact fun _ _ => amended_placeAll _ _

theorem ungroupedCriteria_ok {spec : CriteriaSpec} {bag : Value} {base : String}
    (h : ungroupedCriteria s spec bag base c = (.ok ⟨⟩, c')) :
    ∃ u, Amended s { c with grouped := false } u ∧ c' = { u with grouped := c.grouped } := by
  unfold ungroupedCriteria at h
  rw [bind_of_ok (get_apply c), bind_of_ok (modify_apply _ c)] at h
  obtain ⟨_, u, hu, hrest⟩ := bind_ok h
  cases hrest
  exact ⟨u, amended_of_ok (amended_criteria spec bag base) hu, rfl⟩

theorem nestedCriteria_ok {task : NestedTask} (h : nestedCriteria s task c = (.ok ⟨⟩, c')) :
    ∃ u, Amended s { c with grouped := false } u ∧ c' = { u with grouped := c.grouped } := by
  unfold nestedCriteria at h
  cases hcriteria : task.options.criteria with
  | none =>
    rw [hcriteria] at h
    cases h
    exact ⟨_, .refl, rfl⟩
  | some criteria =>
    cases hbag : task.criteria with
    | none =>
      rw [hcriteria, hbag] at h
      cases h
      exact ⟨_, .refl, rfl⟩
    | some bag =>
      rw [hcriteria, hbag] at h
      exact ungroupedCriteria_ok h

theorem amended_nestedSort (task : NestedTask) :
    Maintains (Amended s c₀) (nestedSort s task) (fun _ => True) := by
  unfold nestedSort
  cases task.options.sort with
  | none => exact maintains_pure trivial
  | some order => exact amended_sort task.path order

theorem applyNested_ok {task : NestedTask} {parentId : Value}
    (h : applyNested s task parentId c = (.ok ⟨⟩, c')) :
    ∃ t u, Amended s c t ∧ Amended s { t with grouped := false } u ∧
      c' = { u with grouped := t.grouped } := by
  unfold applyNested at h
  obtain ⟨_, c₁, hsort, h⟩ := bind_ok h
  obtain ⟨parent, c₂, hparent, h⟩ := bind_ok h
  obtain ⟨_, c₃, hfilter, h⟩ := bind_ok h
  obtain ⟨u, hu, hc'⟩ := nestedCriteria_ok h
  have h₁ := amended_of_ok (amended_nestedSort task) hsort
  have h₂ := amended_of_ok (amended_resolve _) hparent
  have h₃ := amended_of_ok (s := s) (amended_filter _) hfilter
  exact ⟨c₃, u, h₁.trans (h₂.trans h₃), hu, hc'⟩

theorem keeps_applyNested {task : NestedTask} {parentId : Value}
    (h : applyNested s task parentId c = (.ok ⟨⟩, c')) : Keeps c c' := by
  obtain ⟨t, u, ht, hu, rfl⟩ := applyNested_ok h
  have hkeeps := hu.keeps
  exact ht.keeps.trans ⟨hkeeps.aliases, hkeeps.fields, hkeeps.groupBy, rfl,
    fun _ => hkeeps.having rfl⟩

end Compilation

namespace Provider

variable {s : Setting} {m : Model} {r : Request} {c₀ : Compilation}

theorem amended_applySorts (names : List String) :
    Maintains (Compilation.Amended s c₀) (names.forM (applySort s m)) (fun _ => True) := by
  apply maintains_forM
  intro name _
  apply maintains_bind (maintains_lift (Q := fun _ => True) fun _ _ => trivial)
  exact fun order _ => Compilation.amended_sort "" order

theorem amended_applyRequest :
    Maintains (Compilation.Amended s c₀) (applyRequest s m r) (fun _ => True) := by
  apply maintains_bind (amended_applySorts r.sortNames)
  intro _ _
  apply maintains_bind maintains_get
  intro c _
  apply maintains_bind (Q := fun _ => True)
  · apply maintains_forM
    rintro ⟨name, bag⟩ _
    apply maintains_ite
    · exact fun _ => maintains_pure trivial
    · intro _
      apply maintains_bind (maintains_lift (Q := fun _ => True) fun _ _ => trivial)
      exact fun spec _ => Compilation.amended_criteria spec bag ""
  intro _ _
  apply maintains_bind (maintains_lift (Q := fun _ => True) fun _ _ => trivial)
  intro page _
  cases page with
  | none => exact maintains_pure trivial
  | some page => exact maintains_modify fun _ hc => hc.tail (.page page)

end Provider

end RecordQuery
