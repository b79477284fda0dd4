import RecordQuery.Proofs.Joining.Resolution
import RecordQuery.Proofs.Leaves
import RecordQuery.Proofs.Projection

namespace RecordQuery

open Steps

def FieldLeaf.Misses (pool : Pool) (leaf : FieldLeaf) : Prop :=
  ∀ k, leaf.criterion = some k → pool.get? k.criterion = none

theorem FieldLeaf.Misses.left {pool : Pool} {leaf : FieldLeaf} (h : leaf.Misses pool)
    (options : NestedOptions) : leaf.Misses (options.left pool) := by
  intro k hk
  unfold NestedOptions.left
  cases options.criteria with
  | none => exact h k hk
  | some criteria => exact Fields.get?_swapRemove_of_absent (h k hk)

theorem NestedOptions.left_nil (options : NestedOptions) : options.left [] = [] := by
  unfold left
  cases options.criteria <;> rfl

/-- The lists that leaves put aside, and the pool that they leave. -/
def deferred (base : String) : List (String × Leaf) → Pool → List NestedTask × Pool
  | [], pool => ([], pool)
  | (path, .list options inner) :: leaves, pool =>
    match deferred base leaves (options.left pool) with
    | (tasks, rest) =>
      (⟨Path.under base path, base, options, inner, options.taken pool, options.left pool⟩ :: tasks,
        rest)
  | (_, .column _) :: leaves, pool => deferred base leaves pool
  | (_, .field _) :: leaves, pool => deferred base leaves pool

theorem deferred_cons (base : String) (l : String × Leaf) (leaves : List (String × Leaf))
    (pool : Pool) :
    deferred base (l :: leaves) pool =
      ((deferred base [l] pool).1 ++ (deferred base leaves (deferred base [l] pool).2).1,
        (deferred base leaves (deferred base [l] pool).2).2) := by
  obtain ⟨path, l⟩ := l
  cases l <;> rfl

def NestedOptions.carries (name : String) (options : NestedOptions) : Bool :=
  options.criteria.any fun criteria => criteria.name = name

def Projection.carriers (name : String) : Projection → Nat
  | .done _ => 0
  | .column _ _ rest => rest.carriers name
  | .field _ _ rest => rest.carriers name
  | .list _ options inner rest =>
    (if options.carries name then 1 else 0) + inner.carriers name + rest.carriers name

def Leaf.takes (name : String) : Leaf → Bool
  | .list options _ => options.carries name
  | _ => false

def Projection.takes (name : String) (p : Projection) : Bool :=
  p.leaves.any fun l => l.2.takes name

def Projection.Unscoped (name : String) : Projection → Prop :=
  Projection.Every (fun leaf => ∀ k, leaf.criterion = some k → k.criterion ≠ name) fun _ => True

section

variable {name : String} {bag : Value} {options : NestedOptions} {pool : Pool} {p : Projection}

theorem NestedOptions.taken_single (name : String) (bag : Value) (options : NestedOptions) :
    options.taken [(name, bag)] = if options.carries name then some bag else none := by
  unfold taken carries
  cases options.criteria with
  | none => rfl
  | some criteria => simp [Fields.get?, eq_comm]

theorem NestedOptions.left_single (name : String) (bag : Value) (options : NestedOptions) :
    options.left [(name, bag)] = if options.carries name then [] else [(name, bag)] := by
  unfold left carries
  cases options.criteria with
  | none => rfl
  | some criteria => simp [Fields.swapRemove, eq_comm]

theorem NestedOptions.taken_nil (options : NestedOptions) : options.taken [] = none := by
  unfold taken
  cases options.criteria <;> rfl

theorem NestedOptions.left_of_taken (h : options.taken pool = none) : options.left pool = pool := by
  unfold taken at h
  unfold left
  cases hc : options.criteria with
  | none => rfl
  | some criteria =>
    rw [hc] at h
    exact Fields.swapRemove_of_absent h

def Projection.Spares (pool : Pool) : Projection → Prop :=
  Projection.Every (FieldLeaf.Misses pool) fun options => options.taken pool = none

theorem Projection.spares_nil (p : Projection) : p.Spares [] :=
  p.every_of (fun _ _ _ => rfl) NestedOptions.taken_nil

theorem misses_single {leaf : FieldLeaf}
    (h : ∀ k, leaf.criterion = some k → k.criterion ≠ name) : leaf.Misses [(name, bag)] := by
  intro k hk
  simp [Fields.get?, (h k hk).symm]

theorem Projection.spares_single (hscoped : p.Unscoped name) (hnone : p.carriers name = 0) :
    p.Spares [(name, bag)] := by
  induction p with
  | done => trivial
  | column path label rest ih => exact ih hscoped hnone
  | field path leaf rest ih => exact ⟨misses_single hscoped.1, ih hscoped.2 hnone⟩
  | list path options inner rest ihi ihr =>
    unfold carriers at hnone
    have hcarries : options.carries name = false := by
      by_contra hyes
      simp [hyes] at hnone
    refine ⟨?_, ihi hscoped.2.1 (by omega), ihr hscoped.2.2 (by omega)⟩
    change options.taken [(name, bag)] = none
    rw [NestedOptions.taken_single, hcarries]
    rfl

theorem Projection.Spares.misses (h : p.Spares pool) :
    ∀ l ∈ p.leaves, ∀ leaf, l.2 = .field leaf → leaf.Misses pool := by
  intro l hl leaf hleaf
  have hevery := p.every_leaves h l hl
  rw [hleaf] at hevery
  exact hevery

theorem deferred_places (base : String) (leaves : List (String × Leaf)) (pool : Pool) :
    (deferred base leaves pool).1.map NestedTask.place = leaves.filterMap (Leaf.place? base) := by
  induction leaves generalizing pool with
  | nil => rfl
  | cons l leaves ih =>
    obtain ⟨path, l⟩ := l
    cases l with
    | column label => exact ih pool
    | field leaf => exact ih pool
    | list options inner => exact congrArg _ (ih (options.left pool))

theorem leaf_of_deferred {base : String} {leaves : List (String × Leaf)} {t : NestedTask}
    (h : t ∈ (deferred base leaves pool).1) :
    ∃ l ∈ leaves, l.2 = .list t.options t.inner := by
  have hplace := List.mem_map_of_mem (f := NestedTask.place) h
  rw [deferred_places] at hplace
  obtain ⟨⟨path, l⟩, hl, hplace⟩ := List.mem_filterMap.1 hplace
  cases l with
  | list options inner =>
    simp only [Leaf.place?, NestedTask.place, Option.some.injEq, Prod.mk.injEq] at hplace
    obtain ⟨-, -, rfl, rfl⟩ := hplace
    exact ⟨_, hl, rfl⟩
  | column | field => cases hplace

theorem criteria_deferred_nil {base : String} {leaves : List (String × Leaf)} {t : NestedTask}
    (h : t ∈ (deferred base leaves []).1) : t.criteria = none := by
  induction leaves with
  | nil => cases h
  | cons l leaves ih =>
    obtain ⟨path, l⟩ := l
    cases l with
    | column label => exact ih h
    | field leaf => exact ih h
    | list options inner =>
      change t ∈ _ :: (deferred base leaves (options.left [])).1 at h
      rw [options.left_nil] at h
      rcases List.mem_cons.1 h with rfl | h
      · exact options.taken_nil
      · exact ih h

theorem Projection.takes_of_carriers (h : p.carriers name = 0) : p.takes name = false := by
  induction p with
  | done => rfl
  | column path label rest ih => exact ih h
  | field path leaf rest ih => exact ih h
  | list path options inner rest _ ih =>
    unfold carriers at h
    have hcarries : options.carries name = false := by
      by_contra hyes
      simp [hyes] at h
    exact Bool.or_eq_false_iff.2 ⟨hcarries, ih (by omega)⟩

theorem criteria_deferred {base : String} {t : NestedTask} (hone : p.carriers name ≤ 1)
    (h : t ∈ (deferred base p.leaves [(name, bag)]).1) :
    t.criteria = if t.options.carries name then some bag else none := by
  induction p with
  | done => cases h
  | column path label rest ih => exact ih hone h
  | field path leaf rest ih => exact ih hone h
  | list path options inner rest _ ih =>
    unfold Projection.carriers at hone
    change t ∈ _ :: (deferred base rest.leaves (options.left [(name, bag)])).1 at h
    rw [NestedOptions.left_single] at h
    rcases List.mem_cons.1 h with rfl | h
    · exact options.taken_single name bag
    · cases hcarries : options.carries name with
      | false =>
        rw [hcarries] at h hone
        exact ih (by omega) h
      | true =>
        rw [hcarries] at h hone
        obtain ⟨l, hl, hlist⟩ := leaf_of_deferred h
        rw [if_pos rfl] at hone
        have hzero : rest.carriers name = 0 := by omega
        have hrest := List.any_eq_false.1 (rest.takes_of_carriers hzero) l hl
        rw [hlist, Leaf.takes, Bool.not_eq_true] at hrest
        rw [hrest]
        exact criteria_deferred_nil h

theorem exists_carrier (base : String) (pool : Pool) (h : p.takes name = true) :
    ∃ t ∈ (deferred base p.leaves pool).1, t.options.carries name = true := by
  obtain ⟨⟨path, l⟩, hl, htakes⟩ := List.any_eq_true.1 h
  cases l with
  | list options inner =>
    have hplace : (Path.under base path, base, options, inner)
        ∈ (deferred base p.leaves pool).1.map NestedTask.place := by
      rw [deferred_places]
      exact List.mem_filterMap.2 ⟨_, hl, rfl⟩
    obtain ⟨t, ht, heq⟩ := List.mem_map.1 hplace
    have hoptions : t.options = options := congrArg (fun place => place.2.2.1) heq
    exact ⟨t, ht, hoptions ▸ htakes⟩
  | column | field => cases htakes

theorem deferred_left (base : String) (bag : Value) {leaves : List (String × Leaf)}
    (h : (leaves.any fun l => l.2.takes name) = false) :
    (deferred base leaves [(name, bag)]).2 = [(name, bag)] := by
  induction leaves with
  | nil => rfl
  | cons l leaves ih =>
    obtain ⟨hl, hrest⟩ := Bool.or_eq_false_iff.1 h
    obtain ⟨path, l⟩ := l
    cases l with
    | column label => exact ih hrest
    | field leaf => exact ih hrest
    | list options inner =>
      have hcarries : options.carries name = false := hl
      change (deferred base leaves (options.left [(name, bag)])).2 = _
      rw [NestedOptions.left_single, hcarries]
      exact ih hrest

theorem deferred_nil (base : String) (leaves : List (String × Leaf)) :
    (deferred base leaves []).2 = [] := by
  induction leaves with
  | nil => rfl
  | cons l leaves ih =>
    obtain ⟨path, l⟩ := l
    cases l with
    | column label => exact ih
    | field leaf => exact ih
    | list options inner =>
      change (deferred base leaves (options.left [])).2 = _
      rw [options.left_nil]
      exact ih

end

namespace Compilation

variable {s : Setting} {base path : String} {mode : JoinMode} {leaf : FieldLeaf}
  {l : String × Leaf} {p : Projection} {grouped b : Bool} {pool : Pool}
  {c c' : Compilation}

def plainField (s : Setting) (path : String) (mode : JoinMode) (leaf : FieldLeaf) :
    Steps Compilation Bool := do
  let r ← resolveScoped s path (fieldMode leaf mode) none
  selectResolved s leaf r.1
  return leaf.function.any ColumnFunction.isAggregate

theorem blind_plainField (path : String) (mode : JoinMode) (leaf : FieldLeaf) :
    Blind (plainField s path mode leaf) := by
  apply blind_bind (blind_resolveScoped path _ none)
  intro r
  apply blind_bind (blind_selectResolved leaf r.1)
  exact fun _ => blind_pure _

theorem selectField_missed (h : leaf.Misses c.pool) :
    selectField s path base mode leaf c = plainField s path mode leaf c := by
  have hwaiting : scopedPredicate? c.pool base leaf = none := by
    unfold scopedPredicate?
    cases hk : leaf.criterion with
    | none => rfl
    | some k =>
      change (c.pool.get? k.criterion >>= _) = none
      rw [h k hk]
      rfl
  unfold selectField plainField
  rw [bind_of_ok (get_apply c), hwaiting]
  obtain ⟨x, t, hwalked, heq⟩ := resolveScoped_walked s path (fieldMode leaf mode) none c
  rw [hwalked.trail.unscoped rfl] at heq
  change (resolveScoped s path (fieldMode leaf mode) none >>= _) c = _
  rw [bind_apply, bind_apply, heq]
  cases x <;> rfl

theorem leaf_missed (hc : c.pool = []) (hl : ∀ leaf, l.2 = .field leaf → leaf.Misses pool)
    (h : Compilation.leaf s base mode l c = (.ok b, c')) (nested : List NestedTask) (uses : Nat) :
    c'.pool = [] ∧ Compilation.leaf s base mode l (c.holding pool nested uses)
      = (.ok b, c'.holding (deferred base [l] pool).2 (nested ++ (deferred base [l] pool).1)
          uses) := by
  obtain ⟨path, l⟩ := l
  cases l with
  | column label =>
    have hblind : Blind (selectColumn s (Path.under base path) mode label) :=
      blind_selectColumn _ mode label
    refine ⟨(hblind.holds h).1.trans hc, ?_⟩
    rw [deferred, deferred, List.append_nil]
    exact hblind.apply h pool nested uses
  | field leaf =>
    have hempty : leaf.Misses c.pool := by
      intro k _
      rw [hc]
      rfl
    have hblind : Blind (plainField s (Path.under base path) mode leaf) :=
      blind_plainField _ mode leaf
    have hplain : plainField s (Path.under base path) mode leaf c = (.ok b, c') :=
      (selectField_missed hempty).symm.trans h
    refine ⟨(hblind.holds hplain).1.trans hc, ?_⟩
    rw [deferred, deferred, List.append_nil]
    exact (selectField_missed (hl leaf rfl)).trans (hblind.apply hplain pool nested uses)
  | list options inner =>
    unfold Compilation.leaf at h ⊢
    dsimp only at h ⊢
    rw [bind_of_ok (deferList_apply _ base options inner _)] at h ⊢
    cases h
    refine ⟨?_, rfl⟩
    dsimp only
    rw [hc, options.left_nil]

theorem mapM_missed {ls : List (String × Leaf)} {bs : List Bool} (hc : c.pool = [])
    (hls : ∀ l ∈ ls, ∀ leaf, l.2 = .field leaf → leaf.Misses pool)
    (h : ls.mapM (Compilation.leaf s base mode) c = (.ok bs, c')) (nested : List NestedTask)
    (uses : Nat) :
    c'.pool = [] ∧ ls.mapM (Compilation.leaf s base mode) (c.holding pool nested uses)
      = (.ok bs, c'.holding (deferred base ls pool).2 (nested ++ (deferred base ls pool).1)
          uses) := by
  induction ls generalizing c bs pool nested with
  | nil =>
    cases h
    refine ⟨hc, ?_⟩
    rw [deferred, List.append_nil]
    rfl
  | cons l ls ih =>
    obtain ⟨b, u, bs', hb, hbs, rfl⟩ := mapM_cons_ok h
    obtain ⟨hu, hfirst⟩ := leaf_missed hc (hls l List.mem_cons_self) hb nested uses
    -- a list takes from the pool and adds nothing to it, so later leaves miss theirs still
    have hrest : ∀ l' ∈ ls, ∀ leaf, l'.2 = .field leaf →
        leaf.Misses (deferred base [l] pool).2 := by
      intro l' hl' leaf hleaf
      have hmisses := hls l' (List.mem_cons_of_mem l hl') leaf hleaf
      obtain ⟨path, l⟩ := l
      cases l with
      | column | field => exact hmisses
      | list options => exact hmisses.left options
    obtain ⟨hv, hthen⟩ := ih hu hrest hbs (nested ++ (deferred base [l] pool).1)
    refine ⟨hv, ?_⟩
    rw [List.mapM_cons, bind_of_ok hfirst, bind_of_ok hthen, deferred_cons base l ls,
      List.append_assoc]
    rfl

theorem fields_missed (hc : c.pool = [])
    (hp : ∀ l ∈ p.leaves, ∀ leaf, l.2 = .field leaf → leaf.Misses pool)
    (h : fields s p base grouped mode c = (.ok b, c')) (nested : List NestedTask) (uses : Nat) :
    c'.pool = [] ∧ fields s p base grouped mode (c.holding pool nested uses)
      = (.ok b, c'.holding (deferred base p.leaves pool).2
          (nested ++ (deferred base p.leaves pool).1) uses) := by
  unfold fields at h ⊢
  obtain ⟨bs, u, hleaves, h⟩ := bind_ok h
  obtain ⟨_, v, hkey, h⟩ := bind_ok h
  obtain ⟨_, w, hgroup, h⟩ := bind_ok h
  cases h
  have hblind : Blind (selectKey s base mode) := blind_selectKey base mode
  have hblind' : Blind (groupPrimitives (grouped || bs.any id)) := blind_groupPrimitives _
  obtain ⟨hu, hmapped⟩ := mapM_missed hc hp hleaves nested uses
  refine ⟨((hblind'.holds hgroup).1.trans (hblind.holds hkey).1).trans hu, ?_⟩
  rw [bind_of_ok hmapped, bind_of_ok (hblind.apply hkey _ _ _),
    bind_of_ok (hblind'.apply hgroup _ _ _)]
  rfl

theorem nested_fields (hc : c.pool = []) (h : fields s p base grouped mode c = (.ok b, c')) :
    c'.nested = c.nested ++ (deferred base p.leaves []).1 := by
  have hempty : ∀ l ∈ p.leaves, ∀ leaf, l.2 = .field leaf → leaf.Misses [] :=
    fun _ _ _ _ _ _ => rfl
  have hsame : c.holding [] c.nested c.uses = c := by
    unfold holding
    rw [← hc]
  obtain ⟨-, hagain⟩ := fields_missed hc hempty h c.nested c.uses
  rw [hsame, h] at hagain
  exact congrArg (fun outcome => outcome.2.nested) hagain

end Compilation

end RecordQuery
