import RecordQuery.Proofs.Criteria.Depth

namespace RecordQuery

open Steps

/-- One pool holds what the other does, and null bags besides, under names that are shed. -/
structure Pool.Sheds (shed : String → Prop) (a b : Pool) : Prop where
  distinct : a.keys.Nodup
  perm : ∃ nulls : Pool, a.Perm (nulls ++ b) ∧ ∀ entry ∈ nulls, entry.2 = .null ∧ shed entry.1

theorem Pool.mem_left {a nulls b : Pool} (h : a.Perm (nulls ++ b)) {name : String} {bag : Value}
    (ha : a.get? name = some bag) (hb : b.get? name = none) : (name, bag) ∈ nulls := by
  rcases List.mem_append.1 (h.mem_iff.1 (Fields.mem_of_get? ha)) with hnull | hmem
  · exact hnull
  · obtain ⟨bag', hb'⟩ := Fields.exists_get?_of_mem hmem
    exact absurd (hb.symm.trans hb') nofun

namespace Pool.Sheds

variable {shed : String → Prop} {a b : Pool}

theorem get?_of_some (h : a.Sheds shed b) {name : String} {bag : Value}
    (hb : b.get? name = some bag) : a.get? name = some bag := by
  obtain ⟨nulls, hperm, -⟩ := h.perm
  exact Fields.get?_of_mem h.distinct
    (hperm.mem_iff.2 (List.mem_append_right nulls (Fields.mem_of_get? hb)))

theorem get? (h : a.Sheds shed b) (name : String) :
    a.get? name = b.get? name ∨
      a.get? name = some .null ∧ b.get? name = none ∧ shed name := by
  cases hb : Fields.get? name b with
  | some bag => exact .inl (h.get?_of_some hb)
  | none =>
    cases ha : Fields.get? name a with
    | none => exact .inl rfl
    | some bag =>
      obtain ⟨nulls, hperm, hnulls⟩ := h.perm
      obtain ⟨hbag, hshed⟩ := hnulls _ (Pool.mem_left hperm ha hb)
      dsimp only at hbag
      exact .inr ⟨by rw [hbag], rfl, hshed⟩

theorem remove (h : a.Sheds shed b) (name : String) :
    Sheds shed (a.swapRemove name) (b.swapRemove name) := by
  obtain ⟨nulls, hperm, hnulls⟩ := h.perm
  cases ha : Fields.get? name a with
  | none =>
    have hb : Fields.get? name b = none := by
      cases hb : Fields.get? name b with
      | none => rfl
      | some bag =>
        rw [h.get?_of_some hb] at ha
        cases ha
    rw [Fields.swapRemove_of_absent ha, Fields.swapRemove_of_absent hb]
    exact h
  | some bag =>
    have hleft := Fields.perm_swapRemove ha
    have hdistinct : (Fields.keys (a.swapRemove name)).Nodup :=
      ((hleft.map Prod.fst).nodup h.distinct).of_cons
    -- what is taken from both was no null; from one alone it was among the nulls
    cases hb : Fields.get? name b with
    | some bag' =>
      have hsame := h.get?_of_some hb
      rw [ha] at hsame
      cases hsame
      refine ⟨hdistinct, nulls, List.Perm.cons_inv (a := (name, bag)) ?_, hnulls⟩
      exact hleft.symm.trans (hperm.trans
        (((Fields.perm_swapRemove hb).append_left nulls).trans List.perm_middle))
    | none =>
      obtain ⟨before, after, rfl⟩ := List.append_of_mem (Pool.mem_left hperm ha hb)
      rw [Fields.swapRemove_of_absent hb]
      refine ⟨hdistinct, before ++ after, List.Perm.cons_inv (a := (name, bag)) ?_, ?_⟩
      · refine hleft.symm.trans (hperm.trans ?_)
        rw [List.append_assoc, List.append_assoc]
        exact List.perm_middle
      · exact fun entry hentry => hnulls entry (by
          rcases List.mem_append.1 hentry with hin | hin
          · exact List.mem_append_left _ hin
          · exact List.mem_append_right _ (List.mem_cons_of_mem _ hin))

theorem asking (h : a.Sheds shed b) : (Provider.asking a).Perm (Provider.asking b) := by
  obtain ⟨nulls, hperm, hnulls⟩ := h.perm
  have hsilent : Provider.asking nulls = [] := by
    unfold Provider.asking
    rw [List.filter_eq_nil_iff]
    intro entry hentry
    rw [(hnulls entry hentry).1]
    exact Bool.false_ne_true
  have hasking := hperm.filter fun entry => !entry.2.isNull
  rw [List.filter_append] at hasking
  unfold Provider.asking at hsilent ⊢
  rwa [hsilent, List.nil_append] at hasking

theorem left (h : a.Sheds shed b) (options : NestedOptions) :
    Sheds shed (options.left a) (options.left b) := by
  unfold NestedOptions.left
  cases options.criteria with
  | none => exact h
  | some k => exact h.remove k.name

theorem leftBy (h : a.Sheds shed b) (leaf : FieldLeaf) (applied : Bool) :
    Sheds shed (leaf.left applied a) (leaf.left applied b) := by
  unfold FieldLeaf.left
  split
  · exact h.remove _
  · exact h

theorem scopedPredicate? (h : a.Sheds shed b) (base : String) (leaf : FieldLeaf) :
    Compilation.scopedPredicate? a base leaf = Compilation.scopedPredicate? b base leaf := by
  unfold Compilation.scopedPredicate?
  cases leaf.criterion with
  | none => rfl
  | some k =>
    rcases h.get? k.criterion with hsame | ⟨ha, hb, -⟩
    · simp only [Option.bind_eq_bind, Option.bind_some, hsame]
    · simp [ha, hb, Value.field?, Value.fields?]

end Pool.Sheds

/-- The same list, put aside with one pool and with the other. It took the same criteria of both, or
null and nothing. -/
structure NestedTask.Sheds (shed : String → Prop) (t u : NestedTask) : Prop where
  same : u = { t with criteria := u.criteria, pool := u.pool }
  criteria : t.criteria = u.criteria ∨
    t.criteria = some .null ∧ u.criteria = none ∧ ∃ k ∈ t.options.criteria, shed k.name
  pool : t.pool.Sheds shed u.pool

def NestedTask.Every (O : NestedOptions → Prop) (t : NestedTask) : Prop :=
  O t.options ∧ t.inner.Every (fun _ => True) O

namespace Compilation

structure Sheds (shed : String → Prop) (O : NestedOptions → Prop) (c d : Compilation) : Prop where
  same : d = c.holding d.pool d.nested c.uses
  pool : c.pool.Sheds shed d.pool
  nested : List.Forall₂ (fun t u => t.Sheds shed u ∧ t.Every O) c.nested d.nested

variable {α : Type} {shed : String → Prop} {O : NestedOptions → Prop} {s : Setting}
  {base path : String} {mode : JoinMode} {p : Projection} {grouped : Bool} {t u : NestedTask}

theorem Sheds.query {c d : Compilation} (h : Sheds shed O c d) : d.query = c.query := by
  rw [h.same]
  rfl

theorem Sheds.uses {c d : Compilation} (h : Sheds shed O c d) : d.uses = c.uses := by
  rw [h.same]
  rfl

theorem sheds_start {a b : Pool} (h : a.Sheds shed b) (i : Nat) :
    Sheds shed O (start s a i) (start s b i) := ⟨rfl, h, .nil⟩

theorem Blind.sheds {m : Steps Compilation α} (h : Blind m) : Parallel (Sheds shed O) m m Eq := by
  intro c d hcd
  have hm : m c = ((m c).1, (m c).2) := rfl
  obtain ⟨hpool, hnested, huses⟩ := h.holds hm
  have hd : m d = ((m c).1, (m c).2.holding d.pool d.nested c.uses) := by
    rw [← h c d.pool d.nested c.uses, ← hcd.same]
  rw [hd]
  refine ⟨⟨?_, ?_, ?_⟩, both_refl (fun _ => rfl) _⟩
  · rw [huses]
    rfl
  · rw [hpool]
    exact hcd.pool
  · rw [hnested]
    exact hcd.nested

theorem sheds_takeScoped (leaf : FieldLeaf) (applied : Bool) :
    Parallel (Sheds shed O) (takeScoped leaf applied) (takeScoped leaf applied)
      (fun _ _ => True) := by
  intro c d h
  obtain ⟨v, hv⟩ := takeScoped_apply leaf applied c
  obtain ⟨w, hw⟩ := takeScoped_apply leaf applied d
  rw [hv, hw]
  refine ⟨⟨?_, h.pool.leftBy leaf applied, h.nested⟩, trivial⟩
  rw [h.same]
  rfl

theorem sheds_selectField (path base : String) (mode : JoinMode) (leaf : FieldLeaf) :
    Parallel (Sheds shed O) (selectField s path base mode leaf)
      (selectField s path base mode leaf) Eq := by
  apply parallel_bind parallel_get
  intro c d h
  rw [h.pool.scopedPredicate? base leaf]
  apply parallel_bind (blind_resolveScoped path _ _).sheds
  rintro ⟨r, applied⟩ _ rfl
  apply parallel_bind (sheds_takeScoped leaf applied)
  intro _ _ _
  apply parallel_bind (blind_selectResolved leaf r).sheds
  intro _ _ _
  exact parallel_pure rfl

theorem sheds_deferList (path parent : String) {options : NestedOptions} {inner : Projection}
    (ho : O options) (hi : inner.Every (fun _ => True) O) :
    Parallel (Sheds shed O) (deferList path parent options inner)
      (deferList path parent options inner) (fun _ _ => True) := by
  intro c d h
  rw [deferList_apply, deferList_apply]
  have htaken : options.taken c.pool = options.taken d.pool ∨
      options.taken c.pool = some .null ∧ options.taken d.pool = none ∧
        ∃ k ∈ options.criteria, shed k.name := by
    unfold NestedOptions.taken
    cases options.criteria with
    | none => exact .inl rfl
    | some k => exact (h.pool.get? k.name).imp_right fun ⟨hc, hd, hk⟩ => ⟨hc, hd, k, rfl, hk⟩
  refine ⟨⟨?_, h.pool.left options, ?_⟩, trivial⟩
  · rw [h.same]
    rfl
  · exact List.rel_append h.nested
      (.cons ⟨⟨rfl, htaken, h.pool.left options⟩, ho, hi⟩ .nil)

theorem sheds_leaf (base : String) (mode : JoinMode) {l : String × Leaf}
    (hl : l.2.Every (fun _ => True) O) :
    Parallel (Sheds shed O) (leaf s base mode l) (leaf s base mode l) Eq := by
  obtain ⟨path, l⟩ := l
  cases l with
  | column label => exact (blind_selectColumn _ mode label).sheds
  | field leaf => exact sheds_selectField _ base mode leaf
  | list options inner =>
    apply parallel_bind (sheds_deferList _ base hl.1 hl.2)
    intro _ _ _
    exact parallel_pure rfl

theorem sheds_fields (hp : p.Every (fun _ => True) O) (base : String) (grouped : Bool)
    (mode : JoinMode) :
    Parallel (Sheds shed O) (fields s p base grouped mode) (fields s p base grouped mode) Eq := by
  have hleaves : Parallel (Sheds shed O) (p.leaves.mapM (leaf s base mode))
      (p.leaves.mapM (leaf s base mode)) (List.Forall₂ Eq) := by
    apply parallel_mapM (P := fun l k => l = k ∧ l.2.Every (fun _ => True) O)
    · rw [List.forall₂_same]
      exact fun l hl => ⟨rfl, p.every_leaves hp l hl⟩
    · rintro l _ ⟨rfl, hl⟩
      exact sheds_leaf base mode hl
  apply parallel_bind hleaves
  intro bs cs hbs
  rw [List.forall₂_eq_eq_eq] at hbs
  subst hbs
  apply parallel_bind (blind_selectKey base mode).sheds
  intro _ _ _
  apply parallel_bind (blind_groupPrimitives _).sheds
  intro _ _ _
  exact parallel_pure rfl

theorem blind_setMiddlewares (p : Projection) : Blind (setMiddlewares p) :=
  blind_modify fun _ _ _ _ => rfl

theorem sheds_projection (hp : p.Every (fun _ => True) O) :
    Parallel (Sheds shed O) (projection s p) (projection s p) Eq := by
  apply parallel_bind (blind_setMiddlewares p).sheds
  intro _ _ _
  exact sheds_fields hp "" false .left

theorem blind_placeAll (connective : Connective) (found : List (Predicate × Bool)) :
    Blind (placeAll s connective found) := by
  have hplace : ∀ b d, Blind (place s b d) := by
    intro b d
    apply blind_modify
    intro c pool nested uses
    unfold holding
    dsimp only
    split <;> rfl
  apply blind_bind (blind_ite (fun _ => blind_pure _) fun _ => hplace _ _)
  exact fun _ => blind_forM fun _ => blind_onQuery _

theorem sheds_criterion (bag : Value) (single : Bool) (base : String) (item : Criterion) :
    Parallel (Sheds shed O) (criterion s bag single base item) (criterion s bag single base item)
      Eq := by
  apply parallel_bind (Q := Eq)
  · intro c d h
    have hread : ∀ e : Compilation, criterionValue item bag single e
        = (.ok (item.value? bag single e.uses).1,
          { e with uses := (item.value? bag single e.uses).2 }) := fun _ => rfl
    rw [hread, hread, h.uses]
    refine ⟨⟨?_, h.pool, h.nested⟩, rfl⟩
    rw [h.same]
    rfl
  · rintro value _ rfl
    apply parallel_ite Iff.rfl
    · exact fun _ => parallel_pure rfl
    · intro _
      apply parallel_bind (blind_resolve _ _).sheds
      rintro r _ rfl
      apply parallel_bind (parallel_lift (both_refl (fun _ => rfl) _))
      rintro predicate _ rfl
      exact parallel_pure rfl

theorem sheds_criteria (spec : CriteriaSpec) (bag : Value) (base : String) :
    Parallel (Sheds shed O) (criteria s spec bag base) (criteria s spec bag base) Eq := by
  apply parallel_bind (Q := List.Forall₂ Eq)
  · apply parallel_mapM (P := Eq)
    · rw [List.forall₂_eq_eq_eq]
    · rintro item _ rfl
      exact sheds_criterion bag _ base item
  · intro found dnuof h
    rw [List.forall₂_eq_eq_eq] at h
    subst h
    exact (blind_placeAll _ _).sheds

theorem sheds_ungroupedCriteria (spec : CriteriaSpec) (bag : Value) (base : String) :
    Parallel (Sheds shed O) (ungroupedCriteria s spec bag base) (ungroupedCriteria s spec bag base)
      Eq := by
  have hgrouped : ∀ b : Bool, Blind (modify fun c => { c with grouped := b }) :=
    fun b => blind_modify fun _ _ _ _ => rfl
  apply parallel_bind parallel_get
  intro c d h
  have hsame : d.grouped = c.grouped := by rw [h.same]; rfl
  rw [hsame]
  apply parallel_bind (hgrouped false).sheds
  intro _ _ _
  apply parallel_bind (sheds_criteria spec bag base)
  intro _ _ _
  exact (hgrouped _).sheds

def gatherNested (s : Setting) (task : NestedTask) (parentId : Value) : Steps Compilation Unit := do
  let _ ← resolve s (Path.under task.path Path.idSegment) .forceInner
  setMiddlewares task.inner
  let _ ← fields s task.inner task.path true (nestedMode task.options)
  scopeNested s task parentId

theorem nestedSteps_eq (s : Setting) (task : NestedTask) (parentId : Value) :
    nestedSteps s task parentId
      = gatherNested s task parentId >>= fun _ => nestedCriteria s task := by
  simp only [nestedSteps, gatherNested, applyNested_eq, bind_assoc]

theorem sheds_gatherNested (h : t.Sheds shed u) (ht : t.Every O) (parentId : Value) :
    Parallel (Sheds shed O) (gatherNested s t parentId) (gatherNested s u parentId)
      (fun _ _ => True) := by
  have hsame : gatherNested s u parentId = gatherNested s t parentId := by
    rw [h.same]
    rfl
  rw [hsame]
  apply parallel_bind (blind_resolve _ _).sheds
  intro _ _ _
  apply parallel_bind (blind_setMiddlewares t.inner).sheds
  intro _ _ _
  apply parallel_bind (sheds_fields ht.2 _ _ _)
  intro _ _ _
  exact (blind_scopeNested t parentId).sheds.weaken fun _ _ _ => trivial

end Compilation

end RecordQuery
