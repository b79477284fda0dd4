import RecordQuery.Compilation
import RecordQuery.Proofs.Steps

namespace RecordQuery.Compilation

open Steps

variable {α β γ : Type} {s : Setting} {m : Steps Compilation α} {c c' : Compilation} {pool : Pool}
  {nested : List NestedTask} {uses : Nat} {x : Except Error α}

def holding (c : Compilation) (pool : Pool) (nested : List NestedTask) (uses : Nat) :
    Compilation :=
  { c with pool, nested, uses }

/-- The steps do the same whatever the compilation holds, and do not touch it. -/
def Blind (m : Steps Compilation α) : Prop :=
  ∀ c pool nested uses,
    m (c.holding pool nested uses) = ((m c).1, (m c).2.holding pool nested uses)

theorem Blind.apply (h : Blind m) (hm : m c = (x, c')) (pool : Pool) (nested : List NestedTask)
    (uses : Nat) : m (c.holding pool nested uses) = (x, c'.holding pool nested uses) := by
  rw [h c pool nested uses, hm]

theorem Blind.holds (h : Blind m) (hm : m c = (x, c')) :
    c'.pool = c.pool ∧ c'.nested = c.nested ∧ c'.uses = c.uses := by
  have hself : m c = (x, c'.holding c.pool c.nested c.uses) := h.apply hm c.pool c.nested c.uses
  have hstate : c' = c'.holding c.pool c.nested c.uses := congrArg Prod.snd (hm.symm.trans hself)
  rw [hstate]
  exact ⟨rfl, rfl, rfl⟩

theorem blind_pure (a : α) : Blind (pure a) := fun _ _ _ _ => rfl

theorem blind_throw (e : Error) : Blind (throw e : Steps Compilation α) := fun _ _ _ _ => rfl

theorem blind_lift (x : Except Error α) : Blind (liftM x) := fun _ _ _ _ => rfl

theorem blind_bind {f : α → Steps Compilation β} (hm : Blind m) (hf : ∀ a, Blind (f a)) :
    Blind (m >>= f) := by
  intro c pool nested uses
  rw [bind_apply, bind_apply, hm c pool nested uses]
  rcases m c with ⟨x, c'⟩
  cases x with
  | error e => rfl
  | ok a => exact hf a c' pool nested uses

theorem blind_map {f : α → β} (hm : Blind m) : Blind (f <$> m) := by
  rw [← bind_pure_comp]
  exact blind_bind hm fun _ => blind_pure _

theorem blind_modify {f : Compilation → Compilation}
    (hf : ∀ c pool nested uses,
      f (c.holding pool nested uses) = (f c).holding pool nested uses) :
    Blind (modify f) := by
  intro c pool nested uses
  rw [modify_apply, modify_apply, hf c pool nested uses]

theorem blind_ite {p : Prop} [Decidable p] {n : Steps Compilation α} (hm : p → Blind m)
    (hn : ¬ p → Blind n) : Blind (if p then m else n) := by
  by_cases h : p
  · rw [if_pos h]
    exact hm h
  · rw [if_neg h]
    exact hn h

theorem blind_forM {xs : List γ} {f : γ → Steps Compilation PUnit} (hf : ∀ a, Blind (f a)) :
    Blind (xs.forM f) := by
  induction xs with
  | nil => exact blind_pure PUnit.unit
  | cons a xs ih => exact blind_bind (hf a) fun _ => ih

theorem blind_onQuery (f : QueryPair → QueryPair) : Blind (onQuery f) :=
  blind_modify fun _ _ _ _ => rfl

theorem blind_addHandlers (handlers : List Handler) : Blind (addHandlers handlers) :=
  blind_modify fun _ _ _ _ => rfl

theorem blind_addPrimitive (column : String) : Blind (addPrimitive column) := by
  apply blind_modify
  intro c pool nested uses
  unfold holding
  dsimp only
  split <;> rfl

theorem blind_groupPrimitives (grouped : Bool) : Blind (groupPrimitives grouped) := by
  apply blind_modify
  intro c pool nested uses
  cases grouped <;> rfl

theorem blind_dependency (entity : String) : Blind (dependency entity) := by
  intro c pool nested uses
  unfold dependency
  rw [bind_of_ok (get_apply _), bind_of_ok (get_apply c)]
  cases hi : c.dependencies.idxOf? entity with
  | some i => simp only [holding, hi]; rfl
  | none => simp only [holding, hi]; rfl

theorem blind_resolveScoped (path : String) (mode : JoinMode) (waiting : Option ScopedPredicate) :
    Blind (resolveScoped s path mode waiting) := by
  intro c pool nested uses
  unfold resolveScoped holding
  rcases Planning.resolve s.schema s.root path mode ⟨c.plan, c.query, waiting⟩ with ⟨x, t⟩
  rfl

theorem blind_resolve (path : String) (mode : JoinMode) : Blind (resolve s path mode) :=
  blind_bind (blind_resolveScoped path mode none) fun _ => blind_pure _

theorem blind_selectPlain (column label : String) (type : Option SqlType) :
    Blind (selectPlain column label type) := by
  apply blind_bind (blind_onQuery _)
  intro _
  apply blind_bind (blind_addPrimitive column)
  exact fun _ => blind_addHandlers _

theorem blind_selectFunction (label : String) (r : Resolved) (f : ColumnFunction) :
    Blind (selectFunction s label r f) := by
  apply blind_bind (blind_onQuery _)
  intro _
  apply blind_bind (blind_ite (fun _ => blind_pure _) fun _ => blind_addPrimitive r.column)
  exact fun _ => blind_addHandlers _

theorem blind_selectResolved (leaf : FieldLeaf) (r : Resolved) :
    Blind (selectResolved s leaf r) := by
  unfold selectResolved
  cases leaf.function with
  | none => exact blind_selectPlain _ _ _
  | some f => exact blind_selectFunction _ r f

theorem blind_selectSiblings (path label : String) (r : Resolved) :
    Blind (selectSiblings s path label r) := by
  apply blind_ite
  · intro _
    apply blind_bind (blind_dependency r.entity)
    intro position
    apply blind_bind (blind_onQuery _)
    intro _
    apply blind_bind (blind_addHandlers _)
    intro _
    exact blind_ite (fun _ => blind_addHandlers _) fun _ => blind_pure _
  · exact fun _ => blind_throw _

theorem blind_selectColumn (path : String) (mode : JoinMode) (label : String) :
    Blind (selectColumn s path mode label) := by
  apply blind_bind (blind_resolve path mode)
  intro r
  apply blind_bind
    (blind_ite (fun _ => blind_selectSiblings path label r) fun _ => blind_selectPlain _ _ _)
  exact fun _ => blind_pure _

theorem blind_selectKey (base : String) (mode : JoinMode) : Blind (selectKey s base mode) := by
  apply blind_bind (blind_resolve _ mode)
  intro key
  apply blind_bind (blind_onQuery _)
  exact fun _ => blind_addPrimitive key.column

theorem blind_sortTerm (base : String) (t : SortField) : Blind (sortTerm s base t) := by
  apply blind_bind (blind_ite (fun _ => blind_pure _) fun _ => blind_map (blind_resolve _ .left))
  exact fun _ => blind_onQuery _

theorem blind_sort (base : String) (order : SortSpec) : Blind (sort s base order) := by
  cases order with
  | random => exact blind_onQuery (·.order ⟨s.dialect.random, none⟩)
  | fields terms => exact blind_forM fun t => blind_sortTerm base t

theorem blind_nestedSort (task : NestedTask) : Blind (nestedSort s task) := by
  unfold nestedSort
  cases task.options.sort with
  | none => exact blind_pure _
  | some order => exact blind_sort task.path order

end RecordQuery.Compilation
