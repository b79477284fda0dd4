import RecordQuery.Proofs.Framing
import RecordQuery.Proofs.Selection.Picks

namespace RecordQuery

open Steps

def NestedOptions.taken (options : NestedOptions) (pool : Pool) : Option Value :=
  options.criteria.bind fun criteria => pool.get? criteria.name

def NestedOptions.left (options : NestedOptions) (pool : Pool) : Pool :=
  match options.criteria with
  | some criteria => pool.swapRemove criteria.name
  | none => pool

def FieldLeaf.left (leaf : FieldLeaf) (applied : Bool) (pool : Pool) : Pool :=
  match applied, leaf.criterion with
  | true, some k => pool.swapRemove k.criterion
  | _, _ => pool

def Leaf.place? (base : String) :
    String × Leaf → Option (String × String × NestedOptions × Projection)
  | (path, .list options inner) => some (Path.under base path, base, options, inner)
  | _ => none

def NestedTask.place (t : NestedTask) : String × String × NestedOptions × Projection :=
  (t.path, t.parent, t.options, t.inner)

namespace Compilation

variable {s : Setting} {path base : String} {mode : JoinMode} {c c' : Compilation}

theorem deferList_apply (path parent : String) (options : NestedOptions) (inner : Projection)
    (c : Compilation) :
    deferList path parent options inner c = (.ok ⟨⟩, { c with
      pool := options.left c.pool
      nested := c.nested ++
        [⟨path, parent, options, inner, options.taken c.pool, options.left c.pool⟩] }) := by
  unfold deferList takeCriteria NestedOptions.taken NestedOptions.left
  cases options.criteria <;> rfl

theorem takeScoped_apply (leaf : FieldLeaf) (applied : Bool) (c : Compilation) :
    ∃ v, takeScoped leaf applied c = (.ok v, { c with pool := leaf.left applied c.pool }) := by
  unfold takeScoped FieldLeaf.left
  cases applied with
  | false => exact ⟨none, rfl⟩
  | true =>
    cases leaf.criterion with
    | none => exact ⟨none, rfl⟩
    | some k => exact ⟨c.pool.get? k.criterion, rfl⟩

/-- The mode of a field: an INNER leaf forces INNER joins. -/
def fieldMode (leaf : FieldLeaf) (mode : JoinMode) : JoinMode :=
  if leaf.join = .inner then .forceInner else mode

theorem selectField_ok {leaf : FieldLeaf} {b : Bool}
    (h : selectField s path base mode leaf c = (.ok b, c')) :
    ∃ r applied u, resolveScoped s path (fieldMode leaf mode) (scopedPredicate? c.pool base leaf) c
        = (.ok (r, applied), u) ∧
      c'.plan = u.plan ∧ c'.query.source = u.query.source ∧
      c'.pool = leaf.left applied c.pool ∧ c'.nested = c.nested ∧ c'.uses = c.uses := by
  unfold selectField at h
  rw [bind_of_ok (get_apply c)] at h
  obtain ⟨⟨r, applied⟩, u, hu, h⟩ := bind_ok h
  dsimp only at h
  obtain ⟨v, hv⟩ := takeScoped_apply leaf applied u
  rw [bind_of_ok hv] at h
  obtain ⟨_, w, hw, h⟩ := bind_ok h
  cases h
  obtain ⟨hpool, hnested, huses⟩ := (blind_resolveScoped _ _ _).holds hu
  obtain ⟨hpool', hnested', huses'⟩ := (blind_selectResolved leaf r).holds hw
  have hpicked := picked_selectResolved hw
  refine ⟨r, applied, u, hu, hpicked.plan, ?_, ?_, hnested'.trans hnested, huses'.trans huses⟩
  · rw [hpicked.query]
    rfl
  · rw [hpool', ← hpool]

theorem place_leaf {l : String × Leaf} {b : Bool} (h : leaf s base mode l c = (.ok b, c')) :
    c'.nested.map NestedTask.place
      = c.nested.map NestedTask.place ++ (Leaf.place? base l).toList := by
  obtain ⟨path, l⟩ := l
  cases l with
  | column label =>
    obtain ⟨-, hnested, -⟩ := (blind_selectColumn _ mode label).holds h
    simp [Leaf.place?, hnested]
  | field leaf =>
    obtain ⟨_, _, _, -, -, -, -, hnested, -⟩ := selectField_ok h
    simp [Leaf.place?, hnested]
  | list options inner =>
    unfold Compilation.leaf at h
    dsimp only at h
    rw [bind_of_ok (deferList_apply _ base options inner c)] at h
    cases h
    simp [Leaf.place?, NestedTask.place]

theorem places_mapM {leaves : List (String × Leaf)} {bs : List Bool}
    (h : leaves.mapM (leaf s base mode) c = (.ok bs, c')) :
    c'.nested.map NestedTask.place
      = c.nested.map NestedTask.place ++ leaves.filterMap (Leaf.place? base) := by
  induction leaves generalizing c bs with
  | nil =>
    cases h
    simp
  | cons l leaves ih =>
    obtain ⟨b, u, bs', hb, hbs, rfl⟩ := mapM_cons_ok h
    rw [ih hbs, place_leaf hb, List.append_assoc, List.filterMap_cons]
    cases Leaf.place? base l <;> rfl

end Compilation

end RecordQuery
