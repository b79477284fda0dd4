import Mathlib.Tactic.TFAE
import RecordQuery.Proofs.Criteria.Acceptance
import RecordQuery.Proofs.Joining.Laying

namespace RecordQuery

open Steps

namespace Compilation

variable {s : Setting} {p p' : Projection} {base path : String} {grouped b : Bool}
  {mode : JoinMode} {waiting : Option ScopedPredicate} {l : String × Leaf}
  {leaves leaves' : List (String × Leaf)} {c c' u : Compilation} {C T : Layout} {q : String}

def joinOf? (c : Compilation) (path : String) : Option Join :=
  (c.plan.joined.get? path).bind fun joined =>
    c.query.source.joins.find? fun j => j.tableAlias == joined.tableAlias

theorem Planted.type_joinOf? (h : Planted s c) (path : String) :
    (c.joinOf? path).map Join.type = (c.plan.layout path).map Planning.joinType := by
  unfold joinOf? JoinPlan.layout
  cases hj : c.plan.joined.get? path with
  | none => rfl
  | some joined =>
    obtain ⟨parent, js, hparent⟩ := h.grown.hangs hj
    obtain ⟨k, hk, hmem, halias⟩ := hparent.own
    have hfind : c.query.source.joins.find? (fun j => j.tableAlias == joined.tableAlias)
        = some k := by
      have hdistinct : (c.query.source.joins.map Join.tableAlias).Nodup :=
        (List.nodup_cons.1 h.orderly.distinct).2
      cases hf : c.query.source.joins.find? (fun j => j.tableAlias == joined.tableAlias) with
      | none =>
        have hnone := List.find?_eq_none.1 hf k hmem
        simp [halias] at hnone
      | some k' =>
        have halias' : k'.tableAlias = joined.tableAlias := by simpa using List.find?_some hf
        rw [List.inj_on_of_nodup_map hdistinct (List.mem_of_find?_eq_some hf) hmem
          (halias'.trans halias.symm)]
    rw [Option.bind_some, hfind]
    exact congrArg some (hparent.type hk)

theorem Planted.joinOf?_isSome (h : Planted s c) (path : String) :
    (c.joinOf? path).isSome = (c.plan.layout path).isSome := by
  rw [← Option.isSome_map, h.type_joinOf?, Option.isSome_map]

def route? (base : String) (mode : JoinMode) : String × Leaf → Option (String × JoinMode)
  | (path, .column _) => some (Path.under base path, mode)
  | (path, .field leaf) => some (Path.under base path, fieldMode leaf mode)
  | (_, .list _ _) => none

def lays (s : Setting) (base : String) (mode : JoinMode) (T : Layout) (l : String × Leaf) :
    Layout :=
  match route? base mode l with
  | some (path, mode) => s.schema.layPath s.root mode path T
  | none => T

theorem resolveScoped_layout {r : Resolved × Bool}
    (h : resolveScoped s path mode waiting c = (.ok r, c')) :
    c'.plan.layout = s.schema.layPath s.root mode path c.plan.layout := by
  unfold resolveScoped at h
  rcases hr : Planning.resolve s.schema s.root path mode ⟨c.plan, c.query, waiting⟩ with ⟨x, t⟩
  rw [hr] at h
  cases x with
  | error e => cases h
  | ok r' =>
    cases h
    exact Planning.resolve_layout hr

theorem resolve_layout {r : Resolved} (h : resolve s path mode c = (.ok r, c')) :
    c'.plan.layout = s.schema.layPath s.root mode path c.plan.layout := by
  obtain ⟨_, u, hu, h⟩ := bind_ok h
  cases h
  exact resolveScoped_layout hu

theorem leaf_layout (h : leaf s base mode l c = (.ok b, c')) :
    c'.plan.layout = lays s base mode c.plan.layout l := by
  obtain ⟨path, l⟩ := l
  cases l with
  | column label =>
    obtain ⟨r, u, hr, h⟩ := bind_ok h
    obtain ⟨_, v, hv, h⟩ := bind_ok h
    cases h
    have hplan : c'.plan = u.plan := by
      cases htail : r.tail with
      | true =>
        rw [htail] at hv
        exact (picked_selectSiblings hv).plan
      | false =>
        rw [htail] at hv
        exact (picked_selectPlain (δ := s.dialect) hv).plan
    rw [hplan]
    exact resolve_layout hr
  | field leaf =>
    obtain ⟨_, _, u, hu, hplan, -⟩ := selectField_ok h
    rw [hplan]
    exact resolveScoped_layout hu
  | list options inner =>
    obtain ⟨_, u, hu, h⟩ := bind_ok h
    cases h
    rw [(kept_deferList hu).plan]
    rfl

theorem mapM_layout {bs : List Bool} (h : leaves.mapM (leaf s base mode) c = (.ok bs, c')) :
    c'.plan.layout = leaves.foldl (lays s base mode) c.plan.layout := by
  induction leaves generalizing c bs with
  | nil =>
    cases h
    rfl
  | cons l leaves ih =>
    obtain ⟨b, u, bs', hb, hbs, rfl⟩ := mapM_cons_ok h
    rw [ih hbs, List.foldl_cons, leaf_layout hb]

theorem fields_layout (h : fields s p base grouped mode c = (.ok b, c')) :
    c'.plan.layout = s.schema.layPath s.root mode (Path.under base Path.idSegment)
      (p.leaves.foldl (lays s base mode) c.plan.layout) := by
  unfold fields at h
  obtain ⟨bs, u, hleaves, h⟩ := bind_ok h
  obtain ⟨_, v, hkey, h⟩ := bind_ok h
  obtain ⟨r, w, hr, hkey⟩ := bind_ok hkey
  rw [← mapM_layout hleaves, ← resolve_layout hr]
  have hgroup : c'.plan = v.plan := by
    unfold groupPrimitives at h
    rw [bind_of_ok (modify_apply _ v)] at h
    cases h
    split <;> rfl
  have hprimitive : v.plan = w.plan := by
    unfold onQuery at hkey
    rw [bind_of_ok (modify_apply _ w), addPrimitive_apply] at hkey
    cases hkey
    rfl
  rw [hgroup, hprimitive]

theorem lays_joined {b : Bool} (h : T q = some b) : lays s base mode T l q = some b := by
  unfold lays
  cases route? base mode l with
  | none => exact h
  | some route => exact Schema.lay_joined h

theorem foldl_lays_joined {b : Bool} (h : T q = some b) :
    leaves.foldl (lays s base mode) T q = some b := by
  induction leaves generalizing T with
  | nil => exact h
  | cons l leaves ih => exact ih (lays_joined h)

theorem lays_absorb (hC : ∀ q b, C q = some b → T q = some b)
    (hT : ∀ q b b', T q = some b → lays s base mode C l q = some b' → b = b') :
    lays s base mode T l q = (T q).or (lays s base mode C l q) := by
  unfold lays at hT ⊢
  generalize route? base mode l = route at hT ⊢
  cases route with
  | none =>
    dsimp only
    cases hc : C q with
    | none => simp
    | some b => simp [hC q b hc]
  | some route => exact Schema.lay_absorb hC hT

/-- Leaves that cross an association ask for one type of join there. -/
def Agree (lay : Layout → String × Leaf → Layout) (C : Layout) (leaves : List (String × Leaf)) :
    Prop :=
  ∀ l ∈ leaves, ∀ l' ∈ leaves, ∀ q b b', lay C l q = some b → lay C l' q = some b' → b = b'

theorem foldl_lays (hC : ∀ q b, C q = some b → T q = some b)
    (hT : ∀ l ∈ leaves, ∀ q b b', T q = some b → lays s base mode C l q = some b' → b = b')
    (hagree : Agree (lays s base mode) C leaves) {b : Bool} :
    leaves.foldl (lays s base mode) T q = some b ↔
      T q = some b ∨ ∃ l ∈ leaves, lays s base mode C l q = some b := by
  induction leaves generalizing T with
  | nil => simp
  | cons l leaves ih =>
    have hadds : ∀ q, lays s base mode T l q = (T q).or (lays s base mode C l q) := fun q =>
      lays_absorb hC (hT l List.mem_cons_self)
    rw [List.foldl_cons, ih (fun q b hq => by rw [hadds, hC q b hq]; rfl)]
    · rw [hadds, List.exists_mem_cons_iff, ← or_assoc]
      apply or_congr_left
      cases hq : T q with
      | none => simp
      | some b₀ =>
        simp only [Option.some_or]
        refine ⟨.inl, fun h => h.elim id fun hl => ?_⟩
        rw [hT l List.mem_cons_self q b₀ b hq hl]
    · intro l' hl' q b b' hq hq'
      rw [hadds] at hq
      rcases Option.or_eq_some_iff.1 hq with hq | ⟨-, hq⟩
      · exact hT l' (List.mem_cons_of_mem l hl') q b b' hq hq'
      · exact hagree l List.mem_cons_self l' (List.mem_cons_of_mem l hl') q b b' hq hq'
    · exact fun l' hl' l'' hl'' => hagree l' (.tail _ hl') l'' (.tail _ hl'')

theorem lays_starting : ∀ l ∈ leaves, ∀ q b b', C q = some b →
    lays s base mode C l q = some b' → b = b' :=
  fun _ _ _ _ _ hq hl => Option.some.inj ((lays_joined hq).symm.trans hl)

theorem Agree.eq_of_perm (hperm : leaves'.Perm leaves)
    (hagree : Agree (lays s base mode) C leaves) :
    leaves'.foldl (lays s base mode) C = leaves.foldl (lays s base mode) C := by
  have hagree' : Agree (lays s base mode) C leaves' := fun l hl l' hl' =>
    hagree l (hperm.subset hl) l' (hperm.subset hl')
  funext q
  apply Option.ext
  intro b
  rw [foldl_lays (fun _ _ => id) lays_starting hagree,
    foldl_lays (fun _ _ => id) lays_starting hagree']
  simp only [hperm.mem_iff]

def PassedBy (s : Setting) (base : String) (q : String) (l : String × Leaf) : Prop :=
  ∃ path mode, route? base .left l = some (path, mode) ∧ s.schema.Passes s.root path q

theorem lays_isSome : (lays s base mode T l q).isSome ↔ (T q).isSome ∨ PassedBy s base q l := by
  obtain ⟨path, l⟩ := l
  cases l with
  | column | field =>
    refine Schema.layPath_isSome.trans (or_congr_right ?_)
    exact ⟨fun h => ⟨_, _, rfl, h⟩, fun ⟨_, _, hroute, h⟩ => by cases hroute; exact h⟩
  | list =>
    refine ⟨.inl, fun h => h.resolve_right ?_⟩
    rintro ⟨_, _, hroute, -⟩
    cases hroute

theorem foldl_lays_isSome : (leaves.foldl (lays s base mode) T q).isSome ↔
    (T q).isSome ∨ ∃ l ∈ leaves, PassedBy s base q l := by
  induction leaves generalizing T with
  | nil => simp
  | cons l leaves ih => rw [List.foldl_cons, ih, lays_isSome, List.exists_mem_cons_iff, or_assoc]

theorem joined_fields (h : fields s p base grouped mode c = (.ok b, c')) :
    (c'.plan.layout q).isSome ↔ (c.plan.layout q).isSome ∨
      (∃ l ∈ p.leaves, PassedBy s base q l) ∨
      s.schema.Passes s.root (Path.under base Path.idSegment) q := by
  rw [fields_layout h, Schema.layPath_isSome, foldl_lays_isSome, or_assoc]

theorem succeeds_dependency (entity : String) : Succeeds (dependency entity) := by
  intro c
  unfold dependency
  rw [bind_of_ok (get_apply c)]
  cases c.dependencies.idxOf? entity with
  | some i => exact ⟨_, _, rfl⟩
  | none => exact ⟨_, _, rfl⟩

theorem succeeds_selectPlain (column label : String) (type : Option SqlType) :
    Succeeds (selectPlain column label type) := by
  apply succeeds_bind (succeeds_modify _)
  intro _
  apply succeeds_bind (succeeds_modify _)
  exact fun _ => succeeds_modify _

theorem succeeds_selectResolved (leaf : FieldLeaf) (r : Resolved) :
    Succeeds (selectResolved s leaf r) := by
  unfold selectResolved
  cases leaf.function with
  | none => exact succeeds_selectPlain _ _ _
  | some f =>
    apply succeeds_bind (succeeds_modify _)
    intro _
    apply succeeds_bind
    · cases f.isAggregate with
      | true => exact succeeds_pure _
      | false => exact succeeds_modify _
    · exact fun _ => succeeds_modify _

theorem succeeds_selectSiblings (path label : String) {r : Resolved}
    (h : s.cached r.entity = true) : Succeeds (selectSiblings s path label r) := by
  unfold selectSiblings
  rw [if_pos h]
  apply succeeds_bind (succeeds_dependency _)
  intro position
  apply succeeds_bind (succeeds_modify _)
  intro _
  apply succeeds_bind (succeeds_modify _)
  intro _
  split
  · exact succeeds_modify _
  · exact succeeds_pure _

def Unscoped (l : String × Leaf) : Prop := ∀ leaf, l.2 = .field leaf → leaf.criterion = none

theorem succeeds_leaf (hσ : s.schema.validate = .ok ()) (hroot : s.root ∈ s.schema.entities)
    (hl : Unscoped l) (h : leaf s base mode l c = (.ok b, c')) :
    Succeeds (leaf s base mode l) := by
  obtain ⟨path, l⟩ := l
  cases l with
  | column label =>
    obtain ⟨r, u, hr, h⟩ := bind_ok h
    obtain ⟨_, v, hv, -⟩ := bind_ok h
    obtain ⟨t, ⟨-, d, there, hd, -, rfl⟩, -⟩ := resolve_ok hr
    -- the schema alone decides where the path leads, so any state takes the same branch
    intro c
    obtain ⟨r', u', hr'⟩ := succeeds_resolve mode hσ hroot hd c
    obtain ⟨t', ⟨-, d', there', hd', -, rfl⟩, -⟩ := resolve_ok hr'
    rw [hd] at hd'
    cases hd'
    change ∃ a t, selectColumn s (Path.under base path) mode label c = (.ok a, t)
    unfold selectColumn
    rw [bind_of_ok hr']
    have hselects : Succeeds (if (d.under there'.tableAlias).tail = true
        then selectSiblings s (Path.under base path) label (d.under there'.tableAlias)
        else selectPlain (d.under there'.tableAlias).column label
          (some (d.under there'.tableAlias).type)) := by
      split
      · next htail =>
        rw [if_pos (show (d.under there.tableAlias).tail = true from htail)] at hv
        unfold selectSiblings at hv
        split at hv
        · next hcached => exact succeeds_selectSiblings _ _ hcached
        · cases hv
      · exact succeeds_selectPlain _ _ _
    exact succeeds_bind hselects (fun _ => succeeds_pure _) u'
  | field leaf =>
    have hmisses : ∀ pool, leaf.Misses pool := fun pool k hk => by rw [hl leaf rfl] at hk; cases hk
    change selectField s _ base mode leaf c = _ at h
    rw [selectField_missed (hmisses _)] at h
    obtain ⟨⟨r, applied⟩, u, hr, -⟩ := bind_ok h
    obtain ⟨t, ⟨-, d, there, hd, -, rfl⟩, -⟩ := resolveScoped_ok hr
    intro c
    change ∃ a t, selectField s _ base mode leaf c = (.ok a, t)
    rw [selectField_missed (hmisses _)]
    obtain ⟨r', u', hr'⟩ := succeeds_resolve (fieldMode leaf mode) hσ hroot hd c
    obtain ⟨answer, v, hanswer, -⟩ := bind_ok hr'
    unfold plainField
    rw [bind_of_ok hanswer]
    exact succeeds_bind (succeeds_selectResolved leaf _) (fun _ => succeeds_pure _) v
  | list options inner =>
    intro c
    change ∃ a t, (deferList (Path.under base path) base options inner >>= fun _ => pure false) c
      = (.ok a, t)
    rw [bind_of_ok (deferList_apply _ base options inner c)]
    exact ⟨_, _, rfl⟩

theorem succeeds_fields (hσ : s.schema.validate = .ok ()) (hroot : s.root ∈ s.schema.entities)
    (hp : ∀ l ∈ p.leaves, Unscoped l) (h : fields s p base grouped mode c = (.ok b, c'))
    (hperm : p'.leaves.Perm p.leaves) : Succeeds (fields s p' base grouped mode) := by
  obtain ⟨bs, u, hleaves, h⟩ := bind_ok h
  obtain ⟨_, v, hkey, -⟩ := bind_ok h
  apply succeeds_bind
  · apply succeeds_mapM
    intro l hl
    obtain ⟨w, a, w', hleaf⟩ := mapM_ok hleaves l (hperm.subset hl)
    exact succeeds_leaf hσ hroot (hp l (hperm.subset hl)) hleaf
  · intro bs
    apply succeeds_bind (succeeds_selectKey hσ hroot hkey)
    intro _
    apply succeeds_bind (succeeds_modify _)
    exact fun _ => succeeds_pure _

theorem Planted.leaf (hc : Planted s c) (h : Compilation.leaf s base mode l c = (.ok b, c')) :
    Planted s c' :=
  (evolved_of_ok (evolved_leaf (M := fun _ => True) trivial (fun _ _ _ => trivial) base)
    h).planted hc

theorem Planted.fields (hc : Planted s c)
    (h : Compilation.fields s p base grouped mode c = (.ok b, c')) : Planted s c' :=
  (evolved_of_ok (evolved_fields (M := fun _ => True) trivial (fun _ _ _ _ _ => trivial) base
    grouped) h).planted hc

theorem joinType_injective : Function.Injective Planning.joinType := by
  intro x y
  cases x <;> cases y <;> simp [Planning.joinType]

theorem Planted.layout_of_joinOf? (hc : Planted s c) {j : Join} (hj : c.joinOf? path = some j) :
    ∃ b, c.plan.layout path = some b ∧ j.type = Planning.joinType b := by
  have htype := hc.type_joinOf? path
  rw [hj, Option.map_some, eq_comm, Option.map_eq_some_iff] at htype
  obtain ⟨b, hb, hb'⟩ := htype
  exact ⟨b, hb, hb'.symm⟩

theorem Planted.joinOf?_of_layout (hc : Planted s c) {b : Bool}
    (hb : c.plan.layout path = some b) :
    ∃ j, c.joinOf? path = some j ∧ j.type = Planning.joinType b := by
  have htype := hc.type_joinOf? path
  rw [hb, Option.map_some, Option.map_eq_some_iff] at htype
  exact htype

theorem agree_of_types (hc : Planted s c)
    (hp : ∀ l ∈ p.leaves, ∃ a v, leaf s base mode l c = (.ok a, v))
    (h : ∀ l ∈ p.leaves, ∀ l' ∈ p.leaves, ∀ a v a' v', leaf s base mode l c = (.ok a, v) →
      leaf s base mode l' c = (.ok a', v') → ∀ path j j', v.joinOf? path = some j →
        v'.joinOf? path = some j' → j.type = j'.type) :
    Agree (lays s base mode) c.plan.layout p.leaves := by
  intro l hl l' hl' q b b' hb hb'
  obtain ⟨a, v, hv⟩ := hp l hl
  obtain ⟨a', v', hv'⟩ := hp l' hl'
  rw [← leaf_layout hv] at hb
  rw [← leaf_layout hv'] at hb'
  obtain ⟨j, hj, hb⟩ := (hc.leaf hv).joinOf?_of_layout hb
  obtain ⟨j', hj', hb'⟩ := (hc.leaf hv').joinOf?_of_layout hb'
  have hsame := h l hl l' hl' a v a' v' hv hv' q j j' hj hj'
  rw [hb, hb'] at hsame
  exact joinType_injective hsame

theorem Planted.joinOf?_kept (hc : Planted s c) (hu : Planted s u) {j : Join}
    (hj : c.joinOf? path = some j)
    (hlay : ∀ b, c.plan.layout path = some b → u.plan.layout path = some b) :
    ∃ j', u.joinOf? path = some j' ∧ j'.type = j.type := by
  obtain ⟨b, hb, htype⟩ := hc.layout_of_joinOf? hj
  obtain ⟨j', hj', htype'⟩ := hu.joinOf?_of_layout (hlay b hb)
  exact ⟨j', hj', htype'.trans htype.symm⟩

theorem Agree.keeps (hc : Planted s c) {v : Compilation} {a : Bool} {j : Join}
    (hagree : Agree (lays s base mode) c.plan.layout p.leaves) (hl : l ∈ p.leaves)
    (h : fields s p base grouped mode c = (.ok b, u)) (hv : leaf s base mode l c = (.ok a, v))
    (hj : v.joinOf? path = some j) : ∃ j', u.joinOf? path = some j' ∧ j'.type = j.type := by
  apply (hc.leaf hv).joinOf?_kept (hc.fields h) hj
  intro b hb
  rw [leaf_layout hv] at hb
  rw [fields_layout h]
  exact Schema.lay_joined
    ((foldl_lays (fun _ _ => id) lays_starting hagree).2 (.inr ⟨l, hl, hb⟩))

theorem joins_first (hc : Planted s c) {v : Compilation} {a : Bool} {j : Join}
    {rest : List (String × Leaf)} (hp : p.leaves = l :: rest)
    (h : fields s p base grouped mode c = (.ok b, u)) (hv : leaf s base mode l c = (.ok a, v))
    (hj : v.joinOf? path = some j) : ∃ j', u.joinOf? path = some j' ∧ j'.type = j.type := by
  apply (hc.leaf hv).joinOf?_kept (hc.fields h) hj
  intro b hb
  rw [leaf_layout hv] at hb
  rw [fields_layout h, hp, List.foldl_cons]
  exact Schema.lay_joined (foldl_lays_joined hb)

theorem exists_first (hσ : s.schema.validate = .ok ()) (hroot : s.root ∈ s.schema.entities)
    (hc : Planted s c) (hp : ∀ l ∈ p.leaves, Unscoped l)
    (h : fields s p base grouped mode c = (.ok b, c')) (hl : l ∈ p.leaves) {a : Bool}
    {v : Compilation} (hv : leaf s base mode l c = (.ok a, v)) :
    ∃ p' b' u', p'.leaves.Perm p.leaves ∧ fields s p' base grouped mode c = (.ok b', u') ∧
      ∀ path j, v.joinOf? path = some j → ∃ j', u'.joinOf? path = some j' ∧ j'.type = j.type := by
  obtain ⟨front, rest, hsplit⟩ := List.append_of_mem hl
  have hleaves := Projection.leaves_ofLeaves p.middlewares (l :: (front ++ rest))
  have hperm : (Projection.ofLeaves p.middlewares (l :: (front ++ rest))).leaves.Perm
      p.leaves := by
    rw [hleaves, hsplit]
    exact List.perm_middle.symm
  obtain ⟨b', u', h'⟩ := succeeds_fields hσ hroot hp h hperm c
  exact ⟨_, b', u', hperm, h', fun path j => joins_first hc hleaves h' hv⟩

/-- Whatever the order of its leaves, a projection of a valid schema without scoped leaves compiles
or does not, and joins the same paths: those that its leaves and its key pass. Of the types of the
joins it is the same to say that the order does not matter, that in any order each leaf has the
joins that it makes by itself, and that leaves which cross an association by themselves join it
alike. -/
theorem leaf_order_free (hσ : s.schema.validate = .ok ()) (hroot : s.root ∈ s.schema.entities)
    (hc : Planted s c) (hp : ∀ l ∈ p.leaves, Unscoped l) (base : String) (grouped : Bool)
    (mode : JoinMode) :
    (∀ p' : Projection, p'.leaves.Perm p.leaves →
      ((∃ b u, fields s p' base grouped mode c = (.ok b, u)) ↔
        ∃ b u, fields s p base grouped mode c = (.ok b, u))) ∧
    ∀ b u, fields s p base grouped mode c = (.ok b, u) →
      (∀ p' b' u', p'.leaves.Perm p.leaves → fields s p' base grouped mode c = (.ok b', u') →
        ∀ path, (u'.joinOf? path).isSome = (u.joinOf? path).isSome) ∧
      [∀ p' b' u', p'.leaves.Perm p.leaves → fields s p' base grouped mode c = (.ok b', u') →
          ∀ path, (u'.joinOf? path).map Join.type = (u.joinOf? path).map Join.type,
        ∀ p' b' u', p'.leaves.Perm p.leaves → fields s p' base grouped mode c = (.ok b', u') →
          ∀ l ∈ p.leaves, ∀ a v, leaf s base mode l c = (.ok a, v) → ∀ path j,
            v.joinOf? path = some j → ∃ j', u'.joinOf? path = some j' ∧ j'.type = j.type,
        ∀ l ∈ p.leaves, ∀ l' ∈ p.leaves, ∀ a v a' v', leaf s base mode l c = (.ok a, v) →
          leaf s base mode l' c = (.ok a', v') → ∀ path j j', v.joinOf? path = some j →
            v'.joinOf? path = some j' → j.type = j'.type].TFAE := by
  refine ⟨?_, ?_⟩
  · intro p' hperm
    constructor
    · rintro ⟨b, u, h⟩
      exact succeeds_fields hσ hroot (fun l hl => hp l (hperm.subset hl)) h hperm.symm c
    · rintro ⟨b, u, h⟩
      exact succeeds_fields hσ hroot hp h hperm c
  · intro b u h
    refine ⟨?_, ?_⟩
    · intro p' b' u' hperm h' path
      rw [(hc.fields h').joinOf?_isSome, (hc.fields h).joinOf?_isSome, Bool.eq_iff_iff,
        joined_fields h', joined_fields h]
      simp only [hperm.mem_iff]
    have hleaf : ∀ l ∈ p.leaves, ∃ a v, leaf s base mode l c = (.ok a, v) := by
      intro l hl
      obtain ⟨bs, w, hleaves, -⟩ := bind_ok h
      obtain ⟨w, a, w', hw⟩ := mapM_ok hleaves l hl
      exact succeeds_leaf hσ hroot (hp l hl) hw c
    -- a leaf that comes first has the joins that it makes by itself
    have hfirst : ∀ l ∈ p.leaves, ∀ a v, leaf s base mode l c = (.ok a, v) → ∃ p' b' u',
        p'.leaves.Perm p.leaves ∧ fields s p' base grouped mode c = (.ok b', u') ∧
        ∀ path j, v.joinOf? path = some j → ∃ j', u'.joinOf? path = some j' ∧ j'.type = j.type :=
      fun l hl a v hv => exists_first hσ hroot hc hp h hl hv
    tfae_have 3 → 1
    | htypes, p', b', u', hperm, h', path => by
      have hagree := agree_of_types hc hleaf htypes
      rw [(hc.fields h').type_joinOf?, (hc.fields h).type_joinOf?, fields_layout h',
        fields_layout h, hagree.eq_of_perm hperm]
    tfae_have 3 → 2
    | htypes, p', b', u', hperm, h', l, hl, a, v, hv, path, j, hj => by
      have hagree := agree_of_types hc hleaf htypes
      have hagree' : Agree (lays s base mode) c.plan.layout p'.leaves := fun l hl l' hl' =>
        hagree l (hperm.subset hl) l' (hperm.subset hl')
      exact hagree'.keeps hc (hperm.symm.subset hl) h' hv hj
    -- two leaves that disagree are told apart by the orders which begin with them
    tfae_have 1 → 3
    | horder, l, hl, l', hl', a, v, a', v', hv, hv', path, j, j', hj, hj' => by
      obtain ⟨p₁, b₁, u₁, hperm₁, h₁, hkeeps₁⟩ := hfirst l hl a v hv
      obtain ⟨p₂, b₂, u₂, hperm₂, h₂, hkeeps₂⟩ := hfirst l' hl' a' v' hv'
      obtain ⟨k, hk, htype⟩ := hkeeps₁ path j hj
      obtain ⟨k', hk', htype'⟩ := hkeeps₂ path j' hj'
      have hsame := (horder p₁ b₁ u₁ hperm₁ h₁ path).trans (horder p₂ b₂ u₂ hperm₂ h₂ path).symm
      rw [hk, hk', Option.map_some, Option.map_some] at hsame
      rw [← htype, ← htype', Option.some.inj hsame]
    tfae_have 2 → 3
    | hkeeps, l, hl, l', hl', a, v, a', v', hv, hv', path, j, j', hj, hj' => by
      obtain ⟨k, hk, htype⟩ := hkeeps p b u (.refl _) h l hl a v hv path j hj
      obtain ⟨k', hk', htype'⟩ := hkeeps p b u (.refl _) h l' hl' a' v' hv' path j' hj'
      rw [hk] at hk'
      cases hk'
      rw [← htype, htype']
    tfae_finish

def delivery : Projection :=
  .column "customer.name" "customer" (.field "customer.address.city" ⟨"city", none, .inner, none⟩
    (.done []))

theorem leaf_order_free_shop :
    Shop.setting.schema.validate = .ok () ∧ Shop.setting.root ∈ Shop.setting.schema.entities ∧
    Planted Shop.setting (start Shop.setting [] 0) ∧ (∀ l ∈ delivery.leaves, Unscoped l) ∧
    ∃ b u, fields Shop.setting delivery "" false .left (start Shop.setting [] 0) = (.ok b, u) ∧
      ∃ p' b' u' path, p'.leaves.Perm delivery.leaves ∧
        fields Shop.setting p' "" false .left (start Shop.setting [] 0) = (.ok b', u') ∧
        (u'.joinOf? path).map Join.type ≠ (u.joinOf? path).map Join.type := by
  have hvalid : Shop.setting.schema.validate = .ok () := by decide +kernel
  have hroot : Shop.setting.root ∈ Shop.setting.schema.entities :=
    List.mem_cons_of_mem _ (List.mem_cons_of_mem _ List.mem_cons_self)
  have hstart := planted_start Shop.setting [] 0
  have hplain : ∀ l ∈ delivery.leaves, Unscoped l := by
    intro l hl leaf hleaf
    rcases List.mem_cons.1 hl with rfl | hl
    · cases hleaf
    · rw [List.mem_singleton.1 hl] at hleaf
      cases hleaf
      rfl
  obtain ⟨u, hu⟩ := ok_of_toOption (a := false) (m := fields Shop.setting delivery "" false .left)
    (s := start Shop.setting [] 0) (by decide +kernel)
  refine ⟨hvalid, hroot, hstart, hplain, false, u, hu, ?_⟩
  have hfree := ((leaf_order_free hvalid hroot hstart hplain "" false .left).2 _ _ hu).2.out 0 2
  by_contra hsame
  push Not at hsame
  have hagree := hfree.1 fun p' b' u' hperm h' path => hsame p' b' u' path hperm h'
  have hname : ((leaf Shop.setting "" .left ("customer.name", .column "customer")
      (start Shop.setting [] 0)).2.joinOf? "customer").map Join.type = some .left := by
    decide +kernel
  have hcity : ((leaf Shop.setting "" .left
      ("customer.address.city", .field ⟨"city", none, .inner, none⟩)
      (start Shop.setting [] 0)).2.joinOf? "customer").map Join.type = some .inner := by
    decide +kernel
  obtain ⟨v, hv⟩ := ok_of_toOption (a := false)
    (m := leaf Shop.setting "" .left ("customer.name", .column "customer"))
    (s := start Shop.setting [] 0) (by decide +kernel)
  obtain ⟨w, hw⟩ := ok_of_toOption (a := false) (m := leaf Shop.setting "" .left
      ("customer.address.city", .field ⟨"city", none, .inner, none⟩))
    (s := start Shop.setting [] 0) (by decide +kernel)
  rw [hv] at hname
  rw [hw] at hcity
  obtain ⟨j, hj, hleft⟩ := Option.map_eq_some_iff.1 hname
  obtain ⟨k, hk, hinner⟩ := Option.map_eq_some_iff.1 hcity
  have htypes := hagree _ List.mem_cons_self _ (List.mem_cons_of_mem _ List.mem_cons_self) _ _ _ _
    hv hw "customer" j k hj hk
  rw [hleft, hinner] at htypes
  cases htypes

end Compilation

end RecordQuery
