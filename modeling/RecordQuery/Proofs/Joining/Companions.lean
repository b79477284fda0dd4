import RecordQuery.Proofs.Joining.Many
import RecordQuery.Proofs.Joining.Outer
import RecordQuery.Proofs.Sql.Local

/-!
The rows that stand beside one another. If an association to one row goes on with a row that the one
it comes from determines, then all bindings of one root row agree on the aliases of paths that cross
no association to many rows.
-/

namespace RecordQuery

open Steps

/-- The alias of the root, and those of the joined paths that lead to one row. -/
def JoinPlan.single (σ : Schema) (root : Entity) (plan : JoinPlan) : List String :=
  plan.rootAlias :: (plan.joined.filter fun entry => !σ.leadsToMany root entry.1).map fun entry =>
    entry.2.tableAlias

def Database.Determines {ρ : Type} (db : Database ρ) (parent child : String) (js : List Join) :
    Prop :=
  ∀ b b', parent ∈ Fields.keys b → child ∉ Fields.keys b → child ∉ Fields.keys b' →
    Fields.get? parent b = Fields.get? parent b' →
    ∀ b₁ ∈ db.joined js [b], ∀ b₂ ∈ db.joined js [b'], Fields.get? child b₁ = Fields.get? child b₂

namespace Planning

variable {σ : Schema} {root : Entity} {path p : String} {mode : JoinMode} {s t : Planning}
  {here : Position} {a : String} {ρ : Type} {db : Database ρ} {r : ρ} {b b' : Binding ρ}

theorem mem_single : a ∈ s.plan.single σ root ↔ a = s.plan.rootAlias ∨
    ∃ p left, (p, ⟨a, left⟩) ∈ s.plan.joined ∧ σ.leadsToMany root p = false := by
  unfold JoinPlan.single
  rw [List.mem_cons]
  apply or_congr_right
  constructor
  · intro h
    obtain ⟨⟨p, joined⟩, hentry, rfl⟩ := List.mem_map.1 h
    obtain ⟨hmem, hone⟩ := List.mem_filter.1 hentry
    exact ⟨p, joined.left, hmem, by simpa using hone⟩
  · rintro ⟨p, left, hmem, hone⟩
    exact List.mem_map.2 ⟨_, List.mem_filter.2 ⟨hmem, by simpa using hone⟩, rfl⟩

theorem Counted.exists_standing (h : Counted s) (ha : a ∈ s.plan.single σ root) :
    ∃ here, Standing s here ∧ here.tableAlias = a ∧ σ.leadsToMany root here.path = false := by
  rcases Planning.mem_single.1 ha with rfl | ⟨p, left, hmem, hone⟩
  · exact ⟨⟨root, s.plan.rootAlias, "", false, false⟩, .root rfl rfl rfl, rfl, rfl⟩
  · exact ⟨⟨root, a, p, false, left⟩, .joined (Fields.get?_of_mem h.keys hmem), rfl, hone⟩

theorem Standing.mem_single (h : Standing s here) (hone : σ.leadsToMany root here.path = false) :
    here.tableAlias ∈ s.plan.single σ root := by
  apply Planning.mem_single.2
  cases h with
  | root ha => exact .inl ha
  | joined hj => exact .inr ⟨_, _, Fields.mem_of_get? hj, hone⟩

theorem single_subset : s.plan.single σ root ⊆ s.plan.aliases := by
  intro a ha
  rcases mem_single.1 ha with rfl | ⟨p, left, hmem, -⟩
  · exact List.mem_cons_self
  · exact List.mem_cons_of_mem _ (List.mem_map_of_mem (f := fun entry => entry.2.tableAlias) hmem)

theorem Hangs.not_mem_single {joined : JoinedPath} {parent : Position} {js : List Join} {j : Join}
    (h : Hangs σ root s parent p joined js) (hj : s.plan.joined.get? p = some joined)
    (hcounted : Counted s) (ho : Orderly s) (hs : Grown σ root s)
    (hmany : σ.leadsToMany root p = true) (hmem : j ∈ js) :
    j.tableAlias ∉ s.plan.single σ root := by
  intro hsingle
  obtain ⟨here, hstanding, halias, hone⟩ := hcounted.exists_standing hsingle
  refine h.alias_ne hj hcounted ho hs hstanding (fun hpath => ?_) hmem halias.symm
  rw [hpath, hmany] at hone
  cases hone

def Determined (σ : Schema) (root : Entity) (db : Database ρ) (s : Planning) : Prop :=
  ∀ {p joined parent js}, s.plan.joined.get? p = some joined → Hangs σ root s parent p joined js →
    σ.leadsToMany root p = false → db.Determines parent.tableAlias joined.tableAlias js

/-- The bindings of a row of the root agree on the aliases that belong to one row. -/
def Companions (σ : Schema) (root : Entity) (db : Database ρ) (s : Planning) : Prop :=
  ∀ r, ∀ b ∈ db.around s.query.source r, ∀ b' ∈ db.around s.query.source r,
    AgreeOn (s.plan.single σ root) b b'

theorem Determined.before (h : Determined σ root db t) (hext : Extends s t) :
    Determined σ root db s :=
  fun hj hparent hone => h (hext.joined hj) (hparent.extends hext) hone

theorem agreeOn_joined {js : List Join} {b₁ b₂ : Binding ρ} {aliases : List String}
    (h : AgreeOn aliases b b') (hb : aliases ⊆ Fields.keys b) (hb' : aliases ⊆ Fields.keys b')
    (h₁ : b₁ ∈ db.joined js [b]) (h₂ : b₂ ∈ db.joined js [b']) : AgreeOn aliases b₁ b₂ := by
  intro a ha
  rw [Database.get?_joined h₁ (hb ha), Database.get?_joined h₂ (hb' ha)]
  exact h a ha

theorem leadsToMany_parent (hnamed : σ.Named root) {behind ahead : List String} {segment : String}
    {assoc : Association} {target : Entity} {parent : Position}
    (hpath : Path.segments path = behind ++ segment :: ahead)
    (hlocated : Located σ root behind parent)
    (ha : parent.entity.association? (Path.bare segment) = some assoc)
    (ht : σ.entity assoc.target = .ok target)
    (hone : σ.leadsToMany root (Path.along (behind ++ [segment])) = false) :
    σ.leadsToMany root parent.path = false := by
  have hsplit : Path.segments path = (behind ++ [segment]) ++ ahead := by simpa using hpath
  rw [Schema.leadsToMany_along hnamed (hlocated.crosses.hop ha ht)
    (Path.not_mem_of_segments hsplit), Schema.many_append hlocated.crosses] at hone
  rw [hlocated.path, Schema.leadsToMany_along hnamed hlocated.crosses
    (Path.not_mem_of_segments hpath)]
  exact (Bool.or_eq_false_iff.1 hone).1

theorem Companions.step (h : Companions σ root db s) (hnamed : σ.Named root) (ho : Orderly s)
    (hstep : Step σ root path mode s t) (hdb : Determined σ root db t) :
    Companions σ root db t := by
  have hext := hstep.extends
  have hsource : t.query.source.tableAlias = s.query.source.tableAlias := by
    obtain ⟨js, hquery⟩ := Run.query (.single ⟨path, hstep⟩)
    rw [hquery]
  obtain ⟨js, hjoins⟩ := hext.joins
  intro r b₁ h₁ b₂ h₂
  rw [Database.around_append hsource hjoins.symm] at h₁ h₂
  obtain ⟨b, hb, hb₁⟩ := List.mem_flatMap.1 h₁
  obtain ⟨b', hb', hb₂⟩ := List.mem_flatMap.1 h₂
  have hagree := h r b hb b' hb'
  have hbound : s.plan.single σ root ⊆ s.query.source.aliases := fun _ ha =>
    ho.recorded (single_subset ha)
  have hold := agreeOn_joined hagree (by rwa [Database.keys_around hb])
    (by rwa [Database.keys_around hb']) hb₁ hb₂
  obtain ⟨x, @⟨parent, behind, segment, ahead, assoc, target, _, _, hstanding, hpath, hlocated, ha,
    ht, hnew, hjoining⟩⟩ := hstep
  -- a join that failed binds nothing; a new one is determined by the row of its parent
  cases hjoining with
  | unkeyed => exact hold
  | refused => exact hold
  | @joined source destination conditions w hs hd =>
    intro x hx
    rcases mem_single.1 hx with rfl | ⟨p, left, hmem, hone⟩
    · exact hold _ List.mem_cons_self
    rcases Fields.mem_insert hmem with hentry | hmem
    · obtain ⟨rfl, hjoined⟩ := Prod.mk.inj hentry
      obtain ⟨rfl, -⟩ := JoinedPath.mk.inj hjoined
      have hadded := joins_foldl_join (newJoins parent assoc target (s.childAlias assoc)
        (hopIsLeft mode (Path.isOptional segment) parent assoc) source destination conditions)
        s.query
      obtain rfl := List.append_cancel_left (hjoins.trans hadded)
      have hparent : parent.tableAlias ∈ s.plan.single σ root :=
        hstanding.mem_single (leadsToMany_parent hnamed hpath hlocated ha ht hone)
      have hfresh := ho.unused (numbered_aliasNumbered assoc.name (s.plan.counter + 1))
      refine hdb (Fields.get?_insert_self _ _ _) (.mk hpath (hstanding.extends hext) hlocated ha ht
        hs hd hopIsLeft_of_parent ?_) hone b b' ?_ ?_ ?_ (hagree _ hparent) b₁ hb₁ b₂ hb₂
      · rw [hadded]
        exact (List.suffix_append _ _).isInfix
      · rw [Database.keys_around hb]
        exact hbound hparent
      · rwa [Database.keys_around hb]
      · rwa [Database.keys_around hb']
    · exact hold x (mem_single.2 (.inr ⟨p, left, hmem, hone⟩))

theorem Companions.run (h : Companions σ root db s) (hnamed : σ.Named root) (ho : Orderly s)
    (hrun : Run σ root mode s t) (hdb : Determined σ root db t) : Companions σ root db t := by
  induction hrun with
  | refl => exact h
  | tail hrun hstep ih =>
    obtain ⟨path, hstep⟩ := hstep
    exact (ih (hdb.before hstep.extends)).step hnamed (ho.run hrun) hstep hdb

theorem Determined.same (h : Determined σ root db t) (hplan : t.plan = s.plan)
    (hjoins : t.query.source.joins = s.query.source.joins) : Determined σ root db s :=
  h.before ⟨congrArg JoinPlan.rootAlias hplan, fun hj => hplan ▸ hj, hjoins ▸ List.prefix_rfl⟩

end Planning

namespace Compilation

open Planning

variable {s : Setting} {M : JoinMode → Prop} {c c' : Compilation} {ρ : Type} {db : Database ρ}

theorem Evolved.counted (hc : Planted s c) (he : Evolved s M c c')
    (h : Counted (c.planning none)) : Counted (c'.planning none) := by
  refine he.carries hc (fun ho hcounted hrun => hcounted.run ho hrun) (fun hplan _ _ h => ?_) h
  exact ⟨by rw [hplan]; exact h.keys, by rw [hplan]; exact h.one, by rw [hplan]; exact h.root⟩

theorem Evolved.companions (hnamed : s.schema.Named s.root) (hc : Planted s c)
    (he : Evolved s M c c') (hdb : Determined s.schema s.root db (c'.planning none))
    (h : Companions s.schema s.root db (c.planning none)) :
    Companions s.schema s.root db (c'.planning none) := by
  refine he.carries (I := fun t => Determined s.schema s.root db t →
    Companions s.schema s.root db t) hc (fun ho ih hrun hdb => ?_)
    (fun {t u} hplan halias hjoins ih hdb => ?_) (fun _ => h) hdb
  · exact (ih (hdb.before hrun.extends)).run hnamed ho hrun hdb
  · have hsame := ih (hdb.same hplan hjoins)
    unfold Companions Database.around at hsame ⊢
    rwa [hplan, halias, hjoins]

theorem counted_start (s : Setting) (pool : Pool) (uses : Nat) :
    Counted ((start s pool uses).planning none) :=
  ⟨(Counted.start s.root).keys, (Counted.start s.root).one, (Counted.start s.root).root⟩

theorem companions_start (s : Setting) (pool : Pool) (uses : Nat) (db : Database ρ) :
    Companions s.schema s.root db ((start s pool uses).planning none) := by
  have hjoins : ((start s pool uses).planning none).query.source.joins = [] :=
    joins_start s pool uses
  intro r b hb b' hb'
  unfold Database.around at hb hb'
  rw [hjoins] at hb hb'
  obtain rfl := List.mem_singleton.1 hb
  obtain rfl := List.mem_singleton.1 hb'
  exact fun _ _ => rfl

end Compilation

end RecordQuery
