import RecordQuery.Proofs.NestedQuery
import RecordQuery.Proofs.Storage.Reading

namespace RecordQuery

open Steps

namespace Compilation

variable {s : Setting} {c c' : Compilation} {O O' : List (String × String)} {path base : String}
  {mode : JoinMode} {x label : String}

def origins (c : Compilation) : List (String × String) := c.query.source.origins

abbrev Known (s : Setting) (O : List (String × String)) : String → Prop := Refers s.schema.Stored O

structure Traced (s : Setting) (c : Compilation) : Prop where
  planted : Planted s c
  rooted : Planning.Rooted s.root (c.planning none)
  query : c.query.Reads s.dialect (Known s c.origins)
  primitives : ∀ x ∈ c.primitives, Known s c.origins x

/-- The steps keep a compilation traced and the tables behind its aliases. Their answer satisfies
`P` on the aliases they end with, if those of `O` were there before. -/
def Traces {α : Type} (s : Setting) (O : List (String × String)) (m : Steps Compilation α)
    (P : List (String × String) → α → Prop) : Prop :=
  ∀ c, O ⊆ c.origins → Traced s c →
    Traced s (m c).2 ∧ c.origins ⊆ (m c).2.origins ∧ ∀ a, (m c).1 = .ok a → P (m c).2.origins a

theorem Traced.same (h : Traced s c) (hplan : c'.plan = c.plan)
    (hjoined : c'.query.source.table = c.query.source.table ∧
      c'.query.source.tableAlias = c.query.source.tableAlias ∧
      c'.query.source.joins = c.query.source.joins)
    (hquery : c'.query.Reads s.dialect (Known s c.origins))
    (hprimitives : ∀ x ∈ c'.primitives, Known s c.origins x) :
    Traced s c' ∧ c'.origins = c.origins := by
  obtain ⟨htable, halias, hjoins⟩ := hjoined
  have horigins : c'.origins = c.origins := by
    unfold origins Source.origins
    rw [htable, halias, hjoins]
  refine ⟨⟨h.planted.same hplan halias hjoins, ⟨?_, ?_⟩, ?_, ?_⟩, horigins⟩
  · exact htable.trans h.rooted.table
  · refine halias.trans (h.rooted.tableAlias.trans ?_)
    exact congrArg JoinPlan.rootAlias hplan.symm
  · rwa [horigins]
  · rwa [horigins]

section Steps

variable {α β γ : Type} {m : Steps Compilation α} {P : List (String × String) → α → Prop}
  {Q : List (String × String) → β → Prop}

theorem Traces.of_subset (h : Traces s O m P) (hsub : O ⊆ O') : Traces s O' m P :=
  fun c hc => h c (List.Subset.trans hsub hc)

theorem traces_pure {a : α} (h : ∀ O', O ⊆ O' → P O' a) : Traces s O (pure a) P := by
  intro c hc ht
  refine ⟨ht, List.Subset.refl _, ?_⟩
  rintro b ⟨rfl⟩
  exact h c.origins hc

theorem traces_throw {e : Error} : Traces s O (throw e : Steps Compilation α) P :=
  fun _ _ ht => ⟨ht, List.Subset.refl _, nofun⟩

theorem traces_lift {x : Except Error α} (h : ∀ a, x = .ok a → ∀ O', O ⊆ O' → P O' a) :
    Traces s O (liftM x) P :=
  fun c hc ht => ⟨ht, List.Subset.refl _, fun a ha => h a ha c.origins hc⟩

theorem traces_bind {f : α → Steps Compilation β} (hm : Traces s O m P)
    (hf : ∀ O' a, O ⊆ O' → P O' a → Traces s O' (f a) Q) : Traces s O (m >>= f) Q := by
  intro c hc ht
  obtain ⟨htraced, hsub, ha⟩ := hm c hc ht
  rw [bind_apply]
  rcases hx : m c with ⟨x, c'⟩
  rw [hx] at htraced hsub ha
  cases x with
  | error e => exact ⟨htraced, hsub, nofun⟩
  | ok a =>
    obtain ⟨htraced', hsub', hb⟩ :=
      hf c'.origins a (List.Subset.trans hc hsub) (ha a rfl) c' (List.Subset.refl _) htraced
    exact ⟨htraced', List.Subset.trans hsub hsub', hb⟩

theorem traces_seq {n : Steps Compilation β} (hm : Traces s O m P) (hn : Traces s O n Q) :
    Traces s O (m >>= fun _ => n) Q :=
  traces_bind hm fun _ _ hsub _ => hn.of_subset hsub

theorem traces_forM {xs : List γ} {f : γ → Steps Compilation PUnit}
    (h : ∀ x ∈ xs, Traces s O (f x) fun _ _ => True) : Traces s O (xs.forM f) fun _ _ => True := by
  induction xs with
  | nil => exact traces_pure fun _ _ => trivial
  | cons x xs ih =>
    exact traces_seq (h x List.mem_cons_self) (ih fun y hy => h y (List.mem_cons_of_mem x hy))

theorem traces_mapM {xs : List γ} {f : γ → Steps Compilation α}
    (hP : ∀ O O' a, O ⊆ O' → P O a → P O' a) (h : ∀ x ∈ xs, Traces s O (f x) P) :
    Traces s O (xs.mapM f) fun O' as => ∀ a ∈ as, P O' a := by
  induction xs generalizing O with
  | nil => exact traces_pure fun _ _ => by simp
  | cons x xs ih =>
    rw [List.mapM_cons]
    apply traces_bind (h x List.mem_cons_self)
    intro O' a hsub ha
    apply traces_bind (ih fun y hy => (h y (List.mem_cons_of_mem x hy)).of_subset hsub)
    intro O'' as hsub' has
    apply traces_pure
    intro O''' hsub''
    have hall := List.forall_mem_cons.2 ⟨hP _ _ a hsub' ha, has⟩
    exact fun b hb => hP _ _ b hsub'' (hall b hb)

theorem traces_aside (h : ∀ c, (m c).2.plan = c.plan ∧ (m c).2.query = c.query ∧
    (m c).2.primitives = c.primitives) : Traces s O m fun _ _ => True := by
  intro c _ ht
  obtain ⟨hplan, hquery, hprimitives⟩ := h c
  obtain ⟨htraced, horigins⟩ := ht.same hplan
    ⟨by rw [hquery], by rw [hquery], by rw [hquery]⟩ (hquery ▸ ht.query)
    (hprimitives ▸ ht.primitives)
  exact ⟨htraced, horigins ▸ List.Subset.refl _, fun _ _ => trivial⟩

theorem traces_edit {e : QueryPair.Edit} (he : e.Reads s.dialect (Known s O)) :
    Traces s O (onQuery (·.edit e)) fun _ _ => True := by
  intro c hc ht
  have hedit := ht.query.edit (he.mono fun _ => .mono hc)
  obtain ⟨htraced, horigins⟩ : Traced s (onQuery (·.edit e) c).2 ∧
      (onQuery (·.edit e) c).2.origins = c.origins :=
    ht.same rfl (he.joined c.query) hedit ht.primitives
  exact ⟨htraced, horigins ▸ List.Subset.refl _, fun _ _ => trivial⟩

end Steps

section Registered

variable (hs : s.root ∈ s.schema.entities) (hnamed : s.schema.Named s.root)
include hs hnamed

theorem traces_resolveScoped (path : String) (mode : JoinMode)
    (waiting : Option ScopedPredicate) :
    Traces s O (resolveScoped s path mode waiting) fun O' x => Known s O' x.1.column := by
  intro c _ ht
  have hplanning : Planning.Traced s.schema s.root (c.planning waiting) :=
    ⟨ht.planted.orderly.awaiting waiting, ht.planted.grown.awaiting waiting,
      ⟨ht.rooted.table, ht.rooted.tableAlias⟩, ht.query.joins⟩
  obtain ⟨x, t, hwalked, heq⟩ := resolveScoped_walked s path mode waiting c
  obtain ⟨htraced, hsub, hr⟩ := hplanning.walked hs hnamed hwalked
  obtain ⟨js, hquery⟩ := Planning.Run.query hwalked.run
  rw [heq]
  refine ⟨⟨?_, ?_, ?_, ?_⟩, hsub, ?_⟩
  · exact ⟨htraced.orderly.awaiting none, htraced.grown.awaiting none⟩
  · exact ⟨htraced.rooted.table, htraced.rooted.tableAlias⟩
  · have hreads : ∀ {R}, c.query.Reads s.dialect R → (∀ j ∈ t.query.source.joins, j.on.Over R) →
        t.query.Reads s.dialect R := by
      intro R h hj
      rw [hquery] at hj ⊢
      exact ⟨h.fields, hj, h.filter, h.groupBy, h.having, h.orderBy⟩
    exact hreads (ht.query.mono fun _ => .mono hsub) htraced.joins
  · exact fun x hx => (ht.primitives x hx).mono hsub
  · intro a ha
    obtain ⟨r, rfl, rfl⟩ := except_map_ok ha
    exact hr r rfl

theorem traces_resolve (path : String) (mode : JoinMode) :
    Traces s O (resolve s path mode) fun O' r => Known s O' r.column := by
  apply traces_bind (traces_resolveScoped hs hnamed path mode none)
  intro O' x _ hx
  exact traces_pure fun _ hsub => hx.mono hsub

end Registered

end Compilation

end RecordQuery
