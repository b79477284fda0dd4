import Mathlib.Data.List.Nodup
import RecordQuery.Proofs.Emission.Names
import RecordQuery.Proofs.Joining.Resolution
import RecordQuery.Text.Numeral

namespace RecordQuery

open Steps

def Source.aliases (s : Source) : List String := s.tableAlias :: s.joins.map Join.tableAlias

def Under (aliases : List String) (x : String) : Prop :=
  ∃ a ∈ aliases, ∃ column, x = qualified a column

theorem under_of_mem {aliases : List String} {a : String} (h : a ∈ aliases) (column : String) :
    Under aliases (qualified a column) :=
  ⟨a, h, column, rfl⟩

def Scoped (introduced : List String) (js : List Join) : Prop :=
  ∀ before j after, js = before ++ j :: after →
    j.on.Over (Under (introduced ++ before.map Join.tableAlias ++ [j.tableAlias]))

section

variable {introduced : List String} {js ks : List Join}

theorem scoped_nil : Scoped introduced [] := by
  intro before j after h
  cases before <;> cases h

theorem scoped_singleton {j : Join} (h : j.on.Over (Under (introduced ++ [j.tableAlias]))) :
    Scoped introduced [j] := by
  intro before k after hk
  obtain ⟨rfl, rfl, rfl⟩ : before = [] ∧ k = j ∧ after = [] := by
    simpa [List.append_eq_singleton_iff, eq_comm] using hk.symm
  simpa using h

theorem Scoped.append (h : Scoped introduced js)
    (hk : Scoped (introduced ++ js.map Join.tableAlias) ks) : Scoped introduced (js ++ ks) := by
  intro before j after hj
  rcases List.append_eq_append_iff.1 hj with ⟨rest, rfl, hks⟩ | ⟨rest, hjs, hks⟩
  · have hover := hk rest j after hks
    simpa using hover
  · cases rest with
    | nil =>
      have hover := hk [] j after hks.symm
      have hbefore : js = before := by simpa using hjs
      simpa [hbefore] using hover
    | cons k rest =>
      obtain ⟨rfl, hafter⟩ := List.cons.inj hks
      exact h before j rest hjs

end

/-- The alias ends in the number. -/
def Numbered (n : Nat) (a : String) : Prop := ∃ base, a.toList = base ++ '_' :: Nat.toDigits 10 n

theorem numbered_aliasNumbered (name : String) (n : Nat) :
    Numbered n (JoinPlan.aliasNumbered name n) :=
  ⟨(JoinPlan.aliasBase name).toList, by simp [JoinPlan.aliasNumbered]⟩

theorem Numbered.append {n : Nat} {a : String} (h : Numbered n a) (before : String) :
    Numbered n (before ++ a) := by
  obtain ⟨base, hbase⟩ := h
  exact ⟨before.toList ++ base, by simp [hbase]⟩

theorem Numbered.unique {m n : Nat} {a : String} (hm : Numbered m a) (hn : Numbered n a) :
    m = n := by
  obtain ⟨base, hbase⟩ := hm
  obtain ⟨base', hbase'⟩ := hn
  have hdigits := Text.append_cons_inj (Text.not_mem_toDigits (by decide) m)
    (Text.not_mem_toDigits (by decide) n) (hbase.symm.trans hbase')
  exact Text.toDigits_inj hdigits.2

namespace Planning

variable {σ : Schema} {root : Entity} {mode : JoinMode} {s t : Planning} {parent : Position}
  {a : Association} {target : Entity} {path child : String} {left : Bool} {type : JoinType}
  {source destination : Attribute} {conditions : List Condition} {introduced : List String}

theorem mem_aliases_linkJoins {x : String}
    (h : x ∈ (linkJoins parent a child type source).map Join.tableAlias) :
    x = linkAlias parent child := by
  unfold linkJoins at h
  cases hr : a.relation <;> simp [hr] at h
  exact h

theorem numbered_linkJoins {n : Nat} (h : Numbered n child) :
    ∀ x ∈ (linkJoins parent a child type source).map Join.tableAlias, Numbered n x := by
  intro x hx
  rw [mem_aliases_linkJoins hx]
  exact h.append _

theorem aliases_newJoins :
    (newJoins parent a target child left source destination conditions).map Join.tableAlias
      = (linkJoins parent a child (joinType left) source).map Join.tableAlias ++ [child] := by
  simp [newJoins]

theorem numbered_newJoins {n : Nat} (h : Numbered n child) :
    ∀ x ∈ (newJoins parent a target child left source destination conditions).map
      Join.tableAlias, Numbered n x := by
  intro x hx
  rw [aliases_newJoins] at hx
  rcases List.mem_append.1 hx with hx | hx
  · exact numbered_linkJoins h x hx
  · rw [List.mem_singleton.1 hx]
    exact h

theorem linkAlias_ne (parent : Position) (child : String) : linkAlias parent child ≠ child := by
  intro h
  have hlength := congrArg String.length h
  simp [linkAlias] at hlength

theorem nodup_linkJoins :
    ((linkJoins parent a child type source).map Join.tableAlias).Nodup := by
  unfold linkJoins
  cases a.relation <;> simp

theorem nodup_newJoins :
    ((newJoins parent a target child left source destination conditions).map
      Join.tableAlias).Nodup := by
  rw [aliases_newJoins, List.nodup_append]
  refine ⟨nodup_linkJoins, by simp, ?_⟩
  intro x hx y hy
  rw [mem_aliases_linkJoins hx, List.mem_singleton.1 hy]
  exact linkAlias_ne parent child

theorem scoped_linkJoins (hp : parent.tableAlias ∈ introduced) :
    Scoped introduced (linkJoins parent a child type source) := by
  unfold linkJoins
  cases a.relation with
  | manyToMany link =>
    refine scoped_singleton (.columnsEq (under_of_mem ?_ _) (under_of_mem ?_ _))
    · exact List.mem_append_left _ hp
    · exact List.mem_append_right _ List.mem_cons_self
  | _ => exact scoped_nil

theorem over_tie (hp : parent.tableAlias ∈ introduced) :
    (tie parent a child source destination).Over (Under (introduced
      ++ (linkJoins parent a child type source).map Join.tableAlias ++ [child])) := by
  have hparent : parent.tableAlias ∈ introduced
      ++ (linkJoins parent a child type source).map Join.tableAlias ++ [child] :=
    List.mem_append_left _ (List.mem_append_left _ hp)
  have hchild : child ∈ introduced
      ++ (linkJoins parent a child type source).map Join.tableAlias ++ [child] :=
    List.mem_append_right _ List.mem_cons_self
  unfold tie
  cases hr : a.relation with
  | belongsTo | hasOne | hasMany =>
    exact .columnsEq (under_of_mem hparent _) (under_of_mem hchild _)
  | manyToMany link =>
    refine .columnsEq (under_of_mem ?_ _) (under_of_mem hchild _)
    simp [linkJoins, hr]

theorem over_taken {R : String → Prop} {w w' : Option ScopedPredicate}
    (hR : ∀ segment leaf, target.ending segment = .ok leaf → R (qualified child leaf.column))
    (h : Taken path target child w conditions w') : ∀ c ∈ conditions, c.Over R := by
  cases h with
  | none => simp
  | some hp => simpa using over_conditionAt hR hp

theorem scoped_newJoins (hp : parent.tableAlias ∈ introduced) {w w' : Option ScopedPredicate}
    (hw : Taken path target child w conditions w') :
    Scoped introduced
      (newJoins parent a target child left source destination conditions) := by
  refine (scoped_linkJoins hp).append (scoped_singleton (Condition.over_combine ?_))
  have hchild : ∀ column, Under (introduced ++ (linkJoins parent a child (joinType left) source).map
      Join.tableAlias ++ [child]) (qualified child column) :=
    under_of_mem (List.mem_append_right _ List.mem_cons_self)
  intro c hc
  rcases List.mem_append.1 hc with hc | hc
  · rcases List.mem_cons.1 hc with rfl | hc
    · exact over_tie hp
    · exact over_notDeleted (fun _ _ => hchild _) c hc
  · exact over_taken (fun _ _ _ => hchild _) hw c hc

structure Orderly (s : Planning) : Prop where
  recorded : s.plan.aliases ⊆ s.query.source.aliases
  numbered : ∀ a ∈ s.query.source.aliases, ∃ n ≤ s.plan.counter, Numbered n a
  distinct : s.query.source.aliases.Nodup
  inScope : Scoped [s.query.source.tableAlias] s.query.source.joins

theorem aliases_foldl_join (js : List Join) (q : QueryPair) :
    (js.foldl QueryPair.join q).source.aliases = q.source.aliases ++ js.map Join.tableAlias := by
  simp [QueryPair.foldl_join, Source.aliases]

theorem Orderly.grow (h : Orderly s) {js : List Join}
    (hn : ∀ x ∈ js.map Join.tableAlias, Numbered (s.plan.counter + 1) x)
    (hd : (js.map Join.tableAlias).Nodup) (hj : Scoped s.query.source.aliases js) :
    Orderly (s.counted.addJoins js) where
  recorded := by
    intro x hx
    rw [addJoins, aliases_foldl_join]
    exact List.mem_append_left _ (h.recorded hx)
  numbered := by
    intro x hx
    rw [addJoins, aliases_foldl_join] at hx
    rcases List.mem_append.1 hx with hx | hx
    · obtain ⟨n, hle, hx⟩ := h.numbered x hx
      exact ⟨n, Nat.le_succ_of_le hle, hx⟩
    · exact ⟨_, Nat.le_refl _, hn x hx⟩
  distinct := by
    rw [addJoins, aliases_foldl_join, List.nodup_append]
    refine ⟨h.distinct, hd, ?_⟩
    rintro x hx _ hy rfl
    obtain ⟨n, hle, hx⟩ := h.numbered x hx
    have hsame := hx.unique (hn x hy)
    omega
  inScope := by
    rw [addJoins, QueryPair.foldl_join]
    exact h.inScope.append hj

theorem Orderly.record (h : Orderly s) {joined : JoinedPath} (path : String)
    (w : Option ScopedPredicate) (hj : joined.tableAlias ∈ s.query.source.aliases) :
    Orderly { s with
      plan := { s.plan with joined := s.plan.joined.insert path joined }, waiting := w } where
  recorded := by
    intro x hx
    rcases List.mem_cons.1 hx with rfl | hx
    · exact h.recorded List.mem_cons_self
    · obtain ⟨entry, hentry, rfl⟩ := List.mem_map.1 hx
      rcases Fields.mem_insert hentry with rfl | hentry
      · exact hj
      · exact h.recorded (List.mem_cons_of_mem _ (List.mem_map_of_mem hentry))
  numbered := h.numbered
  distinct := h.distinct
  inScope := h.inScope

theorem Orderly.step (h : Orderly s) (hstep : Step σ root path mode s t) : Orderly t := by
  obtain ⟨_, @⟨parent, _, _, _, a, target, _, _, hstanding, -, -, -, -, -, hjoining⟩⟩ := hstep
  have hp : parent.tableAlias ∈ s.query.source.aliases := h.recorded hstanding.alias_mem
  have hchild : Numbered (s.plan.counter + 1) (s.childAlias a) := numbered_aliasNumbered _ _
  cases hjoining with
  | unkeyed =>
    have hsame : Orderly (s.counted.addJoins []) := h.grow (by simp) (by simp) scoped_nil
    exact hsame
  | refused => exact h.grow (numbered_linkJoins hchild) nodup_linkJoins (scoped_linkJoins hp)
  | @joined _ _ _ w _ _ htaken =>
    refine (h.grow (numbered_newJoins hchild) nodup_newJoins (scoped_newJoins hp htaken)).record
      _ w ?_
    rw [addJoins, aliases_foldl_join, aliases_newJoins]
    exact List.mem_append_right _ (List.mem_append_right _ List.mem_cons_self)

theorem Orderly.run (h : Orderly s) (hrun : Run σ root mode s t) : Orderly t := by
  induction hrun with
  | refl => exact h
  | tail _ hstep ih =>
    obtain ⟨path, hstep⟩ := hstep
    exact ih.step hstep

theorem Orderly.awaiting (h : Orderly s) (waiting : Option ScopedPredicate) :
    Orderly (s.awaiting waiting) :=
  ⟨h.recorded, h.numbered, h.distinct, h.inScope⟩

theorem Orderly.resolve (h : Orderly s) (path : String) :
    Orderly (resolve σ root path mode s).2 :=
  h.run (walked_resolve σ root path mode s).run

/-- What a plan from a root comes to: paths are resolved one after the other, in any mode and with
any predicate, and some of them fail. -/
inductive Reachable (σ : Schema) (root : Entity) : Planning → Prop
  | start : Reachable σ root
      ⟨.ofRoot root, .ofTable root.table (JoinPlan.ofRoot root).rootAlias, none⟩
  | next {u : Planning} (path : String) (mode : JoinMode) (waiting : Option ScopedPredicate) :
    Reachable σ root u → Reachable σ root (Planning.resolve σ root path mode (u.awaiting waiting)).2

theorem Reachable.orderly (h : Reachable σ root s) : Orderly s := by
  induction h with
  | start =>
    refine ⟨List.Subset.refl _, ?_, List.nodup_singleton _, scoped_nil⟩
    intro x hx
    rw [List.mem_singleton.1 hx]
    exact ⟨1, Nat.le_refl _, numbered_aliasNumbered _ _⟩
  | next path mode waiting _ ih => exact (ih.awaiting waiting).resolve path

end Planning

open Planning in
/-- However paths were resolved, the aliases of FROM and of all joins differ, and each join speaks
of its own alias and of those before it only. The next path that is resolved ends in a column under
one of the aliases. -/
theorem aliases_differ_in_scope (σ : Schema) (root : Entity) (s : Planning)
    (h : Reachable σ root s) :
    s.query.source.aliases.Nodup ∧
    (∀ before j after, s.query.source.joins = before ++ j :: after →
      j.on.Over (Under
        (s.query.source.tableAlias :: before.map Join.tableAlias ++ [j.tableAlias]))) ∧
    ∀ path mode waiting r, (resolve σ root path mode (s.awaiting waiting)).1 = .ok r →
      Under (resolve σ root path mode (s.awaiting waiting)).2.query.source.aliases r.column := by
  refine ⟨h.orderly.distinct, h.orderly.inScope, ?_⟩
  intro path mode waiting r hr
  have hwalked := walked_resolve σ root path mode (s.awaiting waiting)
  have hnext : Orderly (resolve σ root path mode (s.awaiting waiting)).2 :=
    (h.next path mode waiting).orderly
  rw [hr] at hwalked
  obtain ⟨d, there, -, hthere, rfl⟩ := hwalked.of_ok
  exact under_of_mem (hnext.recorded hthere.alias_mem) _

open Planning in
theorem aliases_differ_in_scope_shelf :
    ∃ s, Reachable Shelf.schema Shelf.book s ∧
      s.query.source.aliases = ["book_1", "book_1_authors_2", "authors_2", "editor_3"] ∧
      s.query.source.aliases.Nodup := by
  have hstart : Reachable Shelf.schema Shelf.book Shelf.start := .start
  have hs := (hstart.next "Authors.name" .left none).next "editor.name" .inner none
  refine ⟨_, hs, by decide +kernel, ?_⟩
  exact (aliases_differ_in_scope Shelf.schema Shelf.book _ hs).1

end RecordQuery
