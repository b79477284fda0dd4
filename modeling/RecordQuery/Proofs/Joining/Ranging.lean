import Mathlib.Data.List.Flatten
import RecordQuery.Proofs.Joining.Laying
import RecordQuery.Proofs.Joining.Linked
import RecordQuery.Proofs.Joining.Many
import RecordQuery.Proofs.Joining.Reuse
import RecordQuery.Proofs.Sql.Local

/-!
What a query ranges over. Associations relate rows to rows, and what stands at a path is what its
associations, one after the other, relate the root row to. None of these rows stands there more
often than it is related, unless an association to many rows is joined that the path does not cross;
and none is missing if all joins are LEFT and without predicates.
-/

namespace RecordQuery

open Steps

/-- The rows that an association relates a row to, as LEFT joins go on with them: none stands for a
row that is not there. -/
abbrev Kin (ρ : Type) := Entity → Association → Option ρ → List (Option ρ)

namespace Schema

variable {σ : Schema} {root e target : Entity} {segments behind ahead : List String} {ρ : Type}
  {kin : Kin ρ} {a : Association} {segment : String}

def related (σ : Schema) (kin : Kin ρ) : List String → Entity → Option ρ → List (Option ρ)
  | [], _, x => [x]
  | segment :: rest, e, x =>
    match e.association? (Path.bare segment) with
    | none => []
    | some a =>
      match σ.entity a.target with
      | .error _ => []
      | .ok target => (kin e a x).flatMap (σ.related kin rest target)

def EndsMany (σ : Schema) (root : Entity) (path : String) : Prop :=
  ∃ behind segment e a, σ.Crosses root behind e ∧ e.association? (Path.bare segment) = some a ∧
    a.relation.toMany = true ∧ (∀ name ∈ behind ++ [segment], '.' ∉ name.toList) ∧
    path = Path.along (behind ++ [segment])

theorem endsMany_along (hnamed : σ.Named root) (hcrosses : σ.Crosses root behind e)
    (ha : e.association? (Path.bare segment) = some a)
    (hdots : ∀ name ∈ behind ++ [segment], '.' ∉ name.toList) :
    σ.EndsMany root (Path.along (behind ++ [segment])) ↔ a.relation.toMany = true := by
  refine ⟨?_, fun hmany => ⟨behind, segment, e, a, hcrosses, ha, hmany, hdots, rfl⟩⟩
  rintro ⟨behind', segment', e', a', hcrosses', ha', hmany, hdots', hpath⟩
  have hbare := Path.bare_of_along (hcrosses.named_concat hnamed ha)
    (hcrosses'.named_concat hnamed ha') hdots hdots' hpath
  rw [List.map_append, List.map_append] at hbare
  obtain ⟨hbehind, hsegment⟩ := List.append_inj' hbare rfl
  cases (hcrosses.congr hbehind.symm).unique hcrosses'
  rw [← List.singleton_inj.1 hsegment, ha] at ha'
  cases ha'
  exact hmany

theorem related_hop (ahead : List String) (x : Option ρ)
    (ha : e.association? (Path.bare segment) = some a) (ht : σ.entity a.target = .ok target) :
    σ.related kin (segment :: ahead) e x = (kin e a x).flatMap (σ.related kin ahead target) := by
  simp only [related, ha, ht]

theorem related_append (h : σ.Crosses root behind e) (ahead : List String) (x : Option ρ) :
    σ.related kin (behind ++ ahead) root x
      = (σ.related kin behind root x).flatMap (σ.related kin ahead e) := by
  induction h generalizing ahead with
  | start => simp [related]
  | hop _ ha ht ih =>
    rw [List.append_assoc, ih, ih, List.flatMap_assoc]
    congr 1
    funext y
    rw [List.singleton_append, related_hop _ _ ha ht, related_hop _ _ ha ht, List.flatMap_assoc]
    simp [related]

theorem related_concat (h : σ.Crosses root behind e) (x : Option ρ)
    (ha : e.association? (Path.bare segment) = some a) (ht : σ.entity a.target = .ok target) :
    σ.related kin (behind ++ [segment]) root x
      = (σ.related kin behind root x).flatMap (kin e a) := by
  rw [related_append h]
  congr 1
  funext y
  rw [related_hop _ _ ha ht]
  simp [related]

theorem related_bare (segments : List String) (e : Entity) (x : Option ρ) :
    σ.related kin (segments.map Path.bare) e x = σ.related kin segments e x := by
  induction segments generalizing e x with
  | nil => rfl
  | cons segment rest ih =>
    rw [List.map_cons, related, related, Path.bare_bare]
    cases e.association? (Path.bare segment) with
    | none => rfl
    | some a =>
      cases ht : σ.entity a.target with
      | error _ => simp only [ht]
      | ok target =>
        simp only [ht]
        congr 1
        funext y
        exact ih target y

theorem related_congr {names names' : List String}
    (h : names'.map Path.bare = names.map Path.bare) (e : Entity) (x : Option ρ) :
    σ.related kin names' e x = σ.related kin names e x := by
  rw [← related_bare names', h, related_bare]

end Schema

namespace Planning

structure Joinable (σ : Schema) (root : Entity) (parent : Position) (a : Association)
    (target : Entity) (child : String) (source destination : Attribute) : Prop where
  entity : parent.entity ∈ root :: σ.entities
  association : a ∈ parent.entity.associations
  leads : σ.entity a.target = .ok target
  sourceKey : parent.entity.key a.sourceKey = .ok source
  targetKey : target.key a.targetKey = .ok destination
  parentAlias : Alias parent.tableAlias
  childAlias : Alias child

end Planning

/-- Under whatever aliases an association is joined, its joins go on with rows that it relates the
parent's row to, and no more often; the LEFT joins without predicates go on with all of them. -/
structure Database.Relates {ρ : Type} (db : Database ρ) (σ : Schema) (root : Entity)
    (kin : Kin ρ) : Prop where
  none : ∀ e a, kin e a none = [none]
  single : ∀ {e a x}, e ∈ root :: σ.entities → a ∈ e.associations → a.relation.toMany = false →
    (kin e a x).length = 1
  joined : ∀ {parent : Position} {a : Association} {target : Entity} {child : String}
    {source destination : Attribute} {b : Binding ρ},
    Planning.Joinable σ root parent a target child source destination →
    parent.tableAlias ∈ Fields.keys b → child ∉ Fields.keys b →
    Planning.linkAlias parent child ∉ Fields.keys b → ∀ left conditions,
    ((db.joined (Planning.newJoins parent a target child left source destination conditions)
        [b]).filterMap (Binding.row child)).Sublist
      ((kin parent.entity a (Binding.row parent.tableAlias b)).filterMap id) ∧
    (db.joined (Planning.newJoins parent a target child left source destination conditions)
        [b]).length ≤ (kin parent.entity a (Binding.row parent.tableAlias b)).length ∧
    (left = true → conditions = [] →
      (db.joined (Planning.newJoins parent a target child left source destination conditions)
          [b]).map (Binding.row child)
        = kin parent.entity a (Binding.row parent.tableAlias b))

namespace Planning

variable {σ : Schema} {root e : Entity} {path p : String} {mode : JoinMode} {s t : Planning}
  {here parent : Position} {a : String} {ρ : Type} {db : Database ρ} {kin : Kin ρ} {r : ρ}
  {b : Binding ρ} {segments all behind : List String} {segment : String} {assoc : Association}
  {target : Entity} {left : Bool} {conditions : List Condition}

def Stride (σ : Schema) (root : Entity) (mode : JoinMode) (s t : Planning) : Prop :=
  ∃ path joined, Attempt σ root path mode s (.ok joined) t

abbrev Strides (σ : Schema) (root : Entity) (mode : JoinMode) : Planning → Planning → Prop :=
  Relation.ReflTransGen (Stride σ root mode)

theorem Strides.run (h : Strides σ root mode s t) : Run σ root mode s t :=
  Relation.ReflTransGen.mono
    (fun _ _ ⟨path, joined, hattempt⟩ => ⟨path, .ok joined, hattempt⟩) _ _ h

theorem strides_hop {ahead : List String} {next : Position} (hhere : Standing s here)
    (hpath : Path.segments path = behind ++ segment :: ahead)
    (hlocated : Located σ root behind here)
    (ha : here.entity.association? (Path.bare segment) = some assoc)
    (ht : σ.entity assoc.target = .ok target)
    (h : hop mode segment here assoc target s = (.ok next, t)) : Strides σ root mode s t := by
  unfold hop at h
  obtain ⟨joined, u, hjoinAt, h⟩ := bind_ok h
  cases h
  unfold joinAt at hjoinAt
  rw [hlocated.path, ← Path.along_concat, bind_of_ok (get_apply s)] at hjoinAt
  cases hj : s.plan.joined.get? (Path.along (behind ++ [segment])) with
  | some found =>
    rw [hj] at hjoinAt
    cases hjoinAt
    exact .refl
  | none =>
    rw [hj] at hjoinAt
    have hjoining := joining_joinNew here assoc target (Path.along (behind ++ [segment]))
      (hopIsLeft mode (Path.isOptional segment) here assoc) s
    dsimp only at hjoinAt
    rw [hjoinAt] at hjoining
    exact .single ⟨path, joined, .mk hhere hpath hlocated ha ht hj hjoining⟩

theorem strides_walk {ahead : List String} {x : Resolved} (hhere : Standing s here)
    (hpath : Path.segments path = behind ++ ahead) (hlocated : Located σ root behind here)
    (h : walk σ path mode ahead here s = (.ok x, t)) : Strides σ root mode s t := by
  induction ahead generalizing behind here s with
  | nil => cases h
  | cons segment ahead ih =>
    unfold walk at h
    cases ha : here.entity.association? (Path.bare segment) with
    | none =>
      rw [ha] at h
      rw [endAt_ok h]
    | some a =>
      rw [ha] at h
      dsimp only at h
      split at h
      · cases h
      obtain ⟨target, ht, h⟩ := lift_bind_ok h
      obtain ⟨next, u, hhop, hrest⟩ := bind_ok h
      clear h
      refine (strides_hop hhere hpath hlocated ha ht hhop).trans ?_
      split at hrest
      · obtain ⟨key, -, hkey⟩ := lift_bind_ok hrest
        cases hkey
        exact .refl
      · rcases (hop_cases hhere hpath hlocated ha ht :
            (∃ next u, hop mode segment here a target s = (.ok next, u) ∧ _) ∨ _) with
          ⟨next', u', hhop', -, hnext, hbehind, -⟩ | ⟨_, _, hhop', -⟩
        · cases hhop.symm.trans hhop'
          exact ih hnext (by simpa using hpath) hbehind hrest
        · cases hhop.symm.trans hhop'

theorem strides_resolve {x : Resolved} (h : resolve σ root path mode s = (.ok x, t)) :
    Strides σ root mode s t := by
  unfold resolve at h
  rw [bind_of_ok (get_apply s)] at h
  have hpath : Path.segments path = [] ++ Path.segments path := rfl
  exact strides_walk (.root rfl rfl rfl) hpath ⟨.start, rfl⟩ h

structure Sound (σ : Schema) (root : Entity) (s : Planning) : Prop where
  orderly : Orderly s
  grown : Grown σ root s
  aliases : ∀ a ∈ s.plan.aliases, Alias a

structure Joins (σ : Schema) (root : Entity) (s t : Planning) (parent : Position)
    (behind : List String) (segment : String) (a : Association) (target : Entity) (left : Bool)
    (conditions : List Condition) (js : List Join) : Prop where
  standing : Standing s parent
  located : Located σ root behind parent
  dots : ∀ name ∈ behind ++ [segment], '.' ∉ name.toList
  association : parent.entity.association? (Path.bare segment) = some a
  entity : σ.entity a.target = .ok target
  new : s.plan.joined.get? (Path.along (behind ++ [segment])) = none
  rootAlias : t.plan.rootAlias = s.plan.rootAlias
  plan : t.plan.joined
    = s.plan.joined.insert (Path.along (behind ++ [segment])) ⟨s.childAlias a, left⟩
  tableAlias : t.query.source.tableAlias = s.query.source.tableAlias
  query : t.query.source.joins = s.query.source.joins ++ js
  keys : ∃ source destination, parent.entity.key a.sourceKey = .ok source ∧
    target.key a.targetKey = .ok destination ∧
    js = newJoins parent a target (s.childAlias a) left source destination conditions

theorem Stride.joins (h : Stride σ root mode s t) :
    ∃ parent behind segment a target left conditions js,
      Joins σ root s t parent behind segment a target left conditions js ∧
      (mode = .left → s.waiting = none → left = true ∧ conditions = []) := by
  obtain ⟨path, _, hattempt⟩ := h
  have hstep : Step σ root path mode s t := ⟨_, hattempt⟩
  obtain @⟨parent, behind, segment, ahead, a, target, _, _, hstanding, hpath, hlocated, ha, ht,
    hnew, hjoining⟩ := hattempt
  have hsplit : Path.segments path = (behind ++ [segment]) ++ ahead := by simpa using hpath
  cases hjoining with
  | @joined source destination conditions w hsource hdestination htaken =>
    refine ⟨parent, behind, segment, a, target, _, conditions, _, ⟨hstanding, hlocated,
      Path.not_mem_of_segments hsplit, ha, ht, hnew, hstep.rootAlias, rfl, ?_,
      joins_foldl_join _ _, source, destination, hsource, hdestination, rfl⟩, ?_⟩
    · rw [QueryPair.foldl_join]
    · rintro rfl hwaiting
      rw [hwaiting] at htaken
      cases htaken
      exact ⟨by simp [hopIsLeft], rfl⟩

theorem Stride.extends (h : Stride σ root mode s t) : Extends s t := by
  obtain ⟨path, joined, hattempt⟩ := h
  exact Step.extends ⟨_, hattempt⟩

theorem Sound.stride (h : Sound σ root s) (hstride : Stride σ root mode s t) : Sound σ root t := by
  obtain ⟨path, joined, hattempt⟩ := hstride
  refine ⟨h.orderly.step ⟨_, hattempt⟩, h.grown.step h.orderly ⟨_, hattempt⟩, fun a ha => ?_⟩
  obtain ⟨_, _, _, _, _, _, _, _, hjoins, -⟩ := Stride.joins ⟨path, joined, hattempt⟩
  rw [JoinPlan.aliases, hjoins.plan, hjoins.rootAlias] at ha
  rcases mem_aliases_insert ha with rfl | ha
  · exact .numbered _ _
  · exact h.aliases a ha

theorem Sound.bound (h : Sound σ root s) (ha : a ∈ s.plan.aliases)
    (hb : b ∈ db.around s.query.source r) : a ∈ Fields.keys b :=
  Database.keys_around hb ▸ h.orderly.recorded ha

section Joins

variable {js : List Join}

theorem Joins.joined (h : Joins σ root s t parent behind segment assoc target left conditions js)
    (hs : Sound σ root s) (hdb : db.Relates σ root kin) (hb : b ∈ db.around s.query.source r) :
    ((db.joined js [b]).filterMap (Binding.row (s.childAlias assoc))).Sublist
        ((kin parent.entity assoc (Binding.row parent.tableAlias b)).filterMap id) ∧
      (db.joined js [b]).length
        ≤ (kin parent.entity assoc (Binding.row parent.tableAlias b)).length ∧
      (left = true → conditions = [] →
        (db.joined js [b]).map (Binding.row (s.childAlias assoc))
          = kin parent.entity assoc (Binding.row parent.tableAlias b)) := by
  obtain ⟨source, destination, hsource, hdestination, rfl⟩ := h.keys
  have hfresh : ∀ x, Numbered (s.plan.counter + 1) x → x ∉ Fields.keys b := fun x hx =>
    Database.keys_around hb ▸ hs.orderly.unused hx
  have hchild : Numbered (s.plan.counter + 1) (s.childAlias assoc) := numbered_aliasNumbered _ _
  exact hdb.joined ⟨h.located.crosses.mem, List.mem_of_find?_eq_some h.association, h.entity,
    hsource, hdestination, hs.aliases _ h.standing.alias_mem, .numbered _ _⟩
    (hs.bound h.standing.alias_mem hb) (hfresh _ hchild) (hfresh _ (hchild.append _)) _ _

theorem Joins.standing_cases
    (h : Joins σ root s t parent behind segment assoc target left conditions js)
    (hhere : Standing t here) :
    Standing s here ∨
      here.path = Path.along (behind ++ [segment]) ∧ here.tableAlias = s.childAlias assoc := by
  cases hhere with
  | root ha hp hl => exact .inl (.root (ha.trans h.rootAlias) hp hl)
  | joined hj =>
    rw [h.plan] at hj
    rcases Fields.get?_insert_cases hj with ⟨hp, hj⟩ | hj
    · exact .inr ⟨hp, congrArg JoinedPath.tableAlias hj⟩
    · exact .inl (.joined hj)

theorem Joins.get?_new
    (h : Joins σ root s t parent behind segment assoc target left conditions js) :
    t.plan.joined.get? (Path.along (behind ++ [segment])) = some ⟨s.childAlias assoc, left⟩ := by
  rw [h.plan]
  exact Fields.get?_insert_self _ _ _

end Joins

/-- No path beyond these segments is joined that `all` crosses. -/
def Last (all segments : List String) (s : Planning) : Prop :=
  ∀ more, segments <+: more → more <+: all → more ≠ segments →
    s.plan.joined.get? (Path.along more) = none

def Within (σ : Schema) (root : Entity) (all : List String) (s : Planning) : Prop :=
  ∀ p, (s.plan.joined.get? p).isSome → σ.EndsMany root p →
    ∃ segments, segments <+: all ∧ p = Path.along segments

theorem Within.before (h : Within σ root all t) (hext : Extends s t) : Within σ root all s := by
  intro p hp hmany
  obtain ⟨joined, hj⟩ := Option.isSome_iff_exists.1 hp
  exact h p (by rw [hext.joined hj]; rfl) hmany

theorem Last.before (h : Last all segments t) (hext : Extends s t) : Last all segments s := by
  intro more hmore hmore' hne
  by_contra hsome
  obtain ⟨joined, hj⟩ := Option.ne_none_iff_exists'.1 hsome
  have hnone := h more hmore hmore' hne
  rw [hext.joined hj] at hnone
  cases hnone

section Joins

variable {js : List Join}

theorem Joins.toOne (h : Joins σ root s t parent behind segment assoc target left conditions js)
    (hnamed : σ.Named root) (hs : Sound σ root s) (hall : σ.Crosses root all e)
    (hdots : ∀ name ∈ all, '.' ∉ name.toList) (hwithin : Within σ root all t)
    (hfront : segments <+: all) (hhere : Standing s here) (hpath : here.path = Path.along segments)
    (hlast : Last all segments t) : assoc.relation.toMany = false := by
  rw [← Bool.not_eq_true]
  intro htoMany
  obtain ⟨ys, hys, hpath'⟩ := hwithin _ (by rw [h.get?_new]; rfl)
    ⟨behind, segment, _, assoc, h.located.crosses, h.association, htoMany, h.dots, rfl⟩
  rcases Nat.lt_or_ge segments.length ys.length with hlt | hle
  · have hnone := hlast ys (List.prefix_of_prefix_length_le hfront hys hlt.le) hys
      fun hsame => absurd hlt (by simp [hsame])
    rw [← hpath', h.get?_new] at hnone
    cases hnone
  · obtain ⟨rest, rfl⟩ := List.prefix_of_prefix_length_le hys hfront hle
    obtain ⟨rest', hsplit⟩ := hfront
    rw [← hsplit] at hall
    obtain ⟨e', hcrosses⟩ := hall.of_append
    obtain ⟨there, hthere, hpath''⟩ := hhere.behind hnamed hs.grown hcrosses
      (fun name hname => hdots name (hsplit ▸ List.mem_append_left _ hname)) hpath
    rw [← hpath'] at hpath''
    cases hthere with
    | root _ hempty =>
      exact Path.along_ne_empty (h.located.crosses.named_concat hnamed h.association)
        h.dots (by simp) (hpath''.symm.trans hempty)
    | joined hj =>
      rw [hpath'', h.new] at hj
      cases hj

theorem Joins.parent_last
    (h : Joins σ root s t parent behind segment assoc target left conditions js)
    (hext : Extends s t) (hnamed : σ.Named root) (hall : σ.Crosses root all e)
    (hdots : ∀ name ∈ all, '.' ∉ name.toList) (hfront : segments <+: all)
    (hpath : Path.along (behind ++ [segment]) = Path.along segments) (hlast : Last all segments t)
    (kin : Kin ρ) :
    ∃ xs, xs <+: all ∧ parent.path = Path.along xs ∧ Last all xs s ∧
      ∀ x : Option ρ, σ.related kin segments root x
        = (σ.related kin xs root x).flatMap (kin parent.entity assoc) := by
  obtain ⟨rest, hsplit⟩ := hfront
  have hcrosses := hall
  rw [← hsplit] at hcrosses
  obtain ⟨e', hcrosses⟩ := hcrosses.of_append
  have hdots' : ∀ name ∈ segments, '.' ∉ name.toList :=
    fun name hname => hdots name (hsplit ▸ List.mem_append_left _ hname)
  have hbare := Path.bare_of_along (hcrosses.named hnamed)
    (h.located.crosses.named_concat hnamed h.association) hdots' h.dots hpath.symm
  have hrelated : ∀ x : Option ρ, σ.related kin segments root x
      = (σ.related kin behind root x).flatMap (kin parent.entity assoc) := by
    intro x
    rw [Schema.related_congr hbare, Schema.related_concat h.located.crosses _ h.association
      h.entity]
  rw [List.map_append] at hbare
  obtain ⟨xs, last, rfl, hxs, hlast'⟩ := List.map_eq_append_iff.1 hbare
  obtain ⟨y, rfl, -⟩ := List.map_eq_singleton_iff.1 hlast'
  refine ⟨xs, ⟨[y] ++ rest, by rw [← List.append_assoc, hsplit]⟩,
    by rw [h.located.path, Path.along, Path.along, hxs], fun more hmore hmore' hne => ?_,
    fun x => by rw [hrelated, Schema.related_congr hxs]⟩
  -- a longer path of `all` is the new one, or lies beyond it
  have hlength : (xs ++ [y]).length ≤ more.length := by
    have hlt := lt_of_le_of_ne hmore.length_le fun hsame => hne (hmore.eq_of_length hsame).symm
    rw [List.length_append, List.length_singleton]
    exact hlt
  by_cases hsame : more = xs ++ [y]
  · rw [hsame, ← hpath]
    exact h.new
  · exact hlast.before hext more (List.prefix_of_prefix_length_le ⟨rest, hsplit⟩ hmore' hlength)
      hmore' hsame

end Joins

/-- At the last path that is joined of those that segments cross, no row stands more often than it
is related. -/
def Bounded (σ : Schema) (root : Entity) (db : Database ρ) (kin : Kin ρ) (all : List String)
    (s : Planning) : Prop :=
  ∀ r segments here, segments <+: all → Standing s here → here.path = Path.along segments →
    Last all segments s →
    ((db.around s.query.source r).filterMap (Binding.row here.tableAlias)).Sublist
      ((σ.related kin segments root (some r)).filterMap id)

/-- At the last path that is joined of those that segments cross, the rows stand that it is related
to, each as often as it is related. -/
def Ranges (σ : Schema) (root : Entity) (db : Database ρ) (kin : Kin ρ) (all : List String)
    (s : Planning) : Prop :=
  ∀ r segments here, segments <+: all → Standing s here → here.path = Path.along segments →
    Last all segments s → (db.around s.query.source r).map (Binding.row here.tableAlias)
      = σ.related kin segments root (some r)

section Joins

variable {js : List Join}

theorem Joins.filterMap_one
    (h : Joins σ root s t parent behind segment assoc target left conditions js)
    (hs : Sound σ root s) (hdb : db.Relates σ root kin) (hone : assoc.relation.toMany = false)
    (ha : a ∈ s.plan.aliases) :
    ((db.around t.query.source r).filterMap (Binding.row a)).Sublist
      ((db.around s.query.source r).filterMap (Binding.row a)) := by
  rw [Database.around_append h.tableAlias h.query, List.filterMap_flatMap,
    List.filterMap_eq_flatMap_toList]
  refine List.Sublist.flatMap_right _ fun b hb => ?_
  have hlength : (db.joined js [b]).length ≤ 1 := by
    rw [← hdb.single h.located.crosses.mem (List.mem_of_find?_eq_some h.association) hone]
    exact (h.joined hs hdb hb).2.1
  rcases Nat.le_one_iff_eq_zero_or_eq_one.1 hlength with hlength | hlength
  · rw [List.length_eq_zero_iff.1 hlength]
    exact List.nil_sublist _
  · obtain ⟨b₁, hb₁⟩ := List.length_eq_one_iff.1 hlength
    rw [hb₁, List.filterMap_eq_flatMap_toList, List.flatMap_singleton,
      Database.row_joined (hb₁ ▸ List.mem_cons_self) (hs.bound ha hb)]

theorem Joins.map_one
    (h : Joins σ root s t parent behind segment assoc target true [] js)
    (hs : Sound σ root s) (hdb : db.Relates σ root kin) (hone : assoc.relation.toMany = false)
    (ha : a ∈ s.plan.aliases) :
    (db.around t.query.source r).map (Binding.row a)
      = (db.around s.query.source r).map (Binding.row a) := by
  rw [Database.around_append h.tableAlias h.query, List.map_flatMap, List.map_eq_flatMap]
  refine List.flatMap_congr fun b hb => ?_
  have hlength : (db.joined js [b]).length = 1 := by
    rw [← hdb.single h.located.crosses.mem (List.mem_of_find?_eq_some h.association) hone,
      ← (h.joined hs hdb hb).2.2 rfl rfl, List.length_map]
  obtain ⟨b₁, hb₁⟩ := List.length_eq_one_iff.1 hlength
  rw [hb₁, List.map_singleton, Database.row_joined (hb₁ ▸ List.mem_cons_self) (hs.bound ha hb)]

theorem flatMap_kin {α : Type} (hdb : db.Relates σ root kin) (e : Entity) (a : Association)
    (f : α → Option ρ) (xs : List α) :
    (xs.flatMap fun x => (kin e a (f x)).filterMap id)
      = (xs.filterMap f).flatMap fun y => (kin e a (some y)).filterMap id := by
  rw [List.filterMap_eq_flatMap_toList, List.flatMap_assoc]
  refine List.flatMap_congr fun x _ => ?_
  cases f x with
  | none => rw [hdb.none]; rfl
  | some y => simp

theorem Joins.filterMap_child
    (h : Joins σ root s t parent behind segment assoc target left conditions js)
    (hs : Sound σ root s) (hdb : db.Relates σ root kin) {rows : List (Option ρ)}
    (hparent : ((db.around s.query.source r).filterMap (Binding.row parent.tableAlias)).Sublist
      (rows.filterMap id)) :
    ((db.around t.query.source r).filterMap (Binding.row (s.childAlias assoc))).Sublist
      ((rows.flatMap (kin parent.entity assoc)).filterMap id) := by
  have hrelated : ((rows.flatMap (kin parent.entity assoc)).filterMap id)
      = (rows.filterMap id).flatMap fun y => (kin parent.entity assoc (some y)).filterMap id := by
    rw [List.filterMap_flatMap]
    exact flatMap_kin hdb parent.entity assoc id rows
  rw [Database.around_append h.tableAlias h.query, List.filterMap_flatMap, hrelated]
  refine (List.Sublist.flatMap_right _ fun b hb => (h.joined hs hdb hb).1).trans ?_
  rw [flatMap_kin hdb parent.entity assoc (Binding.row parent.tableAlias)]
  exact hparent.flatMap _

theorem Joins.map_child
    (h : Joins σ root s t parent behind segment assoc target true [] js)
    (hs : Sound σ root s) (hdb : db.Relates σ root kin) {rows : List (Option ρ)}
    (hparent : (db.around s.query.source r).map (Binding.row parent.tableAlias) = rows) :
    (db.around t.query.source r).map (Binding.row (s.childAlias assoc))
      = rows.flatMap (kin parent.entity assoc) := by
  rw [Database.around_append h.tableAlias h.query, List.map_flatMap, ← hparent, List.flatMap_map]
  exact List.flatMap_congr fun b hb => (h.joined hs hdb hb).2.2 rfl rfl

end Joins

theorem Bounded.stride (h : Bounded σ root db kin all s) (hnamed : σ.Named root)
    (hs : Sound σ root s) (hdb : db.Relates σ root kin) (hall : σ.Crosses root all e)
    (hdots : ∀ name ∈ all, '.' ∉ name.toList) (hwithin : Within σ root all t)
    (hstride : Stride σ root mode s t) : Bounded σ root db kin all t := by
  intro r segments here hfront hhere hpath hlast
  obtain ⟨parent, behind, segment, assoc, target, left, conditions, js, hjoins, -⟩ := hstride.joins
  rcases hjoins.standing_cases hhere with hold | ⟨hnew, halias⟩
  · have hone := hjoins.toOne hnamed hs hall hdots hwithin hfront hold hpath hlast
    exact (hjoins.filterMap_one hs hdb hone hold.alias_mem).trans
      (h r segments here hfront hold hpath (hlast.before hstride.extends))
  · obtain ⟨xs, hxs, hparent, hbefore, hrelated⟩ := hjoins.parent_last
      hstride.extends hnamed hall hdots hfront (hnew.symm.trans hpath) hlast kin
    rw [halias, hrelated]
    exact hjoins.filterMap_child hs hdb (h r xs parent hxs hjoins.standing hparent hbefore)

theorem Ranges.stride (h : Ranges σ root db kin all s) (hnamed : σ.Named root)
    (hs : Sound σ root s) (hdb : db.Relates σ root kin) (hall : σ.Crosses root all e)
    (hdots : ∀ name ∈ all, '.' ∉ name.toList) (hwithin : Within σ root all t)
    (hwaiting : s.waiting = none) (hstride : Stride σ root .left s t) :
    Ranges σ root db kin all t := by
  intro r segments here hfront hhere hpath hlast
  obtain ⟨parent, behind, segment, assoc, target, left, conditions, js, hjoins, hleft⟩ :=
    hstride.joins
  obtain ⟨rfl, rfl⟩ := hleft rfl hwaiting
  rcases hjoins.standing_cases hhere with hold | ⟨hnew, halias⟩
  · have hone := hjoins.toOne hnamed hs hall hdots hwithin hfront hold hpath hlast
    rw [hjoins.map_one hs hdb hone hold.alias_mem]
    exact h r segments here hfront hold hpath (hlast.before hstride.extends)
  · obtain ⟨xs, hxs, hparent, hbefore, hrelated⟩ := hjoins.parent_last
      hstride.extends hnamed hall hdots hfront (hnew.symm.trans hpath) hlast kin
    rw [halias, hrelated]
    exact hjoins.map_child hs hdb (h r xs parent hxs hjoins.standing hparent hbefore)

/-- What is known of the rows at the paths that `all` crosses, exactly if no join is narrower than a
plain one. -/
structure Measured (σ : Schema) (root : Entity) (db : Database ρ) (kin : Kin ρ) (all : List String)
    (plain : Prop) (s : Planning) : Prop where
  sound : Sound σ root s
  bounded : Within σ root all s → Bounded σ root db kin all s
  ranges : plain → Within σ root all s → Ranges σ root db kin all s

theorem Measured.strides {plain : Prop} (h : Measured σ root db kin all plain s)
    (hnamed : σ.Named root) (hdb : db.Relates σ root kin) (hall : σ.Crosses root all e)
    (hdots : ∀ name ∈ all, '.' ∉ name.toList) (hplain : plain → mode = .left ∧ s.waiting = none)
    (hstrides : Strides σ root mode s t) : Measured σ root db kin all plain t := by
  have hsteps : Measured σ root db kin all plain t ∧ (plain → t.waiting = none) := by
    induction hstrides with
    | refl => exact ⟨h, fun hp => (hplain hp).2⟩
    | tail _ hstride ih =>
      obtain ⟨ih, hwaiting⟩ := ih
      refine ⟨⟨ih.sound.stride hstride, fun hwithin => ?_, fun hp hwithin => ?_⟩, fun hp => ?_⟩
      · exact (ih.bounded (hwithin.before hstride.extends)).stride hnamed ih.sound hdb hall hdots
          hwithin hstride
      · obtain ⟨rfl, -⟩ := hplain hp
        exact (ih.ranges hp (hwithin.before hstride.extends)).stride hnamed ih.sound hdb hall hdots
          hwithin (hwaiting hp) hstride
      · obtain ⟨path, joined, hattempt⟩ := hstride
        exact Step.unscoped ⟨_, hattempt⟩ (hwaiting hp)
  exact hsteps.1

theorem Measured.same {plain : Prop} (h : Measured σ root db kin all plain s)
    (hsound : Sound σ root t) (hplan : t.plan = s.plan)
    (halias : t.query.source.tableAlias = s.query.source.tableAlias)
    (hjoins : t.query.source.joins = s.query.source.joins) :
    Measured σ root db kin all plain t := by
  have hext : Extends t s :=
    ⟨congrArg JoinPlan.rootAlias hplan.symm, fun hj => hplan ▸ hj, hjoins ▸ List.prefix_rfl⟩
  have hback : Extends s t :=
    ⟨congrArg JoinPlan.rootAlias hplan, fun hj => hplan ▸ hj, hjoins ▸ List.prefix_rfl⟩
  have haround : ∀ r, db.around t.query.source r = db.around s.query.source r := by
    intro r
    unfold Database.around
    rw [halias, hjoins]
  refine ⟨hsound, fun hwithin r segments here hfront hhere hpath hlast => ?_,
    fun hp hwithin r segments here hfront hhere hpath hlast => ?_⟩
  · rw [haround]
    exact h.bounded (hwithin.before hback) r segments here hfront (hhere.extends hext) hpath
      (hlast.before hback)
  · rw [haround]
    exact h.ranges hp (hwithin.before hback) r segments here hfront (hhere.extends hext) hpath
      (hlast.before hback)

theorem Measured.start {plain : Prop} (hnamed : σ.Named root) (hsound : Sound σ root s)
    (hall : σ.Crosses root all e) (hdots : ∀ name ∈ all, '.' ∉ name.toList)
    (hjoined : s.plan.joined = []) (hjoins : s.query.source.joins = [])
    (halias : s.query.source.tableAlias = s.plan.rootAlias) :
    Measured σ root db kin all plain s := by
  have hroot : ∀ r segments here, segments <+: all → Standing s here →
      here.path = Path.along segments →
      (db.around s.query.source r).map (Binding.row here.tableAlias)
        = σ.related kin segments root (some r) := by
    intro r segments here hfront hhere hpath
    obtain ⟨rest, hsplit⟩ := hfront
    rw [← hsplit] at hall
    obtain ⟨e', hcrosses⟩ := hall.of_append
    cases hhere with
    | joined hj =>
      rw [hjoined] at hj
      cases hj
    | root ha hempty =>
      have hnil : segments = [] := by
        by_contra hne
        exact Path.along_ne_empty (hcrosses.named hnamed)
          (fun name hname => hdots name (hsplit ▸ List.mem_append_left _ hname)) hne
          (hpath.symm.trans hempty)
      unfold Database.around
      rw [hnil, ha, hjoins, halias]
      simp [Database.joined, Schema.related, Binding.row, Fields.get?]
  refine ⟨hsound, fun _ r segments here hfront hhere hpath _ => ?_,
    fun _ _ r segments here hfront hhere hpath _ => hroot r segments here hfront hhere hpath⟩
  rw [← hroot r segments here hfront hhere hpath, List.filterMap_map]
  exact List.Sublist.refl _

end Planning

end RecordQuery
