import RecordQuery.Proofs.Criteria.Any
import RecordQuery.Proofs.Joining.Companions

namespace RecordQuery

open Steps

namespace Compilation

variable {s : Setting} {M : JoinMode → Prop} {bag : Value} {single : Bool} {base path : String}
  {c c' u : Compilation} {spec : CriteriaSpec} {item : Criterion} {o : Option (Predicate × Bool)}

/-- What a criterion comes to: a predicate of a column at the position where its path leads, and
whether many rows are there. -/
inductive Lands (s : Setting) (bag : Value) (single : Bool) (base : String) (c : Compilation)
    (item : Criterion) : Option (Predicate × Bool) → Prop
  | missing {uses} : (item.value? bag single uses).1 = none → item.operator.takesValue = true →
    Lands s bag single base c item none
  | found {uses value d there p} : (item.value? bag single uses).1 = value →
    (value = none → item.operator.takesValue = false) →
    s.schema.destination s.root (Path.under base item.path) = .ok d →
    Planning.Standing (c.planning none) there →
    Planning.Located s.schema s.root (d.crossed (Path.under base item.path)) there →
    item.operator.predicate (qualified there.tableAlias d.leaf.column) (value.getD .null)
      item.parameter = .ok p →
    Lands s bag single base c item (some (p, s.schema.leadsToMany s.root there.path))

theorem Lands.extends (h : Lands s bag single base c item o)
    (hext : Planning.Extends (c.planning none) (c'.planning none)) :
    Lands s bag single base c' item o := by
  cases h with
  | missing hv ht => exact .missing hv ht
  | found hv ht hd hstanding hlocated hp =>
    exact .found hv ht hd (hstanding.extends hext) hlocated hp

theorem Lands.same (h : Lands s bag single base c item o) (hplan : c'.plan = c.plan) :
    Lands s bag single base c' item o := by
  cases h with
  | missing hv ht => exact .missing hv ht
  | found hv ht hd hstanding hlocated hp =>
    refine .found hv ht hd ?_ hlocated hp
    cases hstanding with
    | root ha hroot hl => exact .root (ha.trans (congrArg JoinPlan.rootAlias hplan).symm) hroot hl
    | joined hj =>
      refine .joined (Eq.trans ?_ hj)
      unfold planning
      rw [hplan]

theorem Lands.over {items : List Criterion} {found : List (Option (Predicate × Bool))}
    (h : List.Forall₂ (Lands s bag single base c) items found) {p : Predicate}
    (hp : some (p, false) ∈ found) :
    p.condition.Over (Under (c.plan.single s.schema s.root)) := by
  obtain ⟨item, h⟩ : ∃ item, Lands s bag single base c item (some (p, false)) := by
    induction h with
    | nil => cases hp
    | cons hitem _ ih =>
      rcases List.mem_cons.1 hp with rfl | hp
      · exact ⟨_, hitem⟩
      · exact ih hp
  generalize ho : some (p, false) = o at h
  cases h with
  | missing => cases ho
  | found _ _ _ hstanding _ hp =>
    obtain ⟨rfl, hone⟩ := Prod.mk.inj (Option.some.inj ho)
    exact Operator.over_predicate (under_of_mem (hstanding.mem_single hone.symm) _) hp

theorem Lands.standing_iff {p : Predicate} {many : Bool}
    (h : Lands s bag single base c item (some (p, many))) :
    (∃ d, p = .standing d) ↔ item.operator = .between := by
  cases h with
  | found _ _ _ _ _ hp => exact Operator.standing_iff hp

theorem Rests.trans (h : Rests c u) (h' : Rests u c') : Rests c c' :=
  ⟨h'.filter.trans h.filter, h'.having.trans h.having, h'.grouped.trans h.grouped⟩

theorem criterion_lands (hnamed : s.schema.Named s.root)
    (h : criterion s bag single base item c = (.ok o, c')) :
    Rests c c' ∧ Planning.Extends (c.planning none) (c'.planning none) ∧
      Lands s bag single base c' item o := by
  obtain ⟨value, hv, ⟨rfl, rfl, htakes, rfl⟩ | ⟨r, p, hnone, hr, hp, rfl⟩⟩ := criterion_ok h
  · exact ⟨⟨rfl, rfl, rfl⟩, ⟨rfl, id, List.prefix_rfl⟩, .missing hv htakes⟩
  · obtain ⟨x, t, hwalked, heq⟩ := resolve_walked s (Path.under base item.path) .left
      { c with uses := (item.value? bag single c.uses).2 }
    rw [heq] at hr
    generalize hd : s.schema.destination s.root (Path.under base item.path) = dest at hwalked
    cases hwalked with
    | astray => cases hr
    | stuck => cases hr
    | @arrived d t there htrail hthere hlocated =>
      cases hr
      have hrun := Planning.Trail.run htrail
      have hrests := rests_planned hrun
      have hext := hrun.extends
      have hflag : d.toMany = s.schema.leadsToMany s.root there.path := by
        rw [hlocated.path]
        exact (Schema.leadsToMany_destination hnamed hd hlocated.crosses).symm
      refine ⟨⟨hrests.filter, hrests.having, hrests.grouped⟩,
        ⟨hext.rootAlias, hext.joined, hext.joins⟩, ?_⟩
      -- counting uses is no matter of planning, so the walk ends in the state that is left
      have hstanding : Planning.Standing (((({ c with
          uses := (item.value? bag single c.uses).2 } : Compilation)).planned t).planning none)
          there := hthere.extends ⟨rfl, id, List.prefix_rfl⟩
      have hlands : Lands s bag single base _ item
          (some (p, s.schema.leadsToMany s.root there.path)) :=
        .found hv hnone hd hstanding hlocated hp
      rw [← hflag] at hlands
      exact hlands

theorem mapM_lands (hnamed : s.schema.Named s.root) {items : List Criterion}
    {os : List (Option (Predicate × Bool))}
    (h : items.mapM (criterion s bag single base) c = (.ok os, c')) :
    Rests c c' ∧ Planning.Extends (c.planning none) (c'.planning none) ∧
      List.Forall₂ (Lands s bag single base c') items os := by
  induction items generalizing c os with
  | nil =>
    cases h
    exact ⟨⟨rfl, rfl, rfl⟩, .refl _, .nil⟩
  | cons item items ih =>
    obtain ⟨o, u, os, ho, hos, rfl⟩ := mapM_cons_ok h
    obtain ⟨hrests, hext, hlands⟩ := criterion_lands hnamed ho
    obtain ⟨hrests', hext', hall⟩ := ih hos
    exact ⟨hrests.trans hrests', hext.trans hext', .cons (hlands.extends hext') hall⟩

theorem placeAll_groups (connective : Connective) {found : List (Predicate × Bool)}
    (hc : c.grouped = true) (hmany : found.any Prod.snd = true) {ps : Predicates}
    (hps : (found.map Prod.fst).foldl Predicates.push .empty = ps) :
    ∃ u, placeAll s connective found c = (.ok ⟨⟩, u) ∧ u.plan = c.plan ∧
      (ps.expression = [] → u.query.source.having = c.query.source.having) ∧
      (ps.expression ≠ [] → u.query.source.having = Source.conjoin c.query.source.having
        (someRow s.dialect (.combine connective ps.expression))) ∧
      u.query.source.filter = ps.statement.foldl Source.conjoin c.query.source.filter := by
  have hplace : ∀ d, place s (found.any Prod.snd) d c
      = (.ok ⟨⟩, { c with query := c.query.addHaving (someRow s.dialect d) }) := by
    intro d
    simp [place, modify_apply, hc, hmany]
  have hpure : (pure () : Steps Compilation Unit) c = (.ok (), c) := rfl
  unfold placeAll
  rw [hps]
  cases hexpression : ps.expression with
  | nil =>
    refine ⟨_, (bind_of_ok hpure).trans (forM_addFilter _ _), rfl, fun _ => ?_,
      fun h => absurd rfl h, ?_⟩ <;> rw [QueryPair.foldl_addFilter]
  | cons d ds =>
    refine ⟨_, (bind_of_ok (hplace _)).trans (forM_addFilter _ _), rfl,
      fun h => absurd h (List.cons_ne_nil d ds), fun _ => ?_, ?_⟩ <;>
      rw [QueryPair.foldl_addFilter] <;> rfl

theorem placeAll_divides {connective : Connective} {found : List (Option (Predicate × Bool))}
    (hc : c.grouped = true) (h : placeAll s connective (found.filterMap id) c = (.ok ⟨⟩, c')) :
    ∃ asked added : List Condition, c'.plan = c.plan ∧
      (∀ d, d ∈ asked ↔ ∃ many, some (.combined d, many) ∈ found) ∧
      ((∃ p, some (p, true) ∈ found) → asked ≠ [] → c'.query.source.having =
        Source.conjoin c.query.source.having (someRow s.dialect (.combine connective asked))) ∧
      ((∀ p, some (p, true) ∉ found) → c'.query.source.having = c.query.source.having) ∧
      c'.query.source.filter = added.foldl Source.conjoin c.query.source.filter ∧
      (∀ d many, some (.standing d, many) ∈ found → d ∈ added) ∧
      ∀ d ∈ added, (∃ many, some (.standing d, many) ∈ found) ∨
        (∀ p, some (p, true) ∉ found) ∧ d = .combine connective asked := by
  -- `push` parts the conditions under the connective from the ranges
  generalize hps : ((found.filterMap id).map Prod.fst).foldl Predicates.push .empty = ps
  have hasked : ∀ d, d ∈ ps.expression ↔ ∃ many, some (.combined d, many) ∈ found := by
    intro d
    rw [← hps, (Predicates.foldl_push _ _ d).1]
    simp [Predicates.empty]
  have hranges : ∀ d, d ∈ ps.statement ↔ ∃ many, some (.standing d, many) ∈ found := by
    intro d
    rw [← hps, (Predicates.foldl_push _ _ d).2]
    simp [Predicates.empty]
  have hany : (found.filterMap id).any Prod.snd = true ↔ ∃ p, some (p, true) ∈ found := by
    rw [List.any_eq_true]
    constructor
    · rintro ⟨⟨p, many⟩, hmem, rfl⟩
      exact ⟨p, by simpa using hmem⟩
    · rintro ⟨p, hp⟩
      exact ⟨(p, true), by simpa using hp, rfl⟩
  -- one predicate over many rows takes all that is under the connective to HAVING
  by_cases hmany : (found.filterMap id).any Prod.snd = true
  · obtain ⟨u, hu, hplan, -, hhaving, hfilter⟩ := placeAll_groups (s := s) connective hc hmany hps
    rw [hu] at h
    cases h
    exact ⟨ps.expression, ps.statement, hplan, hasked, fun _ hne => hhaving hne,
      fun hnone => absurd (hany.1 hmany) (by simpa using hnone), hfilter,
      fun d many hd => (hranges d).2 ⟨many, hd⟩, fun d hd => .inl ((hranges d).1 hd)⟩
  · have hnone : ∀ p, some (p, true) ∉ found := fun p hp => hmany (hany.2 ⟨p, hp⟩)
    rw [placeAll_filters _ _ (by rw [Bool.eq_false_iff.2 hmany, Bool.false_and]), hps] at h
    cases h
    refine ⟨ps.expression, ps.added connective, rfl, hasked,
      fun h => h.elim fun p hp => absurd hp (hnone p), fun _ => by rw [QueryPair.foldl_addFilter],
      by rw [QueryPair.foldl_addFilter],
      fun d many hd => List.mem_append_right _ ((hranges d).2 ⟨many, hd⟩), fun d hd => ?_⟩
    rcases List.mem_append.1 hd with hd | hd
    · split at hd
      · cases hd
      · exact .inr ⟨hnone, List.mem_singleton.1 hd⟩
    · exact .inl ((hranges d).1 hd)

/-- Criteria on groups. If a predicate that was found is over many rows, the conditions under the
connective ask for some row of the group that satisfies them. The filter gains every range, and
besides conditions over aliases that belong to one row only, which are those of no join of a path to
many rows. So without a range over many rows the filter keeps all that is joined to a row of the
root, or nothing of it, if it did so before; provided that associations to one row determine it, and
that conditions speak of their aliases only. -/
theorem many_rows_stay_together {pool : Pool} {uses : Nat} (hnamed : s.schema.Named s.root)
    (hc : Evolved s (fun _ => True) (start s pool uses) c) (hgrouped : c.grouped = true)
    (h : criteria s spec bag base c = (.ok ⟨⟩, c')) :
    ∃ (found : List (Option (Predicate × Bool))) (asked added : List Condition),
      List.Forall₂ (fun item o => Lands s bag (spec.items.length = 1) base c' item o ∧
        ∀ p many, o = some (p, many) → ((∃ d, p = .standing d) ↔ item.operator = .between))
        spec.items found ∧
      (∀ d, d ∈ asked ↔ ∃ many, some (.combined d, many) ∈ found) ∧
      ((∃ p, some (p, true) ∈ found) → asked ≠ [] → c'.query.source.having =
        Source.conjoin c.query.source.having
          (someRow s.dialect (.combine spec.connective asked))) ∧
      ((∀ p, some (p, true) ∉ found) → c'.query.source.having = c.query.source.having) ∧
      c'.query.source.filter = added.foldl Source.conjoin c.query.source.filter ∧
      (∀ d many, some (.standing d, many) ∈ found → d ∈ added) ∧
      (∀ d ∈ added, d.Over (Under (c'.plan.single s.schema s.root)) ∨
        some (.standing d, true) ∈ found) ∧
      (∀ p joined parent js, c'.plan.joined.get? p = some joined →
        Planning.Hangs s.schema s.root (c'.planning none) parent p joined js →
        s.schema.leadsToMany s.root p = true →
        ∀ j ∈ js, j.tableAlias ∉ c'.plan.single s.schema s.root) ∧
      ((∀ d, some (.standing d, true) ∉ found) → ∀ {ρ : Type} (db : Database ρ),
        (∀ d ∈ added, db.Sees d) → Planning.Determined s.schema s.root db (c'.planning none) →
        ∀ r, ∀ b ∈ db.around c'.query.source r, ∀ b' ∈ db.around c'.query.source r,
          c.query.source.filter.all (db.satisfies b) = c.query.source.filter.all (db.satisfies b') →
          c'.query.source.filter.all (db.satisfies b)
            = c'.query.source.filter.all (db.satisfies b')) := by
  obtain ⟨found, u, hfound, hplace⟩ := bind_ok h
  obtain ⟨hrests, -, hlands⟩ := mapM_lands hnamed hfound
  obtain ⟨asked, added, hplan, hasked, hhaving, hhaving', hfilter, hranges, hadded⟩ :=
    placeAll_divides (hrests.grouped.trans hgrouped) hplace
  rw [hrests.having] at hhaving hhaving'
  rw [hrests.filter] at hfilter
  have hstart : Planted s (start s pool uses) := planted_start s pool uses
  have hevolved : Evolved s (fun _ => True) (start s pool uses) c' :=
    hc.trans (evolved_of_ok (evolved_criteria trivial spec bag base) h)
  have hplanted := Evolved.planted hstart hevolved
  have hlanded : List.Forall₂ (Lands s bag (spec.items.length = 1) base c') spec.items found :=
    hlands.imp fun _ _ hitem => hitem.same hplan
  have hanswers : List.Forall₂ (fun item o => Lands s bag (spec.items.length = 1) base c' item o ∧
      ∀ p many, o = some (p, many) → ((∃ d, p = .standing d) ↔ item.operator = .between))
      spec.items found := by
    refine hlanded.imp fun item o hitem => ⟨hitem, ?_⟩
    rintro p many rfl
    exact hitem.standing_iff
  -- only where no predicate is over many rows does the connective reach the filter
  have hone : ∀ d ∈ added, d.Over (Under (c'.plan.single s.schema s.root)) ∨
      some (.standing d, true) ∈ found := by
    intro d hd
    rcases hadded d hd with ⟨many, hrange⟩ | ⟨hnone, rfl⟩
    · cases many with
      | true => exact .inr hrange
      | false => exact .inl (Lands.over hlanded hrange)
    · refine .inl (Condition.over_combine fun d hd => ?_)
      obtain ⟨many, hd⟩ := (hasked d).1 hd
      cases many with
      | true => exact absurd hd (hnone _)
      | false => exact Lands.over hlanded hd
  refine ⟨found, asked, added, hanswers, hasked, hhaving, hhaving', hfilter, hranges, hone,
    ?_, ?_⟩
  · intro p joined parent js hj hparent hmany j hmem
    exact hparent.not_mem_single hj (hevolved.counted hstart (counted_start s pool uses))
      hplanted.orderly hplanted.grown hmany hmem
  -- companions agree on the aliases of single rows, and the new conditions see no others
  · intro hno ρ db hsees hdb r b hb b' hb' hbefore
    have hagree := hevolved.companions hnamed hstart hdb (companions_start s pool uses db) r b hb
      b' hb'
    rw [hfilter]
    refine Database.satisfies_conjoin_congr hbefore fun d hd => ?_
    rcases hone d hd with hd' | hd'
    · exact hsees d hd _ hd' b b' hagree
    · exact absurd hd' (hno d)

def writtenAndDiscussed : CriteriaSpec :=
  ⟨.and, [⟨"name", "author.name", .equal, none⟩, ⟨"body", "comments.body", .equal, none⟩]⟩

def annAndYes : Value := .record [("name", .text "Ann"), ("body", .text "yes")]

theorem many_rows_stay_together_blog :
    blog.schema.Named blog.root ∧
    ∃ c c', Evolved blog (fun _ => True) (start blog [] 0) c ∧ c.grouped = true ∧
      criteria blog writtenAndDiscussed annAndYes "" c = (.ok ⟨⟩, c') ∧
      c'.query.source.having.map (·.fragment.sql) = some ("SUM(CASE WHEN " ++
        "(author_3.user_name = ? AND comments_2.body = ?)" ++ " THEN 1 ELSE 0 END) > 0") ∧
      ∃ added : List Condition,
        c'.query.source.filter = added.foldl Source.conjoin c.query.source.filter ∧
        ∀ d ∈ added, d.Over (Under ["post_1", "author_3"]) := by
  have hnamed : blog.schema.Named blog.root := by
    unfold Schema.Named
    decide
  obtain ⟨c, hc⟩ := ok_of_toOption (m := projection blog Blog.listing) (s := start blog [] 0)
    (a := true) (by decide +kernel)
  have hevolved : Evolved blog (fun _ => True) (start blog [] 0) c :=
    evolved_of_ok (evolved_projection trivial fun _ _ _ _ _ => trivial) hc
  have hstate : c = (projection blog Blog.listing (start blog [] 0)).2 := by rw [hc]
  have hgrouped : c.grouped = true := by
    rw [hstate]
    decide +kernel
  obtain ⟨c', hc'⟩ := ok_of_toOption (m := criteria blog writtenAndDiscussed annAndYes "") (s := c)
    (a := ⟨⟩) (by rw [hstate]; decide +kernel)
  have hstate' : c' = (criteria blog writtenAndDiscussed annAndYes "" c).2 := by rw [hc']
  have hhaving : c'.query.source.having.map (·.fragment.sql) = some ("SUM(CASE WHEN " ++
      "(author_3.user_name = ? AND comments_2.body = ?)" ++ " THEN 1 ELSE 0 END) > 0") := by
    rw [hstate', hstate]
    decide +kernel
  have hsingle : c'.plan.single blog.schema blog.root = ["post_1", "author_3"] := by
    rw [hstate', hstate]
    decide +kernel
  obtain ⟨found, asked, added, hfound, -, -, -, hfilter, -, hadded, -⟩ :=
    many_rows_stay_together hnamed hevolved hgrouped hc'
  refine ⟨hnamed, c, c', hevolved, hgrouped, hc', hhaving, added, hfilter, fun d hd => ?_⟩
  rcases hadded d hd with hover | hrange
  · rwa [hsingle] at hover
  · -- neither of the two criteria is a range
    cases hfound with
    | cons hname hrest =>
      cases hrest with
      | cons hbody hnil =>
        cases hnil
        simp only [List.mem_cons, List.not_mem_nil, or_false] at hrange
        rcases hrange with hrange | hrange
        · cases (hname.2 _ _ hrange.symm).1 ⟨d, rfl⟩
        · cases (hbody.2 _ _ hrange.symm).1 ⟨d, rfl⟩

end Compilation

end RecordQuery
