import Mathlib.Logic.Relation
import RecordQuery.Proofs.Joining.Destination

/-!
What planning does to its state. Joining an association has three outcomes: a key is missing and a
number is used up; a predicate is refused and the join of the link stays behind; or the association
is joined and recorded. A walk is a run of such joins, whatever it ends with, and a path that is
resolved ends where the schema says, under the alias of a position that the state has.
-/

namespace RecordQuery

open Steps

def JoinPlan.aliases (plan : JoinPlan) : List String :=
  plan.rootAlias :: plan.joined.map fun entry => entry.2.tableAlias

namespace Planning

def counted (s : Planning) : Planning :=
  { s with plan := { s.plan with counter := s.plan.counter + 1 } }

def addJoins (js : List Join) (s : Planning) : Planning :=
  { s with query := js.foldl QueryPair.join s.query }

def childAlias (s : Planning) (a : Association) : String :=
  JoinPlan.aliasNumbered a.name (s.plan.counter + 1)

def linkAlias (parent : Position) (child : String) : String := parent.tableAlias ++ "_" ++ child

def joinType (left : Bool) : JoinType := if left then .left else .inner

def linkJoins (parent : Position) (a : Association) (child : String) (type : JoinType)
    (source : Attribute) : List Join :=
  match a.relation with
  | .manyToMany link =>
    [⟨type, link.table, linkAlias parent child,
      .columnsEq (qualified parent.tableAlias source.column)
        (qualified (linkAlias parent child) link.sourceColumn)⟩]
  | _ => []

def tie (parent : Position) (a : Association) (child : String) (source destination : Attribute) :
    Condition :=
  match a.relation with
  | .belongsTo =>
    .columnsEq (qualified parent.tableAlias a.foreignKey) (qualified child destination.column)
  | .hasOne | .hasMany =>
    .columnsEq (qualified parent.tableAlias source.column) (qualified child a.foreignKey)
  | .manyToMany link =>
    .columnsEq (qualified (linkAlias parent child) link.targetColumn)
      (qualified child destination.column)

def newJoins (parent : Position) (a : Association) (target : Entity) (child : String) (left : Bool)
    (source destination : Attribute) (conditions : List Condition) : List Join :=
  linkJoins parent a child (joinType left) source
    ++ [⟨joinType left, target.table, child,
      .all (tie parent a child source destination :: notDeleted target child ++ conditions)⟩]

variable {parent : Position} {a : Association} {target : Entity} {path child : String}
  {left : Bool} {type : JoinType} {s t : Planning} {source destination : Attribute}

theorem associate_ok (hs : parent.entity.key a.sourceKey = .ok source)
    (hd : target.key a.targetKey = .ok destination) :
    associate parent a target child type s
      = (.ok (tie parent a child source destination),
        s.addJoins (linkJoins parent a child type source)) := by
  unfold associate
  rw [hs, hd, bind_of_ok (lift_apply (.ok source) s), bind_of_ok (lift_apply (.ok destination) s)]
  unfold tie linkJoins
  cases a.relation <;> rfl

theorem associate_error {e : Error} (h : parent.entity.key a.sourceKey = .error e ∨
      (∃ source, parent.entity.key a.sourceKey = .ok source) ∧
        target.key a.targetKey = .error e) :
    associate parent a target child type s = (.error e, s) := by
  unfold associate
  rcases h with hs | ⟨⟨source, hs⟩, hd⟩
  · rw [hs]
    rfl
  · rw [hs, hd]
    rfl

/-- The condition of a waiting predicate, if this is its join, and what waits from then on. -/
inductive Taken (path : String) (target : Entity) (child : String) :
    Option ScopedPredicate → List Condition → Option ScopedPredicate → Prop
  | none (w : Option ScopedPredicate) : Taken path target child w [] w
  | some {p c} : p.conditionAt path target child = .ok (some c) →
    Taken path target child (some p) [c] (some { p with applied := true })

theorem takeWaiting_cases (path : String) (target : Entity) (child : String) (s : Planning) :
    (∃ conditions w, Taken path target child s.waiting conditions w ∧
      takeWaiting path target child s = (.ok conditions, { s with waiting := w })) ∨
    ∃ p e, s.waiting = some p ∧ p.conditionAt path target child = .error e ∧
      takeWaiting path target child s = (.error e, s) := by
  unfold takeWaiting
  rw [bind_of_ok (get_apply s)]
  cases hw : s.waiting with
  | none =>
    have hsame : { s with waiting := none } = s := by rw [← hw]
    exact .inl ⟨[], none, .none _, by rw [hsame]; rfl⟩
  | some p =>
    cases hp : p.conditionAt path target child with
    | error e =>
      refine .inr ⟨p, e, rfl, hp, ?_⟩
      dsimp only
      rw [hp]
      rfl
    | ok o =>
      cases o with
      | none =>
        have hsame : { s with waiting := some p } = s := by rw [← hw]
        refine .inl ⟨[], some p, .none _, ?_⟩
        dsimp only
        rw [hp, hsame]
        rfl
      | some c =>
        refine .inl ⟨[c], some { p with applied := true }, .some hp, ?_⟩
        dsimp only
        rw [hp]
        rfl

/-- What joining an association may answer, and the state it leaves. -/
inductive Joining (parent : Position) (a : Association) (target : Entity) (path : String)
    (left : Bool) (s : Planning) : Except Error JoinedPath → Planning → Prop
  | unkeyed {e} : (parent.entity.key a.sourceKey = .error e ∨
      (∃ source, parent.entity.key a.sourceKey = .ok source) ∧
        target.key a.targetKey = .error e) →
    Joining parent a target path left s (.error e) s.counted
  | refused {source destination p e} : parent.entity.key a.sourceKey = .ok source →
    target.key a.targetKey = .ok destination → s.waiting = some p →
    p.conditionAt path target (s.childAlias a) = .error e →
    Joining parent a target path left s (.error e)
      (s.counted.addJoins
        (linkJoins parent a (s.childAlias a) (joinType left) source))
  | joined {source destination conditions w} : parent.entity.key a.sourceKey = .ok source →
    target.key a.targetKey = .ok destination →
    Taken path target (s.childAlias a) s.waiting conditions w →
    Joining parent a target path left s (.ok ⟨s.childAlias a, left⟩)
      { plan := { s.counted.plan with
          joined := s.plan.joined.insert path ⟨s.childAlias a, left⟩ }
        query := (newJoins parent a target (s.childAlias a) left source destination
          conditions).foldl QueryPair.join s.query
        waiting := w }

theorem joining_joinNew (parent : Position) (a : Association) (target : Entity) (path : String)
    (left : Bool) (s : Planning) :
    Joining parent a target path left s (joinNew parent a target path left s).1
      (joinNew parent a target path left s).2 := by
  have hnext : nextAlias a.name s = (.ok (s.childAlias a), s.counted) := rfl
  have htied : ∀ {source destination : Attribute}, parent.entity.key a.sourceKey = .ok source →
      target.key a.targetKey = .ok destination →
      associate parent a target (s.childAlias a) (if left then .left else .inner) s.counted
        = (.ok (tie parent a (s.childAlias a) source destination),
          s.counted.addJoins (linkJoins parent a (s.childAlias a) (joinType left) source)) :=
    associate_ok
  unfold joinNew
  dsimp only
  rw [bind_of_ok hnext]
  -- keys are looked up before the predicate, so a missing key is told first
  cases hs : parent.entity.key a.sourceKey with
  | error e =>
    rw [bind_apply, associate_error (.inl hs)]
    exact .unkeyed (.inl hs)
  | ok source =>
    cases hd : target.key a.targetKey with
    | error e =>
      rw [bind_apply, associate_error (.inr ⟨⟨source, hs⟩, hd⟩)]
      exact .unkeyed (.inr ⟨⟨source, hs⟩, hd⟩)
    | ok destination =>
      rw [bind_of_ok (htied hs hd)]
      rcases takeWaiting_cases path target (s.childAlias a) (s.counted.addJoins
        (linkJoins parent a (s.childAlias a) (joinType left) source)) with
        ⟨conditions, w, htaken, heq⟩ | ⟨p, e, hw, hp, heq⟩
      · rw [bind_of_ok heq]
        have hjoined : Joining parent a target path left s _ _ := .joined hs hd htaken
        rw [newJoins, List.foldl_append] at hjoined
        exact hjoined
      · rw [bind_apply, heq]
        exact .refused hs hd hw hp

inductive Standing (s : Planning) (here : Position) : Prop
  | root : here.tableAlias = s.plan.rootAlias → here.path = "" → here.left = false →
    Standing s here
  | joined : s.plan.joined.get? here.path = some ⟨here.tableAlias, here.left⟩ → Standing s here

structure Located (σ : Schema) (root : Entity) (behind : List String) (here : Position) : Prop where
  crosses : σ.Crosses root behind here.entity
  path : here.path = Path.along behind

/-- What the walk along a path joins: the association of one of its segments, if the path up to
there was not joined. -/
inductive Attempt (σ : Schema) (root : Entity) (path : String) (mode : JoinMode) (s : Planning) :
    Except Error JoinedPath → Planning → Prop
  | mk {here behind segment ahead a target x t} : Standing s here →
    Path.segments path = behind ++ segment :: ahead → Located σ root behind here →
    here.entity.association? (Path.bare segment) = some a → σ.entity a.target = .ok target →
    s.plan.joined.get? (Path.along (behind ++ [segment])) = none →
    Joining here a target (Path.along (behind ++ [segment]))
      (hopIsLeft mode (Path.isOptional segment) here a) s x t →
    Attempt σ root path mode s x t

def Step (σ : Schema) (root : Entity) (path : String) (mode : JoinMode) (s t : Planning) : Prop :=
  ∃ x, Attempt σ root path mode s x t

abbrev Trail (σ : Schema) (root : Entity) (path : String) (mode : JoinMode) :
    Planning → Planning → Prop :=
  Relation.ReflTransGen (Step σ root path mode)

abbrev Run (σ : Schema) (root : Entity) (mode : JoinMode) : Planning → Planning → Prop :=
  Relation.ReflTransGen fun s t => ∃ path, Step σ root path mode s t

variable {σ : Schema} {root : Entity} {mode : JoinMode} {here : Position} {u : Planning}

theorem Located.hop {behind : List String} {segment : String} {joined : JoinedPath} {toMany : Bool}
    (h : Located σ root behind here) (ha : here.entity.association? (Path.bare segment) = some a)
    (ht : σ.entity a.target = .ok target) :
    Located σ root (behind ++ [segment])
      ⟨target, joined.tableAlias, Path.under here.path (Path.bare segment), toMany, joined.left⟩ :=
  ⟨.hop h.crosses ha ht, by rw [Path.along_concat, h.path]⟩

theorem Standing.alias_mem (h : Standing s here) : here.tableAlias ∈ s.plan.aliases := by
  cases h with
  | root ha =>
    rw [ha]
    exact List.mem_cons_self
  | joined hj =>
    exact List.mem_cons_of_mem _ (List.mem_map_of_mem (Fields.mem_of_get? hj))

theorem Step.rootAlias (h : Step σ root path mode s t) : t.plan.rootAlias = s.plan.rootAlias := by
  obtain ⟨_, ⟨-, -, -, -, -, -, hjoining⟩⟩ := h
  cases hjoining <;> rfl

theorem Step.joined {p : String} {joined : JoinedPath} (h : Step σ root path mode s t)
    (hj : s.plan.joined.get? p = some joined) : t.plan.joined.get? p = some joined := by
  obtain ⟨_, @⟨_, behind, segment, _, _, _, _, _, -, -, -, -, -, hnew, hjoining⟩⟩ := h
  cases hjoining with
  | unkeyed => exact hj
  | refused => exact hj
  | joined =>
    have hne : Path.along (behind ++ [segment]) ≠ p := by
      intro hpath
      rw [hpath, hj] at hnew
      cases hnew
    exact (Fields.get?_insert_of_ne hne _ _).trans hj

theorem Standing.step (h : Standing s here) (hstep : Step σ root path mode s t) :
    Standing t here := by
  cases h with
  | root ha hp hl => exact .root (ha.trans hstep.rootAlias.symm) hp hl
  | joined hj => exact .joined (hstep.joined hj)

theorem Trail.run (h : Trail σ root path mode s t) : Run σ root mode s t :=
  Relation.ReflTransGen.mono (fun _ _ hstep => ⟨path, hstep⟩) _ _ h

theorem Run.query (h : Run σ root mode s t) : ∃ js : List Join,
    t.query = { s.query with source := { s.query.source with
      joins := s.query.source.joins ++ js } } := by
  induction h with
  | refl => exact ⟨[], by simp⟩
  | @tail u v _ hstep ih =>
    obtain ⟨js, hjs⟩ := ih
    have hstep : ∃ ks : List Join, v.query = ks.foldl QueryPair.join u.query := by
      obtain ⟨_, _, ⟨-, -, -, -, -, -, hjoining⟩⟩ := hstep
      cases hjoining with
      | unkeyed => exact ⟨[], rfl⟩
      | refused => exact ⟨_, rfl⟩
      | joined => exact ⟨_, rfl⟩
    obtain ⟨ks, hks⟩ := hstep
    exact ⟨js ++ ks, by rw [hks, QueryPair.foldl_join, hjs, List.append_assoc]⟩

section Walking

variable {behind ahead : List String} {segment : String}

theorem joinAt_cases (hhere : Standing s here)
    (hpath : Path.segments path = behind ++ segment :: ahead)
    (hlocated : Located σ root behind here)
    (ha : here.entity.association? (Path.bare segment) = some a)
    (ht : σ.entity a.target = .ok target) :
    (∃ joined t, joinAt mode segment here a target (Path.under here.path (Path.bare segment)) s
        = (.ok joined, t) ∧ Trail σ root path mode s t ∧
      t.plan.joined.get? (Path.under here.path (Path.bare segment)) = some joined) ∨
    ∃ e t, joinAt mode segment here a target (Path.under here.path (Path.bare segment)) s
        = (.error e, t) ∧ Attempt σ root path mode s (.error e) t := by
  unfold joinAt
  rw [hlocated.path, ← Path.along_concat, bind_of_ok (get_apply s)]
  cases hj : s.plan.joined.get? (Path.along (behind ++ [segment])) with
  | some joined => exact .inl ⟨joined, s, rfl, .refl, hj⟩
  | none =>
    have hjoining := joining_joinNew here a target (Path.along (behind ++ [segment]))
      (hopIsLeft mode (Path.isOptional segment) here a) s
    dsimp only
    generalize joinNew here a target (Path.along (behind ++ [segment]))
      (hopIsLeft mode (Path.isOptional segment) here a) s = outcome at hjoining ⊢
    obtain ⟨x, t⟩ := outcome
    have hattempt : Attempt σ root path mode s x t := .mk hhere hpath hlocated ha ht hj hjoining
    cases x with
    | error e => exact .inr ⟨e, t, rfl, hattempt⟩
    | ok joined =>
      refine .inl ⟨joined, t, rfl, .single ⟨_, hattempt⟩, ?_⟩
      cases hjoining
      exact Fields.get?_insert_self _ _ _

theorem hop_cases (hhere : Standing s here)
    (hpath : Path.segments path = behind ++ segment :: ahead)
    (hlocated : Located σ root behind here)
    (ha : here.entity.association? (Path.bare segment) = some a)
    (ht : σ.entity a.target = .ok target) :
    (∃ next t, hop mode segment here a target s = (.ok next, t) ∧ Trail σ root path mode s t ∧
      Standing t next ∧ Located σ root (behind ++ [segment]) next ∧ next.entity = target ∧
      next.toMany = (here.toMany || a.relation.toMany)) ∨
    ∃ e t, hop mode segment here a target s = (.error e, t) ∧
      Attempt σ root path mode s (.error e) t := by
  unfold hop
  rcases joinAt_cases hhere hpath hlocated ha ht with
    ⟨joined, t, hjoinAt, htrail, hjoined⟩ | ⟨e, t, hjoinAt, hattempt⟩
  · exact .inl ⟨_, t, bind_of_ok hjoinAt, htrail, .joined hjoined, hlocated.hop ha ht, rfl, rfl⟩
  · refine .inr ⟨e, t, ?_, hattempt⟩
    rw [bind_apply, hjoinAt]

end Walking

/-- How a walk along a path ends: where the schema says, or at a join that failed. -/
inductive Walked (σ : Schema) (root : Entity) (path : String) (mode : JoinMode) (s : Planning) :
    Except Error Destination → Except Error Resolved → Planning → Prop
  | arrived {d t there} : Trail σ root path mode s t → Standing t there →
    Located σ root (d.crossed path) there → there.entity = d.entity →
    Walked σ root path mode s (.ok d) (.ok (d.under there.tableAlias)) t
  | astray {e t} : Trail σ root path mode s t → Walked σ root path mode s (.error e) (.error e) t
  | stuck {d e u t} : Trail σ root path mode s u → Attempt σ root path mode u (.error e) t →
    Walked σ root path mode s d (.error e) t

theorem Walked.after {d : Except Error Destination} {x : Except Error Resolved}
    (htrail : Trail σ root path mode s u) (h : Walked σ root path mode u d x t) :
    Walked σ root path mode s d x t := by
  cases h with
  | arrived hrest hthere hlocated hentity =>
    exact .arrived (htrail.trans hrest) hthere hlocated hentity
  | astray hrest => exact .astray (htrail.trans hrest)
  | stuck hrest hattempt => exact .stuck (htrail.trans hrest) hattempt

theorem Walked.trail {d : Except Error Destination} {x : Except Error Resolved}
    (h : Walked σ root path mode s d x t) : Trail σ root path mode s t := by
  cases h with
  | arrived htrail => exact htrail
  | astray htrail => exact htrail
  | stuck htrail hattempt => exact htrail.tail ⟨_, hattempt⟩

theorem Walked.run {d : Except Error Destination} {x : Except Error Resolved}
    (h : Walked σ root path mode s d x t) : Run σ root mode s t :=
  h.trail.run

theorem Walked.of_ok {d : Except Error Destination} {r : Resolved}
    (h : Walked σ root path mode s d (.ok r) t) :
    ∃ d' there, d = .ok d' ∧ Standing t there ∧ r = d'.under there.tableAlias := by
  cases h with
  | arrived _ hthere => exact ⟨_, _, rfl, hthere, rfl⟩

theorem walked_endAt {behind ahead : List String} {segment : String} (hhere : Standing s here)
    (hpath : Path.segments path = behind ++ segment :: ahead)
    (hlocated : Located σ root behind here)
    (hname : here.entity.association? (Path.bare segment) = none) :
    Walked σ root path mode s
      (σ.follow path ((segment :: ahead).map Path.bare) here.entity here.toMany)
      (endAt here (Path.bare segment) ahead s).1 (endAt here (Path.bare segment) ahead s).2 := by
  unfold endAt
  cases ahead with
  | nil =>
    rw [List.map_cons, List.map_nil, Schema.follow_column hname, if_pos List.isEmpty_nil]
    cases here.entity.ending (Path.bare segment) with
    | error e => exact .astray .refl
    | ok leaf =>
      refine .arrived (d := ⟨here.entity, leaf, here.toMany, false⟩) .refl hhere ?_ rfl
      simpa [Destination.crossed, hpath] using hlocated
  | cons next ahead =>
    rw [List.map_cons, List.map_cons, Schema.follow_unknown hname]
    exact .astray .refl

theorem walked_keyAt (hhere : Standing s here) (hlocated : Located σ root (Path.segments path) here)
    (hmany : here.toMany = true) :
    Walked σ root path mode s
      (here.entity.primary.map fun key => ⟨here.entity, key, true, true⟩)
      (keyAt here s).1 (keyAt here s).2 := by
  unfold keyAt
  cases here.entity.primary with
  | error e => exact .astray .refl
  | ok key =>
    have hcolumn : columnAt here key true
        = Destination.under ⟨here.entity, key, true, true⟩ here.tableAlias := by
      unfold columnAt
      rw [hmany]
      rfl
    change Walked σ root path mode s (.ok _) (.ok (columnAt here key true)) s
    rw [hcolumn]
    exact .arrived .refl hhere hlocated rfl

theorem walked_walk (behind ahead : List String) (hpath : Path.segments path = behind ++ ahead)
    (hhere : Standing s here) (hlocated : Located σ root behind here) :
    Walked σ root path mode s (σ.follow path (ahead.map Path.bare) here.entity here.toMany)
      (walk σ path mode ahead here s).1 (walk σ path mode ahead here s).2 := by
  -- on the segments ahead, while those behind lead to where the walk stands
  induction ahead generalizing behind here s with
  | nil => exact .astray .refl
  | cons segment rest ih =>
    unfold walk
    cases ha : here.entity.association? (Path.bare segment) with
    | none => exact walked_endAt hhere hpath hlocated ha
    | some a =>
      rw [List.map_cons, Schema.follow_association path (rest.map Path.bare) here.toMany ha,
        List.isEmpty_map]
      dsimp only
      by_cases hwhole : (rest.isEmpty && !(here.toMany || a.relation.toMany)) = true
      · rw [if_pos hwhole, if_pos hwhole]
        exact .astray .refl
      rw [if_neg hwhole, if_neg hwhole]
      cases ht : σ.entity a.target with
      | error e => exact .astray .refl
      | ok target =>
        rw [bind_of_ok (lift_apply (.ok target) s)]
        rcases hop_cases hhere hpath hlocated ha ht with
          ⟨next, t, hhop, htrail, hnext, hbehind, rfl, hmany⟩ | ⟨e, t, hhop, hattempt⟩
        · rw [bind_of_ok hhop]
          refine .after htrail ?_
          have hpath' : Path.segments path = (behind ++ [segment]) ++ rest := by simpa using hpath
          -- a path that ends with an association to one row was refused above
          cases rest with
          | nil =>
            have hthere : next.toMany = true := by
              rw [hmany]
              by_contra hone
              exact hwhole (by simp only [List.isEmpty_nil, hone, Bool.not_false, Bool.and_self])
            rw [List.append_nil] at hpath'
            rw [← hpath'] at hbehind
            exact walked_keyAt hnext hbehind hthere
          | cons segment' rest =>
            have hrest := ih (behind ++ [segment]) hpath' hnext hbehind
            rw [hmany] at hrest
            exact hrest
        · rw [bind_apply, hhop]
          exact .stuck .refl hattempt

theorem walked_resolve (σ : Schema) (root : Entity) (path : String) (mode : JoinMode)
    (s : Planning) :
    Walked σ root path mode s (σ.destination root path) (resolve σ root path mode s).1
      (resolve σ root path mode s).2 := by
  have hstart : Standing s ⟨root, s.plan.rootAlias, "", false, false⟩ := .root rfl rfl rfl
  exact walked_walk [] (Path.segments path) rfl hstart ⟨.start, rfl⟩

end Planning

end RecordQuery
