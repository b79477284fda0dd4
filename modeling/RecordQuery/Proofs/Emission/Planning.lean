import RecordQuery.Proofs.Emission.Edit

namespace RecordQuery

open Steps

variable {δ : Dialect} {N : String → Prop} {B : QueryPair → Prop}

structure JoinPlan.Allocated (plan : JoinPlan) : Prop where
  root : Alias plan.rootAlias
  joined : ∀ entry ∈ plan.joined, Alias entry.2.tableAlias

namespace Planning

structure Formed (B : QueryPair → Prop) (s : Planning) : Prop where
  plan : s.plan.Allocated
  query : B s.query

theorem maintains_nextAlias (name : String) : Maintains (Formed B) (nextAlias name) Alias := by
  intro s hs
  refine ⟨⟨⟨hs.plan.root, hs.plan.joined⟩, hs.query⟩, ?_⟩
  intro a ha
  exact Except.ok.inj ha ▸ .numbered _ _

theorem maintains_addJoin (hB : QueryPair.Shaped δ N B) {j : Join} (ha : Alias j.tableAlias)
    (hc : j.on.Over (ColumnRef N)) :
    Maintains (Formed B) (addJoin j) (fun _ => True) := by
  apply maintains_modify
  intro s hs
  exact ⟨hs.plan, hB s.query (.join j) hs.query (.join ha hc) rfl⟩

theorem maintains_record {path : String} {joined : JoinedPath} (ha : Alias joined.tableAlias) :
    Maintains (Formed B) (record path joined) (fun _ => True) := by
  apply maintains_modify
  intro s hs
  refine ⟨⟨hs.plan.root, ?_⟩, hs.query⟩
  intro entry he
  rcases Fields.mem_insert he with rfl | he
  · exact ha
  · exact hs.plan.joined entry he

theorem maintains_associate (hB : QueryPair.Shaped δ N B) {parent : Position} {a : Association}
    {target : Entity} {child : String} {type : JoinType} (hp : Alias parent.tableAlias)
    (hn : parent.entity.Names N) (ha : a ∈ parent.entity.associations) (ht : target.Names N)
    (hc : Alias child) :
    Maintains (Formed B) (associate parent a target child type)
      (Condition.Over (ColumnRef N)) := by
  unfold associate
  apply maintains_bind (maintains_lift fun _ => hn.key)
  intro source hsource
  apply maintains_bind (maintains_lift fun _ => ht.key)
  intro destination hdestination
  have hforeign := hn.foreignKeys a ha
  cases hr : a.relation with
  | belongsTo => exact maintains_pure (.columnsEq ⟨hp, hforeign⟩ ⟨hc, hdestination⟩)
  | hasOne => exact maintains_pure (.columnsEq ⟨hp, hsource⟩ ⟨hc, hforeign⟩)
  | hasMany => exact maintains_pure (.columnsEq ⟨hp, hsource⟩ ⟨hc, hforeign⟩)
  | manyToMany link =>
    obtain ⟨hl, hr⟩ := hn.links a ha link hr
    have halias : Alias (parent.tableAlias ++ "_" ++ child) := .link hp hc
    apply maintains_bind (maintains_addJoin hB halias (.columnsEq ⟨hp, hsource⟩ ⟨halias, hl⟩))
    intro _ _
    exact maintains_pure (.columnsEq ⟨halias, hr⟩ ⟨hc, hdestination⟩)

theorem maintains_takeWaiting {path child : String} {target : Entity} (ht : target.Names N)
    (hc : Alias child) :
    Maintains (Formed B) (takeWaiting path target child)
      (fun conditions => ∀ c ∈ conditions, c.Over (ColumnRef N)) := by
  unfold takeWaiting
  apply maintains_bind maintains_get
  intro s hs
  cases s.waiting with
  | none => exact maintains_pure (by simp)
  | some p =>
    apply maintains_bind (maintains_lift (Q := fun o => ∀ c, o = some c → c.Over (ColumnRef N))
      fun o ho c hoc => over_conditionAt (fun _ _ ha => .mk hc (ht.ending ha)) (hoc ▸ ho))
    intro o ho
    cases o with
    | none => exact maintains_pure (by simp)
    | some c =>
      apply maintains_bind (maintains_modify fun s hs => ⟨hs.plan, hs.query⟩)
      intro _ _
      exact maintains_pure (by simpa using ho c rfl)

theorem maintains_joinNew (hB : QueryPair.Shaped δ N B) {parent : Position} {a : Association}
    {target : Entity} {path : String} {left : Bool} (hp : Alias parent.tableAlias)
    (hn : parent.entity.Names N) (ha : a ∈ parent.entity.associations) (ht : target.Names N) :
    Maintains (Formed B) (joinNew parent a target path left)
      (fun joined => Alias joined.tableAlias) := by
  unfold joinNew
  apply maintains_bind (maintains_nextAlias a.name)
  intro child hc
  apply maintains_bind (maintains_associate hB hp hn ha ht hc)
  intro tie htie
  apply maintains_bind (maintains_takeWaiting ht hc)
  intro waiting hw
  have hon : (Condition.all (tie :: notDeleted target child ++ waiting)).Over (ColumnRef N) := by
    apply Condition.over_combine
    intro c hmem
    rcases List.mem_append.1 hmem with hmem | hmem
    · rcases List.mem_cons.1 hmem with rfl | hmem
      · exact htie
      · exact over_notDeleted (fun _ hd => .mk hc (ht.deleted _ hd)) c hmem
    · exact hw c hmem
  apply maintains_bind (maintains_addJoin hB hc hon)
  intro _ _
  apply maintains_bind (maintains_record hc)
  intro _ _
  exact maintains_pure hc

theorem maintains_hop (hB : QueryPair.Shaped δ N B) {mode : JoinMode} {segment : String}
    {here : Position} {a : Association} {target : Entity} (hp : Alias here.tableAlias)
    (hn : here.entity.Names N) (ha : a ∈ here.entity.associations) (ht : target.Names N) :
    Maintains (Formed B) (hop mode segment here a target)
      (fun next => Alias next.tableAlias ∧ next.entity = target) := by
  have hjoin : ∀ path, Maintains (Formed B) (joinAt mode segment here a target path)
      (fun joined => Alias joined.tableAlias) := by
    intro path
    apply maintains_bind maintains_get
    intro s hs
    cases hj : s.plan.joined.get? path with
    | none => exact maintains_joinNew hB hp hn ha ht
    | some joined => exact maintains_pure (hs.plan.joined _ (Fields.mem_of_get? hj))
  unfold hop
  apply maintains_bind (hjoin _)
  intro joined hj
  exact maintains_pure ⟨hj, rfl⟩

theorem maintains_endAt {here : Position} (hp : Alias here.tableAlias)
    (hn : here.entity.Names N) (name : String) (rest : List String) :
    Maintains (Formed B) (endAt here name rest) (fun r => ColumnRef N r.column) := by
  apply maintains_ite
  · intro _
    apply maintains_bind (maintains_lift fun _ => hn.ending)
    intro a ha
    exact maintains_pure (.mk hp ha)
  · exact fun _ => maintains_throw

theorem maintains_keyAt {here : Position} (hp : Alias here.tableAlias)
    (hn : here.entity.Names N) :
    Maintains (Formed B) (keyAt here) (fun r => ColumnRef N r.column) := by
  apply maintains_bind (maintains_lift fun _ => hn.primary)
  intro key hkey
  exact maintains_pure (.mk hp hkey)

theorem maintains_walk (hB : QueryPair.Shaped δ N B) {σ : Schema}
    (hσ : ∀ e ∈ σ.entities, e.Names N) (path : String) (mode : JoinMode) (segments : List String)
    (here : Position) (hp : Alias here.tableAlias) (hn : here.entity.Names N) :
    Maintains (Formed B) (walk σ path mode segments here) (fun r => ColumnRef N r.column) := by
  induction segments generalizing here with
  | nil => exact maintains_throw
  | cons segment rest ih =>
    unfold walk
    cases ha : here.entity.association? (Path.bare segment) with
    | none => exact maintains_endAt hp hn _ rest
    | some a =>
      have hmem : a ∈ here.entity.associations := List.mem_of_find?_eq_some ha
      apply maintains_ite
      · exact fun _ => maintains_throw
      · intro _
        apply maintains_bind (maintains_lift fun e he => hσ e (Schema.mem_of_entity he))
        intro target ht
        apply maintains_bind (maintains_hop hB hp hn hmem ht)
        rintro next ⟨halias, rfl⟩
        apply maintains_ite
        · exact fun _ => maintains_keyAt halias ht
        · exact fun _ => ih next halias ht

theorem maintains_resolve (hB : QueryPair.Shaped δ N B) {σ : Schema} {root : Entity}
    (hσ : ∀ e ∈ σ.entities, e.Names N) (hroot : root.Names N) (path : String) (mode : JoinMode) :
    Maintains (Formed B) (resolve σ root path mode) (fun r => ColumnRef N r.column) := by
  unfold resolve
  apply maintains_bind maintains_get
  intro s hs
  exact maintains_walk hB hσ path mode _ _ hs.plan.root hroot

end Planning

end RecordQuery
