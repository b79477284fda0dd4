import RecordQuery.Proofs.NestedCheck
import RecordQuery.Proofs.NestedQuery
import RecordQuery.Proofs.Selection.GroupKeys
import RecordQuery.Proofs.Sql.Rows

namespace RecordQuery

open Steps

namespace Database

variable {ρ : Type} {db : Database ρ} {b : Binding ρ} {q : Source} {c : Condition} {js : List Join}

theorem satisfies_conjuncts (h : db.satisfies b c = true) :
    ∀ d ∈ c.conjuncts, db.satisfies b d = true := by
  unfold Condition.conjuncts
  split
  · rwa [satisfies, all_iff] at h
  · simpa using h

/-- Rows that lead from the table of a source along joins, for which the condition is true. -/
structure Chain (db : Database ρ) (q : Source) (js : List Join) (c : Condition) (b : Binding ρ) :
    Prop where
  begins : db.Begins q b
  matched : ∀ j ∈ js, db.Matched b j
  holds : db.satisfies b c = true

theorem chain_of_select (h : b ∈ db.select q) (hjs : js ⊆ q.joins)
    (hinner : ∀ j ∈ js, j.type = .inner) (hc : c ∈ q.conjuncts) : db.Chain q js c b := by
  obtain ⟨hbegins, hmatched, hfilter⟩ := mem_select h
  refine ⟨hbegins, fun j hj => hmatched j (hjs hj) (hinner j hj), ?_⟩
  unfold Source.conjuncts at hc
  split at hc
  · next d hd => exact satisfies_conjuncts (hfilter d hd) c hc
  · cases hc

end Database

namespace Compilation

variable {s : Setting} {task : NestedTask} {parentId : Value} {i j : Nat} {x : CompiledQuery}

theorem groupBy_nestedQuery (h : nestedQuery s task parentId i = (.ok x, j)) :
    x.query.source.groupBy ≠ [] := by
  obtain ⟨picks, key, hgrouping⟩ := grouping_nestedQuery h
  have hgrouped : x.grouped = true := by
    rw [hgrouping.flag]
    rfl
  exact List.ne_nil_of_mem (hgrouping.closed.key hgrouped)

end Compilation

theorem Provider.nestedList_nil {p : Provider} {entity : String} {root : Entity}
    {task : NestedTask} {v : Value} {session t : Session} {x : CompiledQuery} {uses : Nat}
    {statement : Statement} (hroot : p.schema.entity entity = .ok root)
    (hx : Compilation.nestedQuery (p.setting root) task v session.uses = (.ok x, uses))
    (hrow : x.query.rowStatement p.dialect = .ok statement) {execute : Execute}
    (hexecute : execute x statement { session with uses } = (.ok [], t)) :
    p.nestedList execute entity v task session
      = (.ok (task.options.outputKey, .list []), t) := by
  rw [nestedList_apply hroot hx hrow, bind_of_ok hexecute]
  rfl

/-- In the query of a list, the path is joined by INNER joins up to the first marker or association
that may be missing. If there is none, each row that the source selects has rows of all tables on
the path that match, and the id of the parent. So if there are no such rows, and the statement
answers no more records than rows are selected, the list is loaded as empty. -/
theorem lists_hold_matched_rows (p : Provider) {entity : String} {root : Entity}
    (hroot : p.schema.entity entity = .ok root) (hnamed : p.schema.Named root) {task : NestedTask}
    {v : Value} {i j : Nat} {x : CompiledQuery}
    (h : Compilation.nestedQuery (p.setting root) task v i = (.ok x, j)) :
    (∀ segments, segments <+: Path.crossings task.path → p.schema.Firm root segments →
      ∃ e tableAlias js, Planning.Linked p.schema root x.query.source segments e tableAlias js ∧
        ∀ k ∈ js, k.type = .inner) ∧
    (p.schema.Firm root (Path.crossings task.path) → x.query.source.groupBy ≠ [] ∧
      ∃ e tableAlias js d parentAlias before,
        Planning.Linked p.schema root x.query.source (Path.crossings task.path) e tableAlias js ∧
        (∀ k ∈ js, k.type = .inner) ∧
        p.schema.destination root (Path.under task.parent Path.idSegment) = .ok d ∧
        Planning.Linked p.schema root x.query.source
          (d.crossed (Path.under task.parent Path.idSegment)) d.entity parentAlias before ∧
        ∀ (ρ : Type) (db : Database ρ),
          (∀ b ∈ db.select x.query.source, db.Chain x.query.source js
            (.eq (qualified parentAlias d.leaf.column) v) b) ∧
          ∀ statement session execute records t, session.uses = i →
            x.query.rowStatement p.dialect = .ok statement →
            execute x statement { session with uses := j } = (.ok records, t) →
            records.length ≤ (db.select x.query.source).length →
            (∀ b, ¬ db.Chain x.query.source js (.eq (qualified parentAlias d.leaf.column) v) b) →
            p.nestedList execute entity v task session
              = (.ok (task.options.outputKey, .list []), t)) := by
  obtain ⟨c, hc, rfl, -⟩ := Compilation.run_ok h
  refine ⟨fun segments hfront hfirm => Compilation.linked_nestedSteps hnamed hc hfront hfirm, ?_⟩
  intro hfirm
  refine ⟨Compilation.groupBy_nestedQuery h, ?_⟩
  obtain ⟨e, tableAlias, js, hlinked, hinner⟩ :=
    Compilation.linked_nestedSteps hnamed hc List.prefix_rfl hfirm
  obtain ⟨d, parentAlias, before, hd, hparent, hscope⟩ := Compilation.scoped_nestedSteps hnamed hc
  refine ⟨e, tableAlias, js, d, parentAlias, before, hlinked, hinner, hd, hparent, ?_⟩
  intro ρ db
  have hchain : ∀ b ∈ db.select c.query.source, db.Chain c.query.source js
      (.eq (qualified parentAlias d.leaf.column) v) b :=
    fun b hb => Database.chain_of_select hb hlinked.subset hinner hscope
  refine ⟨hchain, ?_⟩
  rintro statement session execute records t rfl hrow hexecute hlength hnone
  -- every selected row would be a chain
  have hempty : db.select c.query.source = [] :=
    List.eq_nil_iff_forall_not_mem.2 fun b hb => hnone b (hchain b hb)
  have hrecords : records = [] := by
    have hselected : (db.select c.query.source).length = 0 := by rw [hempty]; rfl
    exact List.length_eq_zero_iff.1 (Nat.le_zero.1 (hselected ▸ hlength))
  rw [hrecords] at hexecute
  exact Provider.nestedList_nil hroot h hrow hexecute

theorem Schema.Firm.single {σ : Schema} {root : Entity} {segment : String}
    (hmarker : Path.isOptional segment = false)
    (hone : ∀ a, root.association? (Path.bare segment) = some a → a.relation ≠ .hasOne) :
    σ.Firm root [segment] := by
  intro behind name ahead e a hsplit hcrosses ha
  cases behind with
  | nil =>
    cases hsplit
    cases hcrosses.unique .start
    exact ⟨hmarker, hone a ha⟩
  | cons first behind => simp at hsplit

def Blog.silent : Database Unit :=
  ⟨fun table => if table = "posts" then [()] else [], fun _ _ => true⟩

theorem lists_hold_matched_rows_blog :
    Blog.schema.entity "Post" = .ok Blog.post ∧ Blog.schema.Named Blog.post ∧
    Blog.schema.Firm Blog.post ["comments"] ∧
    ∃ x j e tableAlias js t, Compilation.nestedQuery ((Blog.provider .sqlite).setting Blog.post)
        Blog.commentList (.int 7) 0 = (.ok x, j) ∧
      Planning.Linked Blog.schema Blog.post x.query.source ["comments"] e tableAlias js ∧
      (∀ k ∈ js, k.type = .inner) ∧ x.query.source.groupBy ≠ [] ∧
      (Blog.provider .sqlite).nestedList (fun _ _ t => (.ok [], t)) "Post" (.int 7)
          Blog.commentList ((Blog.provider .sqlite).session 0)
        = (.ok ("comments", .list []), t) := by
  have hroot : Blog.schema.entity "Post" = .ok Blog.post := rfl
  have hnamed : Blog.schema.Named Blog.post := by
    unfold Schema.Named
    decide
  have hfirm : Blog.schema.Firm Blog.post ["comments"] := by
    refine .single (by decide +kernel) fun a ha => ?_
    have hmany : (Blog.post.association? (Path.bare "comments")).map Association.relation
        = some .hasMany := by
      decide +kernel
    rw [ha, Option.map_some, Option.some.injEq] at hmany
    rw [hmany]
    decide
  obtain ⟨x, j, hx, hread⟩ := ok_of_toOption_map
    (m := Compilation.nestedQuery ((Blog.provider .sqlite).setting Blog.post) Blog.commentList
      (.int 7)) (s := 0)
    (f := fun x => (x.query.source.joins.map Join.table, (x.query.rowStatement .sqlite).toBool))
    (b := (["comments"], true)) (by decide +kernel)
  obtain ⟨htables, hstatement⟩ := Prod.mk.inj hread
  obtain ⟨statement, hrow⟩ := except_ok_of_toBool hstatement
  have hpath : Path.crossings Blog.commentList.path = ["comments"] := by decide +kernel
  have hlist := (lists_hold_matched_rows (Blog.provider .sqlite) hroot hnamed hx).2
  rw [hpath] at hlist
  obtain ⟨hkeys, e, tableAlias, js, d, parentAlias, before, hlinked, hinner, -, -, hrows⟩ :=
    hlist hfirm
  have hnone : ∀ b, ¬ Blog.silent.Chain x.query.source js
      (.eq (qualified parentAlias d.leaf.column) (.int 7)) b := by
    intro b hchain
    obtain ⟨k, hk⟩ := List.exists_mem_of_ne_nil js hlinked.joins_ne_nil
    have htable : k.table ∈ ["comments"] := htables ▸ List.mem_map_of_mem (hlinked.subset hk)
    obtain ⟨_, r, -, hr, -⟩ := hchain.matched k hk
    rw [List.mem_singleton.1 htable] at hr
    cases hr
  have hempty := (hrows Unit Blog.silent).2 statement ((Blog.provider .sqlite).session 0)
    (fun _ _ t => (.ok [], t)) [] _ rfl hrow rfl (Nat.zero_le _) hnone
  exact ⟨hroot, hnamed, hfirm, x, j, e, tableAlias, js, _, hx, hlinked, hinner, hkeys, hempty⟩

namespace Club

def database : Database Unit :=
  ⟨fun table => if table ∈ ["members", "teams", "squads"] then [()] else [], fun _ _ => true⟩

def rows (q : CompiledQuery) : List (Binding Unit) := database.select q.query.source

end Club

/-- A member without a card, or without visits at a path that is marked, gets one row of nulls: what
may be missing is joined LEFT. Where associations have no name, the players of a team without
players are as many as its squads: they are not joined at all. -/
theorem missing_rows_listed :
    Club.schema.validate = .ok () ∧
    (Club.queries "Member" Club.member (.int 1)).map Club.joins
      = [[("cards", .left), ("stamps", .left)], [("visits", .left)]] ∧
    (Club.queries "Member" Club.member (.int 1)).map Club.rows
      = [[[("member_1", some ()), ("card_2", none), ("stamps_3", none)]],
        [[("member_1", some ()), ("visits_2", none)]]] ∧
    (Club.queries "Team" Club.team (.int 1)).map Club.joins = [[("squads", .inner)]] ∧
    (Club.queries "Team" Club.team (.int 1)).map Club.rows
      = [[[("team_1", some ()), ("_2", some ())]]] :=
  ⟨by decide +kernel, by decide +kernel, by decide +kernel, by decide +kernel, by decide +kernel⟩

end RecordQuery
