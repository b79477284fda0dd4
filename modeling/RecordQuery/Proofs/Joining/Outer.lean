import RecordQuery.Proofs.Evolution

namespace RecordQuery

open Steps

theorem Path.segments_init {path : String} (h : (Path.segments path).dropLast ≠ []) :
    Path.segments (Path.init path) = (Path.segments path).dropLast :=
  segments_intercalate h fun _ hname => not_mem_segment (List.dropLast_subset _ hname)

theorem Path.segments_inj {path path' : String} (h : Path.segments path = Path.segments path') :
    path = path' := by
  rw [← intercalate_segments path, h, intercalate_segments]

theorem Path.along_inj {path : String} {xs ys xs' ys' : List String}
    (hxs : ∀ name ∈ xs.map bare, name ≠ "") (hys : ∀ name ∈ ys.map bare, name ≠ "")
    (hx : Path.segments path = xs ++ xs') (hy : Path.segments path = ys ++ ys')
    (h : along xs = along ys) : xs = ys := by
  have hbare := bare_of_along hxs hys (not_mem_of_segments hx) (not_mem_of_segments hy) h
  have hlength : xs.length = ys.length := by simpa using congrArg List.length hbare
  exact (List.append_inj (hx.symm.trans hy) hlength).1

theorem Schema.Crosses.unique {σ : Schema} {root e e' : Entity} {segments : List String}
    (h : σ.Crosses root segments e) (h' : σ.Crosses root segments e') : e = e' := by
  generalize hsame : segments = segments' at h'
  induction h generalizing segments' e' with
  | start =>
    cases h' with
    | start => rfl
    | hop => simp at hsame
  | hop _ ha ht ih =>
    cases h' with
    | start => simp at hsame
    | hop hcrosses ha' ht' =>
      obtain ⟨hbehind, hsegment⟩ := List.append_inj' hsame rfl
      cases hsegment
      cases ih _ hbehind hcrosses
      rw [ha] at ha'
      cases ha'
      rw [ht] at ht'
      cases ht'
      rfl

namespace Planning

variable {σ : Schema} {root : Entity} {path p q : String} {mode : JoinMode} {s t u : Planning}
  {parent : Position} {joined i j : JoinedPath} {k : Join} {js : List Join}

theorem type_linkJoins {a : Association} {child : String} {type : JoinType} {source : Attribute}
    (h : k ∈ linkJoins parent a child type source) : k.type = type := by
  unfold linkJoins at h
  cases hr : a.relation <;> simp [hr] at h
  rw [h]

theorem type_newJoins {a : Association} {target : Entity} {child : String} {left : Bool}
    {source destination : Attribute} {conditions : List Condition}
    (h : k ∈ newJoins parent a target child left source destination conditions) :
    k.type = joinType left := by
  rcases List.mem_append.1 h with h | h
  · exact type_linkJoins h
  · rw [List.mem_singleton.1 h]

theorem Hangs.type (h : Hangs σ root s parent p joined js) (hk : k ∈ js) :
    k.type = joinType joined.left := by
  cases h with
  | mk => exact type_newJoins hk

theorem Hangs.left (h : Hangs σ root s parent p joined js) (hleft : parent.left = true) :
    joined.left = true := by
  cases h with
  | mk _ _ _ _ _ _ _ himp => exact himp hleft

theorem Hangs.own (h : Hangs σ root s parent p joined js) :
    ∃ k ∈ js, k ∈ s.query.source.joins ∧ k.tableAlias = joined.tableAlias := by
  cases h with
  | mk _ _ _ _ _ _ _ _ hjoins =>
    refine ⟨_, List.mem_append_right _ List.mem_cons_self, hjoins.subset ?_, rfl⟩
    exact List.mem_append_right _ List.mem_cons_self

theorem Sprung.standing (h : Sprung σ root s parent k) : Standing s parent := by
  cases h with
  | path _ hparent => exact hparent.standing
  | link hstanding => exact hstanding

theorem Sprung.inner (h : Sprung σ root s parent k) (hk : k.type = .inner) :
    parent.left = false := by
  by_contra hleft
  rw [Bool.not_eq_false] at hleft
  cases h with
  | path _ hparent hmem =>
    rw [hparent.type hmem, hparent.left hleft] at hk
    cases hk
  | link _ _ _ himp hmem =>
    rw [type_linkJoins hmem, himp hleft] at hk
    cases hk

/-- A position at the root, or at the end of an INNER join. -/
def Inside (s : Planning) (here : Position) : Prop :=
  here.tableAlias = s.plan.rootAlias ∨
  ∃ k ∈ s.query.source.joins, k.tableAlias = here.tableAlias ∧ k.type = .inner

theorem Standing.inside (hs : Grown σ root s) (h : Standing s parent)
    (hleft : parent.left = false) : Inside s parent := by
  cases h with
  | root ha => exact .inl ha
  | joined hj =>
    obtain ⟨_, js, hparent⟩ := hs.hangs hj
    obtain ⟨k, hk, hmem, halias⟩ := hparent.own
    refine .inr ⟨k, hmem, halias, ?_⟩
    rw [hparent.type hk, hleft]
    rfl

theorem Grown.inside (h : Grown σ root s) (hk : k ∈ s.query.source.joins)
    (hinner : k.type = .inner) : ∃ parent, Sprung σ root s parent k ∧ Inside s parent := by
  obtain ⟨parent, hparent⟩ := h.sprung k hk
  exact ⟨parent, hparent, hparent.standing.inside h (hparent.inner hinner)⟩

theorem Grown.beneath (h : Grown σ root s) (hnamed : σ.Named root) {more : List String}
    (hq : Path.segments q = Path.segments p ++ more) (hi : s.plan.joined.get? p = some i)
    (hleft : i.left = true) (hj : s.plan.joined.get? q = some j) : j.left = true := by
  induction more using List.reverseRecOn generalizing q j with
  | nil =>
    rw [List.append_nil] at hq
    rw [Path.segments_inj hq, hi] at hj
    cases hj
    exact hleft
  | append_singleton more name ih =>
    obtain ⟨parent, js, hparent⟩ := h.hangs hj
    have hinit : Path.segments parent.path = Path.segments p ++ more := by
      rw [(hparent.read hnamed).2.2, Path.segments_init, hq, ← List.append_assoc,
        List.dropLast_concat]
      rw [hq, ← List.append_assoc, List.dropLast_concat]
      simp [Path.segments_ne_nil]
    cases hparent.standing with
    | root _ hempty _ =>
      have hp : Path.segments p = [""] := by
        rw [hempty] at hinit
        have hone : Path.segments "" = [""] := by decide
        rw [hone, eq_comm, List.append_eq_singleton_iff] at hinit
        exact (hinit.resolve_left fun hnil => Path.segments_ne_nil p hnil.1).1
      rw [← Path.intercalate_segments p, hp] at hi
      have hnone := h.get?_empty hnamed
      simp [hnone] at hi
    | joined hj' => exact hparent.left (ih hinit hj')

theorem Trail.newly (h : Trail σ root path mode s t) (hs : s.plan.joined.get? p = none)
    (ht : t.plan.joined.get? p = some joined) :
    ∃ parent behind segment ahead a, Standing t parent ∧
      Path.segments path = behind ++ segment :: ahead ∧ Located σ root behind parent ∧
      parent.entity.association? (Path.bare segment) = some a ∧
      p = Path.along (behind ++ [segment]) ∧
      joined.left = hopIsLeft mode (Path.isOptional segment) parent a := by
  -- on the trail from its end: the path is new with the last step, or was there before
  induction h generalizing joined with
  | refl =>
    rw [hs] at ht
    cases ht
  | @tail u v _ hstep ih =>
    cases hu : u.plan.joined.get? p with
    | some i =>
      have hsame := hstep.joined hu
      rw [ht] at hsame
      cases hsame
      obtain ⟨parent, behind, segment, ahead, a, hstanding, hrest⟩ := ih hu
      exact ⟨parent, behind, segment, ahead, a, hstanding.step hstep, hrest⟩
    | none =>
      have hext := hstep.extends
      obtain ⟨_, @⟨parent, behind, segment, ahead, a, target, _, _, hstanding, hpath, hlocated, ha,
        -, -, hjoining⟩⟩ := hstep
      cases hjoining with
      | unkeyed | refused =>
        have hold : u.plan.joined.get? p = some joined := ht
        rw [hu] at hold
        cases hold
      | joined =>
        rcases Fields.get?_insert_cases ht with ⟨rfl, rfl⟩ | ht
        · exact ⟨parent, behind, segment, ahead, a, hstanding.extends hext, hpath, hlocated, ha,
            rfl, rfl⟩
        · rw [hu] at ht
          cases ht

theorem Trail.left_iff (hnamed : σ.Named root) (h : Trail σ root path mode s t)
    {behind ahead : List String} {segment : String} {e : Entity} {a : Association}
    (hpath : Path.segments path = behind ++ segment :: ahead) (hcrosses : σ.Crosses root behind e)
    (ha : e.association? (Path.bare segment) = some a)
    (hs : s.plan.joined.get? (Path.along (behind ++ [segment])) = none)
    (ht : t.plan.joined.get? (Path.along (behind ++ [segment])) = some joined) :
    ∃ parent, Standing t parent ∧ parent.path = Path.along behind ∧
      (joined.left = true ↔ parent.left = true ∨ mode = .left ∨ Path.isOptional segment = true ∨
        a.relation = .hasOne ∨ (a.relation.toMany = true ∧ mode = .inner)) := by
  obtain ⟨parent, behind', segment', ahead', a', hstanding, hpath', hlocated, ha',
    hsame, hleft⟩ := h.newly hs ht
  have hread : Path.segments path = (behind ++ [segment]) ++ ahead := by simp [hpath]
  have hread' : Path.segments path = (behind' ++ [segment']) ++ ahead' := by simp [hpath']
  have heq := Path.along_inj (hcrosses.named_concat hnamed ha)
    (hlocated.crosses.named_concat hnamed ha') hread hread' hsame
  obtain ⟨rfl, hsegment⟩ := List.append_inj' heq rfl
  cases hsegment
  cases hcrosses.unique hlocated.crosses
  rw [ha] at ha'
  cases ha'
  refine ⟨parent, hstanding, hlocated.path, ?_⟩
  rw [hleft]
  simp [hopIsLeft, or_assoc]

theorem Run.left (h : Run σ root .left s t)
    (hs : ∀ k ∈ s.query.source.joins, k.type = .left) :
    ∀ k ∈ t.query.source.joins, k.type = .left := by
  induction h with
  | refl => exact hs
  | @tail u v _ hstep ih =>
    obtain ⟨path, x, @⟨parent, behind, segment, _, a, _, _, _, -, -, -, -, -, -, hjoining⟩⟩ := hstep
    have hleft : hopIsLeft .left (Path.isOptional segment) parent a = true := by simp [hopIsLeft]
    rw [hleft] at hjoining
    intro k hk
    cases hjoining with
    | unkeyed => exact ih k hk
    | refused =>
      rw [addJoins, joins_foldl_join] at hk
      rcases List.mem_append.1 hk with hk | hk
      · exact ih k hk
      · exact type_linkJoins hk
    | joined =>
      rw [joins_foldl_join] at hk
      rcases List.mem_append.1 hk with hk | hk
      · exact ih k hk
      · exact type_newJoins hk

end Planning

namespace Compilation

variable {s : Setting} {c c' : Compilation}

theorem Evolved.left (h : Evolved s (· = .left) c c')
    (hc : ∀ k ∈ c.query.source.joins, k.type = .left) :
    ∀ k ∈ c'.query.source.joins, k.type = .left := by
  induction h with
  | refl => exact hc
  | tail _ hstep ih =>
    cases hstep with
    | join hmode hrun =>
      cases hmode
      exact hrun.left ih
    | filter | sibling => exact ih
    | aside haside =>
      rw [haside.joins]
      exact ih

theorem joins_start (s : Setting) (pool : Pool) (uses : Nat) :
    (start s pool uses).query.source.joins = [] := by
  unfold start Planning.notDeleted
  cases s.root.softDelete <;> rfl

end Compilation

open Planning in
/-- However paths were resolved, an INNER join hangs on the root or on an INNER join, the joins of a
path are of one type, and a path that goes on from a LEFT join is joined LEFT. What the next path
joins is LEFT exactly for its parent, the mode, its marker, an association to one row that may be
missing, or, in INNER mode, one to many rows. So a compilation that joins in LEFT mode only, which
sorts and criteria do, has LEFT joins only, as has the query of a request whose projection has no
INNER leaf. -/
theorem inner_never_below_left (s : Setting) (hnamed : s.schema.Named s.root) :
    (∀ t, Reachable s.schema s.root t →
      (∀ k ∈ t.query.source.joins, k.type = .inner →
        ∃ parent, Sprung s.schema s.root t parent k ∧ Inside t parent) ∧
      (∀ p joined, t.plan.joined.get? p = some joined → ∃ parent js,
        Hangs s.schema s.root t parent p joined js ∧ ∀ k ∈ js, k.type = joinType joined.left) ∧
      (∀ p q more i j, Path.segments q = Path.segments p ++ more →
        t.plan.joined.get? p = some i → i.left = true → t.plan.joined.get? q = some j →
        j.left = true) ∧
      ∀ path mode waiting behind segment ahead e a joined,
        Path.segments path = behind ++ segment :: ahead → s.schema.Crosses s.root behind e →
        e.association? (Path.bare segment) = some a →
        t.plan.joined.get? (Path.along (behind ++ [segment])) = none →
        (resolve s.schema s.root path mode (t.awaiting waiting)).2.plan.joined.get?
          (Path.along (behind ++ [segment])) = some joined →
        ∃ parent, Standing (resolve s.schema s.root path mode (t.awaiting waiting)).2 parent ∧
          parent.path = Path.along behind ∧
          (joined.left = true ↔ parent.left = true ∨ mode = .left ∨
            Path.isOptional segment = true ∨ a.relation = .hasOne ∨
            (a.relation.toMany = true ∧ mode = .inner))) ∧
    (∀ pool uses actions, (∀ a ∈ actions, Action.Joins (· = .left) a) →
      ∀ k ∈ (Action.runAll s actions (Compilation.start s pool uses)).query.source.joins,
        k.type = .left) ∧
    ∀ (p : Provider) model r i q j m projection, p.compile model r i = (.ok q, j) →
      p.model model = .ok m →
      m.projection (r.projection.getD p.config.defaultProjection) = .ok projection →
      (∀ l ∈ projection.leaves, ∀ leaf, l.2 = .field leaf → leaf.join ≠ .inner) →
      ∀ k ∈ q.query.source.joins, k.type = .left := by
  refine ⟨?_, ?_, ?_⟩
  · intro t ht
    refine ⟨fun k hk hinner => ht.grown.inside hk hinner, ?_, ?_, ?_⟩
    · intro p joined hj
      obtain ⟨parent, js, hparent⟩ := ht.grown.hangs hj
      exact ⟨parent, js, hparent, fun k hk => hparent.type hk⟩
    · intro p q more i j hq hi hleft hj
      exact ht.grown.beneath hnamed hq hi hleft hj
    · intro path mode waiting behind segment ahead e a joined hpath hcrosses ha hold hnew
      exact (walked_resolve s.schema s.root path mode (t.awaiting waiting)).trail.left_iff hnamed
        hpath hcrosses ha hold hnew
  -- nothing is joined at the start, and each action joins LEFT only
  · intro pool uses actions hactions
    refine (Action.evolved_runAll hactions).left fun k hk => ?_
    rw [Compilation.joins_start] at hk
    cases hk
  · intro p model r i q j m projection h hm hprojection houter
    obtain ⟨m', root, projection', v, hm', -, hprojection', hrun, -⟩ := Provider.compile_ok h
    rw [hm] at hm'
    cases hm'
    rw [hprojection] at hprojection'
    cases hprojection'
    obtain ⟨c, hc, rfl, -⟩ := Compilation.run_ok hrun
    have hmodes : projection.Modes (· = .left) := fun l hl leaf hleaf hinner =>
      absurd hinner (houter l hl leaf hleaf)
    have hevolved : Compilation.Evolved (p.setting root) (· = .left) _ c :=
      Compilation.evolved_of_ok (Provider.evolved_compileSteps (M := (· = .left)) rfl hmodes) hc
    refine hevolved.left fun k hk => ?_
    rw [Compilation.joins_start] at hk
    cases hk

namespace Shop

def address : Entity :=
  ((Entity.ofTable "Address" "addresses").withPrimaryKey ⟨"id", "id", .bigInt⟩).withAttribute
    ⟨"city", "city", .text⟩

def customer : Entity :=
  (((Entity.ofTable "Customer" "customers").withPrimaryKey ⟨"id", "id", .bigInt⟩).withAttribute
    ⟨"name", "name", .text⟩).withAssociation
    ⟨"address", .belongsTo, "Address", "address_id", none, none⟩

def order : Entity :=
  ((Entity.ofTable "Order" "orders").withPrimaryKey ⟨"id", "id", .bigInt⟩).withAssociation
    ⟨"customer", .belongsTo, "Customer", "customer_id", none, none⟩

def schema : Schema where
  entities := [address, customer, order]
  distinct := by decide
  keyed := by decide

def setting : Setting := ⟨schema, order, .sqlite, fun _ => false⟩

end Shop

open Planning in
theorem inner_never_below_left_shop :
    Shop.setting.schema.Named Shop.setting.root ∧
    ∃ t i j, Reachable Shop.setting.schema Shop.setting.root t ∧
      t.query.source.joins.map (fun k => (k.tableAlias, k.type))
        = [("customer_2", .left), ("address_3", .left)] ∧
      t.plan.joined.get? "customer" = some i ∧ i.left = true ∧
      t.plan.joined.get? "customer.address" = some j ∧ j.left = true := by
  have hnamed : Shop.setting.schema.Named Shop.setting.root := by
    unfold Schema.Named
    decide
  obtain ⟨t, ht, hjoins, hi, hj⟩ : ∃ t, Reachable Shop.setting.schema Shop.setting.root t ∧
      t.query.source.joins.map (fun k => (k.tableAlias, k.type))
        = [("customer_2", .left), ("address_3", .left)] ∧
      t.plan.joined.get? "customer" = some ⟨"customer_2", true⟩ ∧
      (t.plan.joined.get? "customer.address").isSome :=
    ⟨_, (Reachable.start.next "customer?.name" .inner none).next "customer.address.city"
      .forceInner none, by decide +kernel, by decide +kernel, by decide +kernel⟩
  obtain ⟨j, hj⟩ := Option.isSome_iff_exists.1 hj
  have hsegments : Path.segments "customer.address" = Path.segments "customer" ++ ["address"] := by
    decide +kernel
  exact ⟨hnamed, t, _, j, ht, hjoins, hi, rfl, hj,
    ((inner_never_below_left Shop.setting hnamed).1 t ht).2.2.1 _ _ _ _ _ hsegments hi rfl hj⟩

end RecordQuery
