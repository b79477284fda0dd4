import RecordQuery.Proofs.Emission.Serving
import RecordQuery.Proofs.Likeness.Serving
import RecordQuery.Proofs.Sql.Placed

namespace RecordQuery

open Steps

inductive Shape
  | null | bool | number | text | list (length : Nat) | record
  deriving DecidableEq

/-- What steps may depend on: the kind of a value, and the length of a list. -/
def Value.shape : Value → Shape
  | .null => .null
  | .bool _ => .bool
  | .int _ | .float _ => .number
  | .text _ => .text
  | .list items => .list items.length
  | .record _ => .record

def Value.Alike (v w : Value) : Prop := v.shape = w.shape

theorem Value.Alike.isNull_eq {v w : Value} (h : v.Alike w) : v.isNull = w.isNull := by
  cases v <;> cases w <;> first | rfl | cases h

namespace Condition

mutual

def skeleton : Condition → Condition
  | .compare column op value => .raw (compareFragment column op value).sql []
  | .group op conditions => .group op (skeletons conditions)
  | .raw sql _ => .raw sql []
  | .constant b => .constant b

def skeletons : List Condition → List Condition
  | [] => []
  | c :: rest => skeleton c :: skeletons rest

end

theorem skeletons_eq_map (cs : List Condition) : skeletons cs = cs.map skeleton := by
  induction cs with
  | nil => rfl
  | cons c cs ih => rw [skeletons, ih, List.map_cons]

theorem inward_skeleton : Inward skeleton where
  group := fun op conditions => by rw [skeleton, skeletons_eq_map]
  of_group := by
    intro c op conditions h
    cases c with
    | group op' inner =>
      rw [skeleton] at h
      cases h
      exact ⟨inner, rfl⟩
    | _ => cases h

theorem sql_joinWith (sep : String) {φs ψs : List Fragment}
    (h : φs.map Fragment.sql = ψs.map Fragment.sql) :
    (Fragment.joinWith sep φs).sql = (Fragment.joinWith sep ψs).sql := by
  induction φs generalizing ψs with
  | nil =>
    cases ψs with
    | nil => rfl
    | cons ψ ψs => cases h
  | cons φ φs ih =>
    cases ψs with
    | nil => cases h
    | cons ψ ψs =>
      obtain ⟨hφ, hrest⟩ := List.cons.inj h
      cases φs with
      | nil =>
        cases ψs with
        | nil => exact hφ
        | cons => cases hrest
      | cons φ' φs =>
        cases ψs with
        | nil => cases hrest
        | cons ψ' ψs => simp [Fragment.joinWith, Fragment.ofSql, hφ, ih hrest]

mutual

theorem sql_skeleton (c : Condition) : c.skeleton.fragment.sql = c.fragment.sql := by
  cases c with
  | compare column op value => rfl
  | group op conditions =>
    cases conditions with
    | nil => rfl
    | cons c rest =>
      have h := sql_joinWith (" " ++ op.sql ++ " ") (sql_skeletons (c :: rest))
      simpa [skeleton, skeletons, fragment, fragments, Fragment.ofSql] using h
  | raw sql vs => rfl
  | constant b => rfl

theorem sql_skeletons (cs : List Condition) :
    (fragments (skeletons cs)).map Fragment.sql = (fragments cs).map Fragment.sql := by
  cases cs with
  | nil => rfl
  | cons c cs =>
    rw [skeletons, fragments, fragments, List.map_cons, List.map_cons, sql_skeleton c,
      sql_skeletons cs]

end

theorem sql_eq_of_skeleton {c d : Condition} (h : c.skeleton = d.skeleton) :
    c.fragment.sql = d.fragment.sql := by
  rw [← sql_skeleton c, ← sql_skeleton d, h]

theorem skeleton_someRow (δ : Dialect) {c d : Condition} (h : c.skeleton = d.skeleton) :
    (Compilation.someRow δ c).skeleton = (Compilation.someRow δ d).skeleton := by
  unfold Compilation.someRow
  rw [skeleton, skeleton, sql_eq_of_skeleton h]

theorem skeleton_eq {v w : Value} (h : v.isNull = w.isNull) (column : String) :
    (Condition.eq column v).skeleton = (Condition.eq column w).skeleton := by
  cases v <;> cases w <;> first | rfl | cases h

end Condition

namespace Operator

variable {v w : Value} {column parameter : String}

theorem both_compared (h : v.Alike w) (op : Comparison) :
    Both (Predicates.Like Condition.skeleton) (compared op column v parameter)
      (compared op column w parameter) := by
  cases v <;> cases w <;> first | cases h | skip
  case null => cases op <;> exact .combined rfl
  case list | record => cases op <;> rfl
  all_goals cases op <;> exact .combined rfl

theorem like_listed (h : v.Alike w) (op : Comparison) :
    Predicates.Like Condition.skeleton (listed op column v) (listed op column w) := by
  cases v <;> cases w <;> first | cases h | skip
  case list items smeti =>
    have hlength : items.length = smeti.length := Shape.list.inj h
    cases items with
    | nil =>
      cases smeti with
      | nil => exact .combined rfl
      | cons => cases hlength
    | cons a as =>
      cases smeti with
      | nil => cases hlength
      | cons b bs =>
        apply Predicates.Like.combined
        cases op <;> simp_all [Condition.skeleton, Condition.compareFragment, Condition.members,
          Fragment.ofSql]
  all_goals exact .combined (by cases op <;> rfl)

theorem both_textOf (h : v.Alike w) :
    Both (fun _ _ => True) (textOf v parameter) (textOf w parameter) := by
  cases v <;> cases w <;> first | cases h | skip
  case null | list | record => rfl
  case bool b b' => cases b <;> cases b' <;> trivial
  all_goals trivial

theorem like_patterned (subject : String) (a b : List Char) :
    Predicates.Like Condition.skeleton (patterned subject a) (patterned subject b) :=
  .combined rfl

theorem both_between (h : v.Alike w) :
    Both (Predicates.Like Condition.skeleton) (predicate .between column v parameter)
      (predicate .between column w parameter) := by
  cases v <;> cases w <;> first | cases h | skip
  case list items smeti =>
    have hlength : items.length = smeti.length := Shape.list.inj h
    match items, smeti, hlength with
    | [], [], _ => rfl
    | [_], [_], _ => rfl
    | [_, _], [_, _], _ => exact .standing rfl
    | _ :: _ :: _ :: _, _ :: _ :: _ :: _, _ => rfl
  all_goals rfl

theorem both_predicate (op : Operator) (column parameter : String) {v w : Value}
    (h : v.Alike w) :
    Both (Predicates.Like Condition.skeleton) (op.predicate column v parameter)
      (op.predicate column w parameter) := by
  cases op with
  | like => exact (both_textOf h).map fun _ _ _ => like_patterned column _ _
  | ilike => exact (both_textOf h).map fun _ _ _ => like_patterned _ _ _
  | ilikeStart => exact (both_textOf h).map fun _ _ _ => like_patterned _ _ _
  | between => exact both_between h
  | isIn | notIn => exact like_listed h _
  | isNull | isNotNull => exact .combined rfl
  | has => rfl
  | equal => exact both_compared h .eq
  | notEqual => exact both_compared h .ne
  | lessEqual => exact both_compared h .le
  | greaterEqual => exact both_compared h .ge
  | lessThan => exact both_compared h .lt
  | greaterThan => exact both_compared h .gt

end Operator

section Pools

variable {a b : Pool}

def Pool.Alike : Pool → Pool → Prop :=
  List.Forall₂ fun x y => x.1 = y.1 ∧ Bags Value.Alike x.2 y.2

theorem Pool.Alike.get? (h : Pool.Alike a b) (name : String) :
    Option.Rel (Bags Value.Alike) (Fields.get? name a) (Fields.get? name b) := by
  induction h with
  | nil => exact .none
  | @cons x y _ _ hxy _ ih =>
    obtain ⟨k, v⟩ := x
    obtain ⟨k', w⟩ := y
    obtain ⟨rfl, hvw⟩ := hxy
    by_cases hk : k = name
    · simpa [Fields.get?, hk] using Option.Rel.some hvw
    · simpa [Fields.get?, hk] using ih

theorem Pool.Alike.field (h : Pool.Alike a b) (name parameter : String) :
    Option.Rel Value.Alike ((Fields.get? name a).bind (Value.field? parameter))
      ((Fields.get? name b).bind (Value.field? parameter)) := by
  have hget := h.get? name
  revert hget
  generalize Fields.get? name a = x
  generalize Fields.get? name b = y
  rintro (hvw | _)
  · cases hvw with
    | records h => exact h parameter
    | bare hv hw _ =>
      simp only [Option.bind_some, Value.field?, hv, hw]
      exact .none
  · exact .none

theorem getLast_rel {α β : Type} {R : α → β → Prop} {xs : List α} {ys : List β}
    (h : List.Forall₂ R xs ys) :
    Option.Rel R xs.getLast? ys.getLast? ∧ List.Forall₂ R xs.dropLast ys.dropLast := by
  induction h with
  | nil => exact ⟨.none, .nil⟩
  | cons hxy hrest ih =>
    cases hrest with
    | nil => exact ⟨.some hxy, .nil⟩
    | cons h _ => exact ⟨by simpa using ih.1, .cons hxy ih.2⟩

theorem Pool.Alike.remove (h : Pool.Alike a b) (name : String) :
    Pool.Alike (Fields.swapRemove name a) (Fields.swapRemove name b) := by
  induction h with
  | nil => exact .nil
  | @cons x y xs ys hxy hrest ih =>
    obtain ⟨k, v⟩ := x
    obtain ⟨k', w⟩ := y
    obtain ⟨rfl, hvw⟩ := hxy
    by_cases hk : k = name
    · have hlast := getLast_rel hrest
      revert hlast
      simp only [Fields.swapRemove, if_pos hk]
      generalize xs.getLast? = u
      generalize ys.getLast? = u'
      rintro ⟨hu | _, hinit⟩
      · exact .cons ‹_› hinit
      · exact .nil
    · simp only [Fields.swapRemove, if_neg hk]
      exact .cons ⟨rfl, hvw⟩ ih

theorem Pool.Alike.asking (h : Pool.Alike a b) :
    Pool.Alike (Pool.asking a) (Pool.asking b) := by
  induction h with
  | nil => exact .nil
  | @cons x y _ _ hxy _ ih =>
    obtain ⟨k, v⟩ := x
    obtain ⟨k', w⟩ := y
    obtain ⟨rfl, hvw⟩ := hxy
    have hnull : v.isNull = w.isNull := by
      cases hvw with
      | records => rfl
      | bare _ _ h => exact h.isNull_eq
    cases hw : w.isNull with
    | true => simpa [Pool.asking, hnull, hw] using ih
    | false =>
      simp only [Pool.asking, List.filter_cons, hnull, hw, Bool.not_false, if_true]
      exact .cons ⟨rfl, hvw⟩ ih

end Pools

def Likeness.shapes : Likeness where
  value := Value.Alike
  view := Condition.skeleton
  pool := Pool.Alike
  nestable := fun _ => True
  bags := Bags Value.Alike
  value_refl := fun _ => rfl
  isNull_eq := Value.Alike.isNull_eq
  bags_alike := id
  view_andAlso := Condition.inward_skeleton.andAlso
  view_combine := Condition.inward_skeleton.combine
  view_someRow := Condition.skeleton_someRow
  predicate := Operator.both_predicate
  field := Pool.Alike.field
  bag := fun h name _ => h.get? name
  remove := Pool.Alike.remove
  asking := Pool.Alike.asking

namespace Likeness

theorem sql_source (s : Source) (δ : Dialect) :
    ((shapes.source s).fragment δ).sql = (s.fragment δ).sql := by
  have hjoins : ∀ js : List Join,
      (Fragment.concat ((js.map shapes.join).map (Join.fragment δ))).sql
        = (Fragment.concat (js.map (Join.fragment δ))).sql := by
    intro js
    induction js with
    | nil => rfl
    | cons j js ih =>
      have hj : ((shapes.join j).fragment δ).sql = (j.fragment δ).sql := by
        simp [Join.fragment, Likeness.join, shapes, Fragment.ofSql, Condition.sql_skeleton]
      simp only [List.map_cons, Fragment.concat, Fragment.sql_append, hj, ih]
  have hclause : ∀ (keyword : String) (o : Option Condition),
      (Source.clause keyword (o.map shapes.view)).sql = (Source.clause keyword o).sql := by
    intro keyword o
    cases o with
    | none => rfl
    | some c => simp [Source.clause, shapes, Fragment.ofSql, Condition.sql_skeleton]
  simp only [Source.fragment, Fragment.sql_append, source, hjoins, hclause]
  rfl

theorem sql_select {q r : Select} (hf : q.fields = r.fields)
    (hs : shapes.source q.source = shapes.source r.source) (ht : q.tail = r.tail) (δ : Dialect) :
    (q.fragment δ).map Fragment.sql = (r.fragment δ).map Fragment.sql := by
  have htable : q.source.table = r.source.table := by
    change (shapes.source q.source).table = (shapes.source r.source).table
    rw [hs]
  have hsql : (q.source.fragment δ).sql = (r.source.fragment δ).sql := by
    rw [← sql_source q.source, ← sql_source r.source, hs]
  unfold Select.fragment Select.fieldList
  rw [hf, ht, htable]
  split
  · rfl
  · simp only [Except.map, Fragment.sql_append, hsql]

theorem sql_map {x y : Except Error Fragment} (h : x.map Fragment.sql = y.map Fragment.sql)
    {f : Fragment → Statement} (hf : ∀ φ ψ : Fragment, φ.sql = ψ.sql → (f φ).sql = (f ψ).sql) :
    (x.map f).map Statement.sql = (y.map f).map Statement.sql := by
  cases x with
  | error e =>
    cases y with
    | error e' => exact congrArg Except.error (Except.error.inj h)
    | ok ψ => cases h
  | ok φ =>
    cases y with
    | error e' => cases h
    | ok ψ => exact congrArg Except.ok (hf φ ψ (Except.ok.inj h))

theorem sql_around {x y : Except Error Fragment} (h : x.map Fragment.sql = y.map Fragment.sql)
    (δ : Dialect) (before behind : Fragment) :
    (x.map fun φ => Statement.ofFragment δ (before ++ φ ++ behind)).map Statement.sql
      = (y.map fun φ => Statement.ofFragment δ (before ++ φ ++ behind)).map Statement.sql := by
  apply sql_map h
  intro φ ψ hsql
  simp only [Statement.ofFragment, Fragment.sql_append, hsql]

theorem sql_statement {x y : Except Error Fragment} (h : x.map Fragment.sql = y.map Fragment.sql)
    (δ : Dialect) :
    (x.map (Statement.ofFragment δ)).map Statement.sql
      = (y.map (Statement.ofFragment δ)).map Statement.sql := by
  apply sql_map h
  intro φ ψ hsql
  simp only [Statement.ofFragment, hsql]

end Likeness

structure QueryPair.SameTexts (δ : Dialect) (q r : QueryPair) : Prop where
  rows : (q.rowStatement δ).map Statement.sql = (r.rowStatement δ).map Statement.sql
  first : (q.firstStatement δ).map Statement.sql = (r.firstStatement δ).map Statement.sql
  count : (q.countStatement δ).map Statement.sql = (r.countStatement δ).map Statement.sql

theorem Likeness.sameTexts {q r : QueryPair} (h : shapes.query q = shapes.query r) (δ : Dialect) :
    q.SameTexts δ r := by
  have hfields : q.fields = r.fields := shapes.fields_eq h
  have horder : q.orderBy = r.orderBy := by
    change (shapes.query q).orderBy = (shapes.query r).orderBy
    rw [h]
  have hpage : q.page = r.page := by
    change (shapes.query q).page = (shapes.query r).page
    rw [h]
  have hsource : shapes.source q.source = shapes.source r.source := congrArg QueryPair.source h
  have htail : q.rows.tail = r.rows.tail := by
    unfold Select.tail QueryPair.rows
    rw [horder, hpage]
  have hfirst : { q.rows with limit := some 1 }.tail = { r.rows with limit := some 1 }.tail := by
    unfold Select.tail QueryPair.rows
    rw [horder, hpage]
  refine ⟨?_, ?_, ?_⟩
  · exact sql_statement (sql_select hfields hsource htail δ) δ
  · exact sql_statement (sql_select hfields hsource hfirst δ) δ
  · exact sql_around (sql_select (q := q.counted) (r := r.counted) rfl hsource rfl δ) δ _ _

structure Request.Alike (r r' : Request) : Prop where
  projection : r.projection = r'.projection
  criteria : Pool.Alike r.criteria r'.criteria
  sort : r.sort = r'.sort
  page : r.page = r'.page
  pageSize : r.pageSize = r'.pageSize

namespace Provider

variable {p : Provider}

/-- Queries of two requests that are alike, and of their nested lists at the same places for
parents that are both null or neither. -/
inductive Twins (p : Provider) : CompiledQuery → CompiledQuery → Prop
  | request {model r r' i j q q' i' j'} : r.Alike r' → p.compile model r i = (.ok q, i') →
    p.compile model r' j = (.ok q', j') → Twins p q q'
  | nested {q q' root t t' v w i j x x' i' j'} {k : Nat} : Twins p q q' →
    p.schema.entity q.entity = .ok root → q.nested[k]? = some t → q'.nested[k]? = some t' →
    v.isNull = w.isNull → Compilation.nestedQuery (p.setting root) t v i = (.ok x, i') →
    Compilation.nestedQuery (p.setting root) t' w j = (.ok x', j') → Twins p x x'

theorem parallel_alike (hp : p.Constant) {r r' : Request} (h : r.Alike r') (model : String) :
    Parallel (fun _ _ => True) (p.compile model r) (p.compile model r')
      (CompiledQuery.Alike .shapes) := by
  apply parallel_compile model hp
  · exact fun _ projection _ _ => projection.every_of (fun _ => trivial) fun _ _ _ => trivial
  · exact ⟨by rw [h.projection], by unfold Request.sortNames; rw [h.sort],
      by unfold Request.pageParams; rw [h.page, h.pageSize], h.criteria⟩

theorem task_alike {q q' : CompiledQuery} (h : CompiledQuery.Alike .shapes q q') {k : Nat}
    {t t' : NestedTask} (ht : q.nested[k]? = some t) (ht' : q'.nested[k]? = some t') :
    Compilation.TaskAlike .shapes t t' := by
  obtain ⟨hk, rfl⟩ := List.getElem?_eq_some_iff.1 ht
  obtain ⟨hk', rfl⟩ := List.getElem?_eq_some_iff.1 ht'
  exact (List.forall₂_iff_get.1 h.nested).2 k hk hk'

theorem both_nestedQuery {q q' : CompiledQuery} (h : CompiledQuery.Alike .shapes q q')
    {k : Nat} {t t' : NestedTask} (ht : q.nested[k]? = some t) (ht' : q'.nested[k]? = some t')
    (root : Entity) {v w : Value} (hvw : v.isNull = w.isNull) (i j : Nat) :
    Both (CompiledQuery.Alike .shapes) (Compilation.nestedQuery (p.setting root) t v i).1
      (Compilation.nestedQuery (p.setting root) t' w j).1 := by
  have htask := task_alike h ht ht'
  exact (Compilation.parallel_nestedQuery htask (Condition.skeleton_eq hvw) i j trivial).2

theorem alike_of_twins (hp : p.Constant) {q q' : CompiledQuery} (h : p.Twins q q') :
    CompiledQuery.Alike .shapes q q' := by
  induction h with
  | @request model r r' i j q q' i' j' halike hq hq' =>
    have hboth := (parallel_alike hp halike model i j trivial).2
    rw [hq, hq'] at hboth
    exact hboth
  | @nested q q' root t t' v w i j x x' i' j' k _ hroot ht ht' hvw hx hx' ih =>
    have hboth := both_nestedQuery (p := p) ih ht ht' root hvw i j
    rw [hx, hx'] at hboth
    exact hboth

end Provider

/-- Requests of one shape both compile or fail with one error. What they compile to, and what their
nested lists do at every depth, differs in the values bound to its statements alone. -/
theorem values_never_reach_text (p : Provider) (hp : p.Constant) :
    (∀ model r r' i j, Request.Alike r r' →
      Both (fun _ _ => True) (p.compile model r i).1 (p.compile model r' j).1) ∧
    ∀ q q', p.Twins q q' →
      q.query.SameTexts p.dialect q'.query ∧ q.entity = q'.entity ∧ q.handlers = q'.handlers ∧
      q.dependencies = q'.dependencies ∧ q.middlewares = q'.middlewares ∧
      q.grouped = q'.grouped ∧ q.nested.length = q'.nested.length ∧
      ∀ (k : Nat) t t' root v w i j, q.nested[k]? = some t → q'.nested[k]? = some t' →
        v.isNull = w.isNull → t.options = t'.options ∧
          Both (fun _ _ => True) (Compilation.nestedQuery (p.setting root) t v i).1
            (Compilation.nestedQuery (p.setting root) t' w j).1 := by
  constructor
  · intro model r r' i j h
    exact (Provider.parallel_alike hp h model i j trivial).2.weaken fun _ _ _ => trivial
  · intro q q' h
    have ha := Provider.alike_of_twins hp h
    refine ⟨Likeness.sameTexts ha.query _, ha.entity, ha.handlers, ha.dependencies, ha.middlewares,
      ha.grouped, ha.nested.length_eq, ?_⟩
    intro k t t' root v w i j ht ht' hvw
    exact ⟨(Provider.task_alike ha ht ht').options,
      (Provider.both_nestedQuery ha ht ht' root hvw i j).weaken fun _ _ _ => trivial⟩

namespace Blog

def otherRequest : Request :=
  (((Request.empty.withCriterion "author" (.text "x' OR 1 = 1")).withCriterion "discussed"
    (.text "")).withCriterion "saying" (.text "?")).withPage (.number 2) (.number 10)

theorem alike_requests : request.Alike otherRequest where
  projection := rfl
  criteria := .cons ⟨rfl, .bare rfl rfl rfl⟩ (.cons ⟨rfl, .bare rfl rfl rfl⟩
    (.cons ⟨rfl, .bare rfl rfl rfl⟩ .nil))
  sort := rfl
  page := rfl
  pageSize := rfl

theorem constant (δ : Dialect) : (provider δ).Constant where
  criteria := by
    have hnone : ∀ spec ∈ posts.criteria, ∀ item ∈ spec.2.items, item.value.isNone = true := by
      decide
    intro m hm spec hspec item hitem v hv
    rw [List.mem_singleton.1 hm] at hspec
    have h := hnone spec hspec item hitem
    rw [hv] at h
    cases h
  nested := by
    intro m hm projection hp
    rw [List.mem_singleton.1 hm] at hp
    rcases List.mem_cons.1 hp with rfl | hp
    · trivial
    · rw [List.mem_singleton.1 hp]
      refine ⟨trivial, ?_, trivial, trivial⟩
      rintro c ⟨rfl⟩ item hitem v hv
      rw [List.mem_singleton.1 hitem] at hv
      cases hv

end Blog

theorem values_never_reach_text_blog :
    (Blog.provider .mysql).Constant ∧ Blog.request.Alike Blog.otherRequest ∧
    ∃ q q', (Blog.provider .mysql).Twins q q' ∧
      q.query.source.parameters.map Value.text? = [some "Ann?", some "'yes'"] ∧
      q'.query.source.parameters.map Value.text? = [some "x' OR 1 = 1", some ""] ∧
      q.query.SameTexts .mysql q'.query := by
  obtain ⟨q, i, hq, hparameters⟩ := ok_of_toOption_map
    (m := (Blog.provider .mysql).compile "Post" Blog.request) (s := 0)
    (f := fun q => q.query.source.parameters.map Value.text?) (b := [some "Ann?", some "'yes'"])
    (by decide +kernel)
  obtain ⟨q', j, hq', hparameters'⟩ := ok_of_toOption_map
    (m := (Blog.provider .mysql).compile "Post" Blog.otherRequest) (s := 0)
    (f := fun q => q.query.source.parameters.map Value.text?)
    (b := [some "x' OR 1 = 1", some ""]) (by decide +kernel)
  have htwins : (Blog.provider .mysql).Twins q q' := .request Blog.alike_requests hq hq'
  refine ⟨Blog.constant _, Blog.alike_requests, q, q', htwins, hparameters, hparameters', ?_⟩
  exact ((values_never_reach_text _ (Blog.constant .mysql)).2 q q' htwins).1

end RecordQuery
