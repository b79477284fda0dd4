import RecordQuery.Proofs.Correlation
import RecordQuery.Proofs.Joining.Companions
import RecordQuery.Proofs.Selection.Shown

namespace RecordQuery

open Steps

namespace Compilation

variable {s : Setting} {leaves : List (String × Leaf)} {p : Projection} {b : Bool}
  {c : Compilation} {segments : List String}

theorem under_single {there : Position} {column : String} (hnamed : s.schema.Named s.root)
    (hthere : Planning.Standing (c.planning none) there)
    (hlocated : Planning.Located s.schema s.root segments there)
    (hdots : ∀ name ∈ segments, '.' ∉ name.toList) (hone : s.schema.many segments s.root = false) :
    Under (c.plan.single s.schema s.root) (qualified there.tableAlias column) := by
  refine under_of_mem (hthere.mem_single ?_) column
  rw [hlocated.path, Schema.leadsToMany_along hnamed hlocated.crosses hdots, hone]

theorem Projected.groupBy_single {key : String} {picks : List Pick} (hnamed : s.schema.Named s.root)
    (h : Projected s leaves picks key c) (hkey : s.schema.Unshadowed s.root)
    (hplain : ∀ l ∈ leaves, ∀ segments a pick, Shows s "" c l segments a pick →
      pick.aggregates = false → s.schema.many segments s.root = false) :
    ∀ x ∈ c.query.source.groupBy, Under (c.plan.single s.schema s.root) x := by
  intro x hx
  rcases h.groupBy x hx with rfl | ⟨pick, hpick, haggregates, rfl⟩
  · obtain ⟨d, there, hd, hthere, hlocated, rfl⟩ := h.located
    have hbelow : s.schema.destination s.root (Path.under "" Path.idSegment) = .ok d := hd
    have hcrossed : d.crossed Path.idSegment = [] := (Schema.destination_key hkey hbelow).2.2
    rw [hcrossed] at hlocated
    exact under_single hnamed hthere hlocated nofun rfl
  · obtain ⟨l, hl, segments, a, hshows⟩ := h.only pick hpick
    obtain ⟨there, column, hthere, hlocated, rfl, hcolumn, hdots⟩ := hshows.position
    rw [hcolumn]
    exact under_single hnamed hthere hlocated hdots (hplain l hl segments _ pick hshows haggregates)

theorem source_start (s : Setting) (pool : Pool) (uses : Nat) :
    (start s pool uses).query.fields = [] ∧ (start s pool uses).query.source.groupBy = [] ∧
      (start s pool uses).query.source.tableAlias = (start s pool uses).plan.rootAlias := by
  unfold start Planning.notDeleted
  cases s.root.softDelete <;> exact ⟨rfl, rfl, rfl⟩

/-- A projection joins the paths that its leaves and its key cross, and no others. If columns that
are not aggregated belong to one row, so do the keys of groups, and no group divides what is joined
to a row of the root. A leaf over a path ranges over the rows that the path relates to it, none more
often than it is related, if each joined path that ends with an association to many rows is crossed
by that path. If all leaves join LEFT and without predicates, it ranges over exactly these rows,
whatever the other leaves are. -/
theorem aggregates_range_once {pool : Pool} {uses : Nat} (hnamed : s.schema.Named s.root)
    (h : projection s p (start s pool uses) = (.ok b, c)) :
    (∀ q, (c.plan.joined.get? q).isSome ↔
      (∃ l ∈ p.leaves, PassedBy s "" q l) ∨ s.schema.Passes s.root Path.idSegment q) ∧
    ∃ picks key, Projected s p.leaves picks key c ∧
      ((∀ l ∈ p.leaves, ∀ segments a pick, Shows s "" c l segments a pick →
          pick.aggregates = false → s.schema.many segments s.root = false) →
        s.schema.Unshadowed s.root →
        ∀ x ∈ c.query.source.groupBy, Under (c.plan.single s.schema s.root) x) ∧
      ∀ {ρ : Type} (db : Database ρ),
        (Planning.Determined s.schema s.root db (c.planning none) → ∀ r,
          ∀ b ∈ db.around c.query.source r, ∀ b' ∈ db.around c.query.source r,
            AgreeOn (c.plan.single s.schema s.root) b b') ∧
        ∀ kin : Kin ρ, db.Relates s.schema s.root kin → ∀ l segments a pick,
          Shows s "" c l segments a pick →
          Planning.Within s.schema s.root segments (c.planning none) → ∀ r,
          ((db.around c.query.source r).filterMap (Binding.row a)).Sublist
            ((s.schema.related kin segments s.root (some r)).filterMap id) ∧
          ((∀ l ∈ p.leaves, Undemanding l) →
            (db.around c.query.source r).map (Binding.row a)
              = s.schema.related kin segments s.root (some r)) := by
  have hevolved : Evolved s (fun _ => True) (start s pool uses) c :=
    evolved_of_ok (evolved_projection trivial fun _ _ _ _ _ => trivial) h
  have hstart := planted_start s pool uses
  obtain ⟨_, u, hu, hfields⟩ := bind_ok h
  cases hu
  have hjoins : (start s pool uses).query.source.joins = [] := joins_start s pool uses
  obtain ⟨hnone, hgroupBy, halias⟩ := source_start s pool uses
  obtain ⟨hwidened, picks, key, hprojected⟩ := fields_projected
    (c := { start s pool uses with middlewares := p.middlewares })
    (fun hp : ∀ l ∈ p.leaves, Undemanding l => hp) hnone rfl hgroupBy rfl hfields
  refine ⟨fun q => ?_, picks, key, hprojected,
    fun hplain hkey => hprojected.groupBy_single hnamed hkey hplain,
    fun db => ⟨fun hdb r => hevolved.companions hnamed hstart hdb
      (companions_start s pool uses db) r, fun kin hdb l segments a pick hshows hwithin r => ?_⟩⟩
  · have hjoined := joined_fields hfields (q := q)
    rw [JoinPlan.layout, Option.isSome_map] at hjoined
    exact hjoined.trans (or_iff_right nofun)
  · obtain ⟨there, column, hthere, hlocated, rfl, -, hdots⟩ := hshows.position
    -- at first there is the row of the root, and every join of the leaves is measured
    have hmeasured : Planning.Measured s.schema s.root db kin segments
        (∀ l ∈ p.leaves, Undemanding l) (c.planning none) := by
      refine hwidened.measured hnamed hdb hlocated.crosses hdots (.start hnamed
        ⟨hstart.orderly, hstart.grown, fun a ha => ?_⟩ hlocated.crosses hdots rfl hjoins ?_)
      · rw [List.mem_singleton.1 ha]
        exact .numbered _ _
      · exact halias
    -- the segments end where the pick stands, so none of their paths lies beyond
    have hlast : Planning.Last segments segments (c.planning none) := fun more hmore hmore' hne =>
      absurd (hmore'.eq_of_length (le_antisymm hmore'.length_le hmore.length_le)) hne
    exact ⟨hmeasured.bounded hwithin r segments there List.prefix_rfl hthere hlocated.path hlast,
      fun hp => hmeasured.ranges hp hwithin r segments there List.prefix_rfl hthere hlocated.path
        hlast⟩

end Compilation

namespace Board

def user : Entity :=
  ((Entity.ofTable "User" "users").withPrimaryKey ⟨"id", "id", .bigInt⟩).withAttribute
    ⟨"name", "name", .text⟩

def comment : Entity :=
  (Entity.ofTable "Comment" "comments").withPrimaryKey ⟨"id", "id", .bigInt⟩

def like : Entity := (Entity.ofTable "Like" "likes").withPrimaryKey ⟨"id", "id", .bigInt⟩

def post : Entity :=
  ((((Entity.ofTable "Post" "posts").withPrimaryKey ⟨"id", "id", .bigInt⟩).withAssociation
    ⟨"author", .belongsTo, "User", "author_id", none, none⟩).withAssociation
    ⟨"comments", .hasMany, "Comment", "post_id", none, none⟩).withAssociation
    ⟨"likes", .hasMany, "Like", "post_id", none, none⟩

def schema : Schema where
  entities := [user, comment, like, post]
  distinct := by decide
  keyed := by decide

def setting : Setting := ⟨schema, post, .sqlite, fun _ => false⟩

def count (path label : String) : String × Leaf := (path, .field ⟨label, some .count, .left, none⟩)

def discussion : Projection := .ofLeaves [] [("author.name", .column "author"),
  count "comments.$id" "comments"]

def reactions : Projection := .ofLeaves [] [count "comments.$id" "comments",
  count "likes.$id" "likes"]

def signed : Projection := .ofLeaves [] [count "comments.$id" "comments",
  ("author.id", .field ⟨"author", none, .inner, none⟩)]

def database (users : List Nat) : Database Nat where
  rows table :=
    if table = "comments" then [1, 2] else if table = "likes" then [4, 5] else users
  holds b c :=
    match c with
    | .raw sql _ => Fields.get? (String.ofList (sql.toList.takeWhile (· ≠ '.'))) b ≠ some none
    | _ => true

def kin : Kin Nat
  | _, _, none => [none]
  | _, a, some _ =>
    match schema.entity a.target with
    | .ok target => ((database [7]).rows target.table).map some
    | .error _ => [none]

example : schema.related kin ["comments"] post (some 3) = [some 1, some 2] := by decide +kernel

section Rows

variable {parent : Position} {a : Association} {target : Entity} {child : String}
  {source destination : Attribute} {b : Binding Nat}

theorem newJoins_eq (h : Planning.Joinable schema post parent a target child source destination)
    (left : Bool) (conditions : List Condition) : ∃ column other,
    Planning.newJoins parent a target child left source destination conditions
      = [⟨Planning.joinType left, target.table, child,
          .all (.columnsEq (qualified parent.tableAlias column) other :: conditions)⟩] := by
  have hrelations : ∀ e ∈ post :: schema.entities, ∀ a ∈ e.associations,
      a.relation = .belongsTo ∨ a.relation = .hasMany := by decide
  have hkept : ∀ e ∈ schema.entities, e.softDelete = none := by decide
  have hdeleted : Planning.notDeleted target child = [] := by
    unfold Planning.notDeleted
    rw [hkept target (Schema.mem_of_entity h.leads)]
  unfold Planning.newJoins Planning.linkJoins Planning.tie
  rw [hdeleted]
  rcases hrelations _ h.entity _ h.association with hrelation | hrelation <;> rw [hrelation]
  · exact ⟨_, _, rfl⟩
  · exact ⟨_, _, rfl⟩

theorem satisfies_columnsEq {users : List Nat} {tableAlias column other : String}
    (h : Alias tableAlias) :
    (database users).satisfies b (.columnsEq (qualified tableAlias column) other)
      = decide (Fields.get? tableAlias b ≠ some none) := by
  have hdot : ∀ c ∈ tableAlias.toList, (c ≠ '.') := by
    intro c hc
    rcases h.letters c hc with rfl | hlower | hdigit
    · decide
    · rintro rfl
      exact absurd hlower (by decide)
    · rintro rfl
      exact absurd hdigit (by decide)
  have htake : (qualified tableAlias column ++ " = " ++ other).toList.takeWhile (· ≠ '.')
      = tableAlias.toList := by
    unfold qualified
    simp only [String.toList_append, List.append_assoc]
    rw [List.takeWhile_append_of_pos (by simpa using hdot)]
    simp
  change decide (Fields.get? (String.ofList _) b ≠ some none) = _
  rw [htake, String.ofList_toList]

def goingOn : JoinType → List Nat → List (Option Nat)
  | .left, [] => [none]
  | _, rows => rows.map some

theorem goingOn_of_ne_nil (type : JoinType) {rows : List Nat} (h : rows ≠ []) :
    goingOn type rows = rows.map some := by
  cases type <;> cases rows
  · rfl
  · rfl
  · exact absurd rfl h
  · rfl

theorem join_rows (users : List Nat) {j : Join} (hj : j.tableAlias ∉ Fields.keys b) :
    ((database users).joined [j] [b]).map (Binding.row j.tableAlias)
      = goingOn j.type (((database users).rows j.table).filter fun r =>
          (database users).satisfies (b ++ [(j.tableAlias, some r)]) j.on) := by
  have hrow : ∀ x, Binding.row j.tableAlias (b ++ [(j.tableAlias, x)]) = x := by
    intro x
    unfold Binding.row
    rw [Fields.get?_concat hj]
    rfl
  have hfound : (database users).found j b = (((database users).rows j.table).filter fun r =>
      (database users).satisfies (b ++ [(j.tableAlias, some r)]) j.on).map fun r =>
        b ++ [(j.tableAlias, some r)] := by
    unfold Database.found
    rw [List.filter_map]
    rfl
  unfold Database.joined Database.join
  rw [List.foldl_cons, List.foldl_nil, List.flatMap_singleton, hfound]
  generalize ((database users).rows j.table).filter _ = rows
  cases j.type <;> cases rows <;> simp [hrow, goingOn]

theorem narrower (type : JoinType) {rows all : List Nat} (h : rows.Sublist all) (hne : all ≠ []) :
    ((goingOn type rows).filterMap id).Sublist ((all.map some).filterMap id) ∧
      (goingOn type rows).length ≤ (all.map some).length := by
  by_cases hrows : rows = []
  · have hpos := List.length_pos_iff.2 hne
    rw [hrows, List.length_map]
    cases type with
    | inner => exact ⟨List.nil_sublist _, Nat.zero_le _⟩
    | left => exact ⟨List.nil_sublist _, hpos⟩
  · rw [goingOn_of_ne_nil type hrows]
    simpa [List.filterMap_map] using ⟨h, h.length_le⟩

theorem relates : (database [7]).Relates schema post kin where
  none _ _ := rfl
  single := by
    have hone : ∀ e ∈ post :: schema.entities, ∀ a ∈ e.associations, a.relation.toMany = false →
        (kin e a (some 0)).length = 1 := by decide
    intro e a x he ha htoMany
    cases x with
    | none => rfl
    | some y => exact hone e he a ha htoMany
  joined := by
    intro parent a target child source destination b h hparent hchild _ left conditions
    obtain ⟨column, other, hjoins⟩ := newJoins_eq h left conditions
    obtain ⟨⟨name, _⟩, hfield, rfl⟩ := List.mem_map.1 hparent
    obtain ⟨x, hx⟩ := Fields.exists_get?_of_mem hfield
    have hrow : Binding.row parent.tableAlias b = x := by
      unfold Binding.row
      rw [hx]
      rfl
    have hrows := join_rows [7] (j := ⟨Planning.joinType left, target.table, child,
      .all (.columnsEq (qualified parent.tableAlias column) other :: conditions)⟩) hchild
    have hon : ∀ r, (database [7]).satisfies (b ++ [(child, some r)])
        (.all (.columnsEq (qualified parent.tableAlias column) other :: conditions))
          = (x.isSome && (database [7]).all (b ++ [(child, some r)]) conditions) := by
      intro r
      rw [Database.satisfies_all, Database.all, satisfies_columnsEq h.parentAlias,
        Fields.get?_append hparent, hx]
      cases x <;> rfl
    simp only [hon] at hrows
    -- no table is empty, so a LEFT join goes on as an INNER join does
    have hmany : (database [7]).rows target.table ≠ [] := by
      unfold database
      dsimp only
      split
      · simp
      · split <;> simp
    have hid : ∀ bs : List (Binding Nat), bs.filterMap (Binding.row child)
        = (bs.map (Binding.row child)).filterMap id := fun bs => by rw [List.filterMap_map]; rfl
    rw [hjoins, hrow, hid, ← List.length_map (Binding.row child), hrows]
    cases x with
    | none =>
      simp only [Option.isSome_none, Bool.false_and, List.filter_false]
      cases left with
      | true => exact ⟨List.Sublist.refl _, le_rfl, fun _ _ => rfl⟩
      | false => exact ⟨List.nil_sublist _, Nat.zero_le _, fun h => absurd h Bool.false_ne_true⟩
    | some y =>
      have hkin : kin parent.entity a (some y) = ((database [7]).rows target.table).map some := by
        simp only [kin, h.leads]
      rw [hkin]
      obtain ⟨hsublist, hlength⟩ := narrower (Planning.joinType left)
        (List.filter_sublist (p := fun r => (some y).isSome &&
          (database [7]).all (b ++ [(child, some r)]) conditions)) hmany
      refine ⟨hsublist, hlength, fun _ hnone => ?_⟩
      subst hnone
      simp only [Option.isSome_some, Database.all, Bool.and_self, List.filter_true]
      exact goingOn_of_ne_nil _ hmany

end Rows

open Compilation Planning

theorem named : schema.Named post := by
  unfold Schema.Named
  decide

theorem crosses_comments : schema.Crosses post ["comments"] comment :=
  .hop (a := ⟨"comments", .hasMany, "Comment", "post_id", none, none⟩) .start
    (by decide +kernel) rfl

theorem endsMany_iff {name : String} {a : Association} (hdot : '.' ∉ name.toList)
    (ha : post.association? (Path.bare name) = some a) :
    schema.EndsMany post (Path.along [name]) ↔ a.relation.toMany = true := by
  have hstart : schema.Crosses post [] post := .start
  have hends := Schema.endsMany_along named hstart ha (by simpa using hdot)
  exact hends

theorem aggregates_range_once_board :
    schema.Named post ∧ ∃ c, projection setting discussion (start setting [] 0) = (.ok true, c) ∧
      c.plan.joined.map Prod.fst = ["author", "comments"] ∧
      ∀ r, ((database [7]).around c.query.source r).map (Binding.row "comments_3")
        = [some 1, some 2] := by
  obtain ⟨c, hc⟩ := ok_of_toOption (m := projection setting discussion) (s := start setting [] 0)
    (a := true) (by decide +kernel)
  have hstate : c = (projection setting discussion (start setting [] 0)).2 := by rw [hc]
  have hjoined : c.plan.joined
      = [("author", ⟨"author_2", true⟩), ("comments", ⟨"comments_3", true⟩)] := by
    rw [hstate]
    decide +kernel
  refine ⟨named, c, hc, by rw [hjoined]; rfl, fun r => ?_⟩
  obtain ⟨-, picks, key, -, -, hrows⟩ := aggregates_range_once named hc
  have hd : setting.schema.destination setting.root (Path.under "" "comments.$id")
      = .ok ⟨comment, ⟨"id", "id", .bigInt⟩, true, false⟩ := by
    rfl
  have hcrossed : Destination.crossed ⟨comment, ⟨"id", "id", .bigInt⟩, true, false⟩
      (Path.under "" "comments.$id") = ["comments"] := by
    decide +kernel
  have hshows : Shows setting "" c (count "comments.$id" "comments") ["comments"] "comments_3"
      ⟨"comments", "comments_3.id", some .count⟩ := by
    have hlocated : Located setting.schema setting.root ["comments"]
        ⟨comment, "comments_3", "comments", true, true⟩ := ⟨crosses_comments, by decide +kernel⟩
    have hthere : Standing (c.planning none) ⟨comment, "comments_3", "comments", true, true⟩ :=
      .joined (by
        change c.plan.joined.get? "comments" = _
        rw [hjoined]
        rfl)
    rw [← hcrossed] at hlocated ⊢
    exact .field hd hthere hlocated
  have hwithin : Within schema post ["comments"] (c.planning none) := by
    intro q hq hmany
    change (c.plan.joined.get? q).isSome at hq
    rw [hjoined] at hq
    by_cases hauthor : q = "author"
    · have hpath : q = Path.along ["author"] := hauthor.trans (by decide +kernel)
      rw [hpath] at hmany
      have hone := (endsMany_iff (by decide) (a := ⟨"author", .belongsTo, "User", "author_id", none,
        none⟩) (by decide +kernel)).1 hmany
      cases hone
    by_cases hcomments : q = "comments"
    · exact ⟨["comments"], List.prefix_rfl, hcomments.trans (by decide +kernel)⟩
    · simp [Fields.get?, Ne.symm hauthor, Ne.symm hcomments] at hq
  have hleaves : ∀ l ∈ discussion.leaves, Undemanding l := by
    intro l hl
    rcases List.mem_cons.1 hl with rfl | hl
    · refine ⟨?_, ?_⟩ <;> intro leaf hleaf <;> cases hleaf
    · rw [List.mem_singleton.1 hl]
      refine ⟨?_, ?_⟩ <;> rintro _ ⟨⟩
      · rfl
      · decide
  exact ((hrows (database [7])).2 kin relates _ _ _ _ hshows hwithin r).2 hleaves

/-- The rows of comments are not kept apart from those of likes: beside the number of likes, that of
comments ranges over each comment twice. An INNER join of the author drops what has none. -/
theorem reactions_multiply :
    schema.validate = .ok () ∧ post ∈ schema.entities ∧
    (∃ c, projection setting reactions (start setting [] 0) = (.ok true, c) ∧
      c.query.fields.map Field.expression
        = ["COUNT(comments_2.id)", "COUNT(likes_3.id)", "post_1.id"] ∧
      (c.plan.joined.get? "likes").isSome ∧ schema.EndsMany post "likes" ∧
      (¬ ∃ segments, segments <+: ["comments"] ∧ "likes" = Path.along segments) ∧
      schema.related kin ["comments"] post (some 3) = [some 1, some 2] ∧
      ((database [7]).around c.query.source 3).map (Binding.row "comments_2")
        = [some 1, some 1, some 2, some 2]) ∧
    ∃ c, projection setting signed (start setting [] 0) = (.ok true, c) ∧
      (database []).around c.query.source 3 = [] := by
  obtain ⟨c, hc⟩ := ok_of_toOption (m := projection setting reactions) (s := start setting [] 0)
    (a := true) (by decide +kernel)
  obtain ⟨u, hu⟩ := ok_of_toOption (m := projection setting signed) (s := start setting [] 0)
    (a := true) (by decide +kernel)
  have hstate : c = (projection setting reactions (start setting [] 0)).2 := by rw [hc]
  have hstate' : u = (projection setting signed (start setting [] 0)).2 := by rw [hu]
  have hlikes : Path.along ["likes"] = "likes" := by decide +kernel
  refine ⟨by decide +kernel, by simp [schema], ⟨c, hc, ?_, ?_, ?_, ?_, by decide +kernel, ?_⟩,
    u, hu, ?_⟩
  · rw [hstate]
    decide +kernel
  · rw [hstate]
    decide +kernel
  · rw [← hlikes]
    exact (endsMany_iff (by decide) (a := ⟨"likes", .hasMany, "Like", "post_id", none, none⟩)
      (by decide +kernel)).2 rfl
  · rintro ⟨segments, hfront, hpath⟩
    have hnil : Path.along [] ≠ "likes" := by decide +kernel
    have hcomments : Path.along ["comments"] ≠ "likes" := by decide +kernel
    rcases List.prefix_cons_iff.1 hfront with rfl | ⟨rest, rfl, hrest⟩
    · exact hnil hpath.symm
    · rw [List.prefix_nil.1 hrest] at hpath
      exact hcomments hpath.symm
  · rw [hstate]
    decide +kernel
  · rw [hstate']
    decide +kernel

end Board

end RecordQuery
