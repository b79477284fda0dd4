import RecordQuery.Sql.Select

namespace RecordQuery

/-- Under each alias a row of its table, or none where a LEFT join found none. -/
abbrev Binding (ρ : Type) := List (String × Option ρ)

/-- The rows of tables, and which conditions are true of what is bound. An unknown condition is not
true. Groups of conditions are not asked for. -/
structure Database (ρ : Type) where
  rows : String → List ρ
  holds : Binding ρ → Condition → Bool

namespace Database

variable {ρ : Type} {db : Database ρ} {s : Source} {j : Join} {b b' : Binding ρ} {c : Condition}

mutual

def satisfies (db : Database ρ) (b : Binding ρ) : Condition → Bool
  | .group .and conditions => db.all b conditions
  | .group .or conditions => conditions.isEmpty || db.any b conditions
  | .constant value => value
  | .compare column op value => db.holds b (.compare column op value)
  | .raw sql values => db.holds b (.raw sql values)

def all (db : Database ρ) (b : Binding ρ) : List Condition → Bool
  | [] => true
  | c :: rest => db.satisfies b c && db.all b rest

def any (db : Database ρ) (b : Binding ρ) : List Condition → Bool
  | [] => false
  | c :: rest => db.satisfies b c || db.any b rest

end

def found (db : Database ρ) (j : Join) (b : Binding ρ) : List (Binding ρ) :=
  ((db.rows j.table).map fun r => b ++ [(j.tableAlias, some r)]).filter (db.satisfies · j.on)

def join (db : Database ρ) (j : Join) (b : Binding ρ) : List (Binding ρ) :=
  match j.type, db.found j b with
  | .left, [] => [b ++ [(j.tableAlias, none)]]
  | _, bs => bs

def joined (db : Database ρ) (js : List Join) (bs : List (Binding ρ)) : List (Binding ρ) :=
  js.foldl (fun bs j => bs.flatMap (db.join j)) bs

def select (db : Database ρ) (s : Source) : List (Binding ρ) :=
  (db.joined s.joins ((db.rows s.table).map fun r => [(s.tableAlias, some r)])).filter
    fun b => s.filter.all (db.satisfies b)

theorem all_iff (db : Database ρ) (b : Binding ρ) (conditions : List Condition) :
    db.all b conditions = true ↔ ∀ c ∈ conditions, db.satisfies b c = true := by
  induction conditions with
  | nil => simp [all]
  | cons c rest ih => simp [all, ih]

theorem any_iff (db : Database ρ) (b : Binding ρ) (conditions : List Condition) :
    db.any b conditions = true ↔ ∃ c ∈ conditions, db.satisfies b c = true := by
  induction conditions with
  | nil => simp [any]
  | cons c rest ih => simp [any, ih]

theorem satisfies_andAlso (db : Database ρ) (b : Binding ρ) (c d : Condition) :
    db.satisfies b (c.andAlso d) = true ↔
      db.satisfies b c = true ∧ db.satisfies b d = true := by
  unfold Condition.andAlso
  split
  · simp [satisfies, all_iff, or_imp, forall_and]
  · simp [satisfies, all]

theorem satisfies_all (db : Database ρ) (b : Binding ρ) (conditions : List Condition) :
    db.satisfies b (.all conditions) = db.all b conditions := by
  unfold Condition.all Condition.combine
  split
  · simp [all]
  · rw [satisfies]

theorem satisfies_any (db : Database ρ) (b : Binding ρ) (conditions : List Condition) :
    db.satisfies b (.combine .or conditions) = true ↔
      conditions = [] ∨ ∃ c ∈ conditions, db.satisfies b c = true := by
  unfold Condition.combine
  split
  · simp
  · simp [satisfies, any_iff]

theorem satisfies_conjoin (db : Database ρ) (b : Binding ρ) (o : Option Condition)
    (conditions : List Condition) :
    (conditions.foldl Source.conjoin o).all (db.satisfies b) = true ↔
      o.all (db.satisfies b) = true ∧ ∀ c ∈ conditions, db.satisfies b c = true := by
  induction conditions generalizing o with
  | nil => simp
  | cons c conditions ih =>
    have hc : (Source.conjoin o c).all (db.satisfies b) = true ↔
        o.all (db.satisfies b) = true ∧ db.satisfies b c = true := by
      cases o with
      | none => simp [Source.conjoin]
      | some e => simp [Source.conjoin, satisfies_andAlso]
    rw [List.foldl_cons, ih, hc, List.forall_mem_cons, and_assoc]

def Matched (db : Database ρ) (b : Binding ρ) (j : Join) : Prop :=
  ∃ earlier r, earlier ++ [(j.tableAlias, some r)] <+: b ∧ r ∈ db.rows j.table ∧
    db.satisfies (earlier ++ [(j.tableAlias, some r)]) j.on = true

def Begins (db : Database ρ) (s : Source) (b : Binding ρ) : Prop :=
  ∃ r ∈ db.rows s.table, [(s.tableAlias, some r)] <+: b

theorem Matched.extend (h : db.Matched b j) (hb : b <+: b') : db.Matched b' j := by
  obtain ⟨earlier, r, hfront, hr, hon⟩ := h
  exact ⟨earlier, r, hfront.trans hb, hr, hon⟩

theorem mem_found (h : b' ∈ db.found j b) : b <+: b' ∧ db.Matched b' j := by
  obtain ⟨hmem, hon⟩ := List.mem_filter.1 h
  obtain ⟨r, hr, rfl⟩ := List.mem_map.1 hmem
  exact ⟨List.prefix_append _ _, b, r, List.prefix_rfl, hr, hon⟩

theorem mem_join (h : b' ∈ db.join j b) :
    b <+: b' ∧ (j.type = .inner → db.Matched b' j) := by
  unfold join at h
  split at h
  · next hleft _ =>
    rw [List.mem_singleton.1 h]
    refine ⟨List.prefix_append _ _, fun hinner => ?_⟩
    rw [hleft] at hinner
    cases hinner
  · exact ⟨(mem_found h).1, fun _ => (mem_found h).2⟩

theorem mem_joined {js : List Join} {bs : List (Binding ρ)} (h : b ∈ db.joined js bs) :
    (∃ b₀ ∈ bs, b₀ <+: b) ∧ ∀ j ∈ js, j.type = .inner → db.Matched b j := by
  induction js generalizing bs with
  | nil => exact ⟨⟨b, h, List.prefix_rfl⟩, by simp⟩
  | cons j js ih =>
    obtain ⟨⟨b₁, hb₁, hfront⟩, hrest⟩ := ih h
    obtain ⟨b₀, hb₀, hjoin⟩ := List.mem_flatMap.1 hb₁
    obtain ⟨hbefore, hmatched⟩ := mem_join hjoin
    refine ⟨⟨b₀, hb₀, hbefore.trans hfront⟩, ?_⟩
    intro k hk hinner
    rcases List.mem_cons.1 hk with rfl | hk
    · exact (hmatched hinner).extend hfront
    · exact hrest k hk hinner

theorem mem_select (h : b ∈ db.select s) :
    db.Begins s b ∧ (∀ j ∈ s.joins, j.type = .inner → db.Matched b j) ∧
      ∀ c, s.filter = some c → db.satisfies b c = true := by
  obtain ⟨hjoined, hfilter⟩ := List.mem_filter.1 h
  obtain ⟨⟨b₀, hb₀, hfront⟩, hmatched⟩ := mem_joined hjoined
  obtain ⟨r, hr, rfl⟩ := List.mem_map.1 hb₀
  refine ⟨⟨r, hr, hfront⟩, hmatched, fun c hc => ?_⟩
  rwa [hc] at hfilter

end Database

end RecordQuery
