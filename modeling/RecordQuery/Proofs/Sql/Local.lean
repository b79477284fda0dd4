import RecordQuery.Proofs.Joining.Scope
import RecordQuery.Proofs.Sql.Rows

namespace RecordQuery

def AgreeOn {ρ : Type} (aliases : List String) (b b' : Binding ρ) : Prop :=
  ∀ a ∈ aliases, Fields.get? a b = Fields.get? a b'

theorem Fields.get?_append {α : Type} {key : String} {fields : Fields α}
    (h : key ∈ fields.keys) (more : Fields α) : get? key (fields ++ more) = get? key fields := by
  induction fields with
  | nil => cases h
  | cons field rest ih =>
    obtain ⟨k, v⟩ := field
    rw [List.cons_append, get?, get?]
    split
    · rfl
    · next hk => exact ih (List.mem_of_ne_of_mem (Ne.symm hk) h)

theorem Fields.get?_concat {α : Type} {key : String} {fields : Fields α} (h : key ∉ fields.keys)
    (value : α) : get? key (fields ++ [(key, value)]) = some value := by
  induction fields with
  | nil => simp [get?]
  | cons field rest ih =>
    obtain ⟨k, v⟩ := field
    obtain ⟨hk, hrest⟩ := not_or.1 (mt List.mem_cons.2 h)
    rw [List.cons_append, get?, if_neg (Ne.symm hk)]
    exact ih hrest

theorem Fields.get?_prefix {α : Type} {key : String} {fields more : Fields α}
    (h : fields <+: more) (hkey : key ∈ fields.keys) : get? key more = get? key fields := by
  obtain ⟨rest, rfl⟩ := h
  exact get?_append hkey rest

def Binding.row {ρ : Type} (a : String) (b : Binding ρ) : Option ρ := (Fields.get? a b).join

namespace Database

variable {ρ : Type} {db : Database ρ} {b b' : Binding ρ} {aliases : List String} {j : Join}
  {js ks : List Join} {bs : List (Binding ρ)}

/-- The truth of the condition depends on what stands under the aliases of its columns only. -/
def Sees (db : Database ρ) (d : Condition) : Prop :=
  ∀ aliases, d.Over (Under aliases) → ∀ b b', AgreeOn aliases b b' →
    db.satisfies b d = db.satisfies b' d

theorem satisfies_conjoin_congr {ds : List Condition} {o : Option Condition}
    (ho : o.all (db.satisfies b) = o.all (db.satisfies b'))
    (hds : ∀ d ∈ ds, db.satisfies b d = db.satisfies b' d) :
    (ds.foldl Source.conjoin o).all (db.satisfies b)
      = (ds.foldl Source.conjoin o).all (db.satisfies b') := by
  rw [Bool.eq_iff_iff, satisfies_conjoin, satisfies_conjoin, ho]
  exact and_congr_right fun _ => forall₂_congr fun d hd => by rw [hds d hd]

theorem joined_append (js ks : List Join) (bs : List (Binding ρ)) :
    db.joined (js ++ ks) bs = db.joined ks (db.joined js bs) :=
  List.foldl_append

theorem joined_flatMap (js : List Join) (bs : List (Binding ρ)) :
    db.joined js bs = bs.flatMap fun b => db.joined js [b] := by
  induction js generalizing bs with
  | nil => simp [joined]
  | cons j js ih =>
    have hcons : ∀ bs, db.joined (j :: js) bs = db.joined js (bs.flatMap (db.join j)) :=
      fun _ => rfl
    simp only [hcons]
    rw [ih, List.flatMap_assoc]
    congr 1
    funext b
    rw [List.flatMap_singleton, ih (db.join j b)]

theorem keys_found (h : b' ∈ db.found j b) : Fields.keys b' = Fields.keys b ++ [j.tableAlias] := by
  obtain ⟨hmem, -⟩ := List.mem_filter.1 h
  obtain ⟨r, -, rfl⟩ := List.mem_map.1 hmem
  simp [Fields.keys]

theorem keys_join (h : b' ∈ db.join j b) : Fields.keys b' = Fields.keys b ++ [j.tableAlias] := by
  unfold join at h
  split at h
  · rw [List.mem_singleton.1 h]
    simp [Fields.keys]
  · exact keys_found h

theorem extends_joined (h : b' ∈ db.joined js bs) :
    ∃ b ∈ bs, b <+: b' ∧ Fields.keys b' = Fields.keys b ++ js.map Join.tableAlias := by
  induction js generalizing bs with
  | nil => exact ⟨b', h, List.prefix_rfl, by simp⟩
  | cons j js ih =>
    obtain ⟨b₁, hb₁, hfront, hkeys⟩ := ih h
    obtain ⟨b, hb, hjoin⟩ := List.mem_flatMap.1 hb₁
    refine ⟨b, hb, (mem_join hjoin).1.trans hfront, ?_⟩
    rw [hkeys, keys_join hjoin, List.map_cons, List.append_assoc]
    rfl

theorem get?_joined {a : String} (h : b' ∈ db.joined js [b]) (ha : a ∈ Fields.keys b) :
    Fields.get? a b' = Fields.get? a b := by
  obtain ⟨_, hb, hfront, -⟩ := extends_joined h
  rw [List.mem_singleton.1 hb] at hfront
  exact Fields.get?_prefix hfront ha

theorem row_joined {a : String} (h : b' ∈ db.joined js [b]) (ha : a ∈ Fields.keys b) :
    Binding.row a b' = Binding.row a b :=
  congrArg Option.join (get?_joined h ha)

def around (db : Database ρ) (s : Source) (r : ρ) : List (Binding ρ) :=
  db.joined s.joins [[(s.tableAlias, some r)]]

theorem keys_around {s : Source} {r : ρ} (h : b ∈ db.around s r) : Fields.keys b = s.aliases := by
  obtain ⟨b₀, hb₀, -, hkeys⟩ := extends_joined h
  rw [hkeys, List.mem_singleton.1 hb₀]
  rfl

theorem around_append {s t : Source} (halias : t.tableAlias = s.tableAlias)
    (hjoins : t.joins = s.joins ++ js) (r : ρ) :
    db.around t r = (db.around s r).flatMap fun b => db.joined js [b] := by
  unfold around
  rw [halias, hjoins, joined_append, joined_flatMap]

end Database

end RecordQuery
