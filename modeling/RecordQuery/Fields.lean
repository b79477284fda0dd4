universe u

namespace RecordQuery

abbrev Fields (α : Type u) := List (String × α)

namespace Fields

variable {α : Type u}

def get? (key : String) : Fields α → Option α
  | [] => none
  | (k, v) :: rest => if k = key then some v else get? key rest

def contains (key : String) (fields : Fields α) : Bool := (get? key fields).isSome

/-- A key that is present keeps its place; a new one goes last. -/
def insert (key : String) (value : α) : Fields α → Fields α
  | [] => [(key, value)]
  | (k, v) :: rest => if k = key then (key, value) :: rest else (k, v) :: insert key value rest

/-- The last field moves into the place of the removed one. -/
def swapRemove (key : String) : Fields α → Fields α
  | [] => []
  | (k, v) :: rest =>
    if k = key then
      match rest.getLast? with
      | none => []
      | some last => last :: rest.dropLast
    else (k, v) :: swapRemove key rest

def keys (fields : Fields α) : List String := fields.map Prod.fst

def ofList (entries : List (String × α)) : Fields α :=
  entries.foldl (fun fields (k, v) => fields.insert k v) []

@[simp] theorem get?_insert_self (key : String) (value : α) (fields : Fields α) :
    get? key (insert key value fields) = some value := by
  induction fields with
  | nil => simp [insert, get?]
  | cons field rest ih =>
    obtain ⟨k, v⟩ := field
    by_cases h : k = key <;> simp [insert, get?, h, ih]

theorem get?_insert_of_ne {key other : String} (h : key ≠ other) (value : α) (fields : Fields α) :
    get? other (insert key value fields) = get? other fields := by
  induction fields with
  | nil => simp [insert, get?, h]
  | cons field rest ih =>
    obtain ⟨k, v⟩ := field
    by_cases hk : k = key
    · subst hk; simp [insert, get?, h]
    · simp [insert, get?, hk, ih]

theorem get?_insert_cases {key other : String} {value found : α} {fields : Fields α}
    (h : get? other (insert key value fields) = some found) :
    (other = key ∧ found = value) ∨ get? other fields = some found := by
  by_cases hk : key = other
  · rw [← hk, get?_insert_self] at h
    exact .inl ⟨hk.symm, (Option.some.inj h).symm⟩
  · rw [get?_insert_of_ne hk] at h
    exact .inr h

theorem get?_ofList_concat (key other : String) (value : α) (entries : List (String × α)) :
    get? key (ofList (entries ++ [(other, value)])) =
      if other = key then some value else get? key (ofList entries) := by
  rw [ofList, List.foldl_append]
  by_cases h : other = key
  · subst h
    simp
  · simp [h, ofList, get?_insert_of_ne h]

theorem mem_of_get? {key : String} {value : α} {fields : Fields α}
    (h : get? key fields = some value) : (key, value) ∈ fields := by
  induction fields with
  | nil => cases h
  | cons field rest ih =>
    obtain ⟨k, v⟩ := field
    by_cases hk : k = key
    · simp_all [get?]
    · exact List.mem_cons_of_mem _ (ih (by simpa [get?, hk] using h))

theorem exists_get?_of_mem {field : String × α} {fields : Fields α} (h : field ∈ fields) :
    ∃ value, get? field.1 fields = some value := by
  induction fields with
  | nil => cases h
  | cons first rest ih =>
    obtain ⟨k, v⟩ := first
    by_cases hk : k = field.1
    · exact ⟨v, by simp [get?, hk]⟩
    · rcases List.mem_cons.1 h with rfl | h
      · exact absurd rfl hk
      · simpa [get?, hk] using ih h

theorem get?_of_mem {key : String} {value : α} {fields : Fields α}
    (h : (keys fields).Nodup) (hmem : (key, value) ∈ fields) : get? key fields = some value := by
  induction fields with
  | nil => cases hmem
  | cons field rest ih =>
    obtain ⟨hk, hrest⟩ := List.nodup_cons.1 h
    rcases List.mem_cons.1 hmem with rfl | hmem
    · simp [get?]
    · have hne : field.1 ≠ key := fun heq => hk (heq ▸ List.mem_map_of_mem hmem)
      rw [get?, if_neg hne]
      exact ih hrest hmem

theorem get?_filterMap {β : Type u} {f : α → Option β} {key : String} {value : α} {result : β}
    {fields : Fields α} (h : get? key fields = some value) (hf : f value = some result) :
    get? key (fields.filterMap fun field => (f field.2).map (Prod.mk field.1)) = some result := by
  induction fields with
  | nil => cases h
  | cons field rest ih =>
    obtain ⟨k, v⟩ := field
    by_cases hk : k = key
    · simp_all [get?]
    · have hrest := ih (by simpa [get?, hk] using h)
      cases hv : f v with
      | none => simpa [hv] using hrest
      | some w => simpa [hv, get?, hk] using hrest

theorem mem_insert {key : String} {value : α} {fields : Fields α} {field : String × α}
    (h : field ∈ insert key value fields) : field = (key, value) ∨ field ∈ fields := by
  induction fields with
  | nil => exact .inl (List.mem_singleton.1 h)
  | cons first rest ih =>
    obtain ⟨k, v⟩ := first
    by_cases hk : k = key
    · simp only [insert, hk, if_true, List.mem_cons] at h ⊢
      rcases h with h | h
      · exact .inl h
      · exact .inr (.inr h)
    · simp only [insert, hk, if_false, List.mem_cons] at h ⊢
      rcases h with h | h
      · exact .inr (.inl h)
      · exact (ih h).imp_right .inr

theorem mem_of_mem_swapRemove {key : String} {fields : Fields α} {field : String × α}
    (h : field ∈ swapRemove key fields) : field ∈ fields := by
  induction fields with
  | nil => cases h
  | cons first rest ih =>
    obtain ⟨k, v⟩ := first
    by_cases hk : k = key
    · simp only [swapRemove, hk, if_true] at h
      cases hlast : rest.getLast? with
      | none =>
        rw [hlast] at h
        cases h
      | some last =>
        rw [hlast] at h
        rcases List.mem_cons.1 h with rfl | h
        · exact List.mem_cons_of_mem _ (List.mem_of_getLast? hlast)
        · exact List.mem_cons_of_mem _ (List.dropLast_subset _ h)
    · simp only [swapRemove, hk, if_false] at h
      rcases List.mem_cons.1 h with rfl | h
      · exact List.mem_cons_self
      · exact List.mem_cons_of_mem _ (ih h)

theorem get?_swapRemove_of_absent {key other : String} {fields : Fields α}
    (h : get? other fields = none) : get? other (swapRemove key fields) = none := by
  cases hsome : get? other (swapRemove key fields) with
  | none => rfl
  | some value =>
    obtain ⟨found, hfound⟩ := exists_get?_of_mem (mem_of_mem_swapRemove (mem_of_get? hsome))
    rw [h] at hfound
    cases hfound

theorem swapRemove_of_absent {key : String} {fields : Fields α} (h : get? key fields = none) :
    swapRemove key fields = fields := by
  induction fields with
  | nil => rfl
  | cons field rest ih =>
    obtain ⟨k, v⟩ := field
    by_cases hk : k = key
    · simp [get?, hk] at h
    · simp only [get?, hk, if_false] at h
      simp only [swapRemove, hk, if_false, ih h]

theorem perm_swapRemove {key : String} {value : α} {fields : Fields α}
    (h : get? key fields = some value) : fields.Perm ((key, value) :: swapRemove key fields) := by
  induction fields with
  | nil => cases h
  | cons field rest ih =>
    obtain ⟨k, v⟩ := field
    by_cases hk : k = key
    · simp only [get?, hk, if_true, Option.some.injEq] at h
      simp only [swapRemove, hk, if_true, h]
      apply List.Perm.cons
      cases hlast : rest.getLast? with
      | none => rw [List.getLast?_eq_none_iff.1 hlast]
      | some last =>
        obtain ⟨front, rfl⟩ := List.getLast?_eq_some_iff.1 hlast
        rw [List.dropLast_concat]
        exact List.perm_append_singleton last front
    · simp only [get?, hk, if_false] at h
      simp only [swapRemove, hk, if_false]
      exact ((ih h).cons _).trans (.swap _ _ _)

theorem mem_keys_iff {key : String} {fields : Fields α} :
    key ∈ keys fields ↔ ∃ value, get? key fields = some value := by
  constructor
  · intro h
    obtain ⟨field, hfield, rfl⟩ := List.mem_map.1 h
    exact exists_get?_of_mem hfield
  · rintro ⟨value, h⟩
    exact List.mem_map_of_mem (mem_of_get? h)

theorem keys_insert {key : String} {value found : α} {fields : Fields α}
    (h : get? key fields = some found) : keys (insert key value fields) = keys fields := by
  induction fields with
  | nil => cases h
  | cons field rest ih =>
    obtain ⟨k, v⟩ := field
    by_cases hk : k = key
    · simp [insert, keys, hk]
    · have hrest := ih (by simpa [get?, hk] using h)
      simpa [insert, keys, hk] using hrest

theorem mem_keys_insert {key other : String} {value : α} {fields : Fields α}
    (h : other ∈ keys (insert key value fields)) : other = key ∨ other ∈ keys fields := by
  obtain ⟨field, hfield, rfl⟩ := List.mem_map.1 h
  rcases mem_insert hfield with rfl | hfield
  · exact .inl rfl
  · exact .inr (List.mem_map_of_mem hfield)

theorem nodup_insert {key : String} {value : α} {fields : Fields α} (h : (keys fields).Nodup) :
    (keys (insert key value fields)).Nodup := by
  induction fields with
  | nil => simp [insert, keys]
  | cons field rest ih =>
    obtain ⟨k, v⟩ := field
    obtain ⟨hk, hrest⟩ := List.nodup_cons.1 h
    unfold insert
    split
    · next heq => exact List.nodup_cons.2 ⟨heq ▸ hk, hrest⟩
    · next hne =>
      refine List.nodup_cons.2 ⟨fun hmem => ?_, ih hrest⟩
      rcases mem_keys_insert hmem with heq | hmem
      · exact hne heq
      · exact hk hmem

theorem keys_swapRemove {key : String} {value : α} {fields : Fields α}
    (h : get? key fields = some value) :
    (keys fields).Perm (key :: keys (swapRemove key fields)) :=
  (perm_swapRemove h).map Prod.fst

theorem nodup_swapRemove {key : String} {value : α} {fields : Fields α}
    (hnodup : (keys fields).Nodup) (h : get? key fields = some value) :
    (keys (swapRemove key fields)).Nodup :=
  (List.nodup_cons.1 ((keys_swapRemove h).nodup hnodup)).2

theorem mem_keys_swapRemove {key other : String} {value : α} {fields : Fields α}
    (hnodup : (keys fields).Nodup) (h : get? key fields = some value) :
    other ∈ keys (swapRemove key fields) ↔ other ∈ keys fields ∧ other ≠ key := by
  have hgone := (List.nodup_cons.1 ((keys_swapRemove h).nodup hnodup)).1
  rw [(keys_swapRemove h).mem_iff, List.mem_cons]
  constructor
  · intro hother
    exact ⟨.inr hother, fun heq => hgone (heq ▸ hother)⟩
  · rintro ⟨heq | hother, hne⟩
    · exact absurd heq hne
    · exact hother

end Fields

end RecordQuery
