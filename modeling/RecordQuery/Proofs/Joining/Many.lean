import RecordQuery.Proofs.Joining.Tree

namespace RecordQuery

open Steps

namespace Schema

variable {σ : Schema} {root e : Entity} {path : String} {segments : List String}

def many (σ : Schema) : List String → Entity → Bool
  | [], _ => false
  | segment :: rest, e =>
    match e.association? (Path.bare segment) with
    | none => false
    | some a =>
      match σ.entity a.target with
      | .error _ => a.relation.toMany
      | .ok target => a.relation.toMany || σ.many rest target

def leadsToMany (σ : Schema) (root : Entity) (path : String) : Bool :=
  σ.many (Path.crossings path) root

theorem many_hop {segment : String} {a : Association} {target : Entity} (rest : List String)
    (ha : e.association? (Path.bare segment) = some a) (ht : σ.entity a.target = .ok target) :
    σ.many (segment :: rest) e = (a.relation.toMany || σ.many rest target) := by
  simp only [many, ha, ht]

theorem many_append (h : σ.Crosses root segments e) (more : List String) :
    σ.many (segments ++ more) root = (σ.many segments root || σ.many more e) := by
  induction h generalizing more with
  | start => rfl
  | hop _ ha ht ih =>
    rw [List.append_assoc, ih, ih, List.singleton_append, many_hop _ ha ht, many_hop _ ha ht, many,
      Bool.or_false, Bool.or_assoc]

theorem many_bare (segments : List String) (e : Entity) :
    σ.many (segments.map Path.bare) e = σ.many segments e := by
  induction segments generalizing e with
  | nil => rfl
  | cons segment rest ih =>
    rw [List.map_cons, many, many, Path.bare_bare]
    cases e.association? (Path.bare segment) with
    | none => rfl
    | some a =>
      cases ht : σ.entity a.target with
      | error _ => simp only [ht]
      | ok target => simp only [ht, ih]

theorem follow_many {ahead : List String} {flag : Bool} {d : Destination}
    (h : σ.follow path (ahead.map Path.bare) e flag = .ok d) :
    d.toMany = (flag || σ.many (if d.tail then ahead else ahead.dropLast) e) := by
  induction ahead generalizing e flag with
  | nil => cases h
  | cons segment rest ih =>
    rw [List.map_cons] at h
    cases ha : e.association? (Path.bare segment) with
    | none =>
      cases rest with
      | nil =>
        rw [List.map_nil, follow_column ha] at h
        obtain ⟨leaf, -, rfl⟩ := except_map_ok h
        simp [many]
      | cons next rest =>
        rw [List.map_cons, follow_unknown ha] at h
        cases h
    | some a =>
      rw [follow_association path (rest.map Path.bare) flag ha] at h
      split at h
      · cases h
      next hmany =>
        obtain ⟨target, ht, h⟩ := except_bind_ok h
        cases rest with
        | nil =>
          obtain ⟨key, -, rfl⟩ := except_map_ok h
          rw [if_pos rfl, many_hop [] ha ht]
          cases flag with
          | true => rfl
          | false => simpa [many] using hmany
        | cons next rest =>
          have hd := ih h
          rw [hd, Bool.or_assoc]
          congr 1
          split
          · rw [many_hop _ ha ht]
          · rw [List.dropLast_cons_cons, many_hop _ ha ht]

theorem crossings_along (hnamed : ∀ name ∈ segments.map Path.bare, name ≠ "")
    (hdots : ∀ segment ∈ segments, '.' ∉ segment.toList) :
    Path.crossings (Path.along segments) = segments.map Path.bare := by
  by_cases hne : segments = []
  · subst hne
    rfl
  · rw [Path.crossings, if_neg (by simpa using Path.along_ne_empty hnamed hdots hne),
      Path.segments_along hnamed hdots hne]

theorem leadsToMany_along (hnamed : σ.Named root) (hcrosses : σ.Crosses root segments e)
    (hdots : ∀ segment ∈ segments, '.' ∉ segment.toList) :
    σ.leadsToMany root (Path.along segments) = σ.many segments root := by
  rw [leadsToMany, crossings_along (hcrosses.named hnamed) hdots, many_bare]

theorem leadsToMany_destination (hnamed : σ.Named root) {d : Destination}
    (h : σ.destination root path = .ok d) (hcrosses : σ.Crosses root (d.crossed path) e) :
    σ.leadsToMany root (Path.along (d.crossed path)) = d.toMany := by
  rw [leadsToMany_along hnamed hcrosses (d.not_mem_crossed path), follow_many h, Bool.false_or]
  rfl

end Schema

namespace Planning

variable {σ : Schema} {root : Entity} {path p q : String} {mode : JoinMode} {s t : Planning}
  {here parent : Position} {joined : JoinedPath} {js : List Join} {j : Join}

theorem mem_aliases_insert {plan : JoinPlan} {a : String}
    (h : a ∈ ({ plan with joined := plan.joined.insert p joined } : JoinPlan).aliases) :
    a = joined.tableAlias ∨ a ∈ plan.aliases := by
  rcases List.mem_cons.1 h with rfl | h
  · exact .inr List.mem_cons_self
  · obtain ⟨entry, hentry, rfl⟩ := List.mem_map.1 h
    rcases Fields.mem_insert hentry with rfl | hentry
    · exact .inl rfl
    · exact .inr (List.mem_cons_of_mem _ (List.mem_map_of_mem hentry))

/-- Each path is recorded once. One number, one alias of the plan; and that of the root belongs to
no join. -/
structure Counted (s : Planning) : Prop where
  keys : (Fields.keys s.plan.joined).Nodup
  one : ∀ {n a b}, a ∈ s.plan.aliases → b ∈ s.plan.aliases → Numbered n a → Numbered n b → a = b
  root : ∀ {p joined}, s.plan.joined.get? p = some joined → joined.tableAlias ≠ s.plan.rootAlias

theorem Counted.step (h : Counted s) (ho : Orderly s) (hstep : Step σ root path mode s t) :
    Counted t := by
  obtain ⟨_, @⟨parent, behind, segment, _, a, _, _, _, -, -, -, -, -, -, hjoining⟩⟩ := hstep
  cases hjoining with
  | unkeyed | refused => exact ⟨h.keys, h.one, h.root⟩
  | joined =>
    have hlow : ∀ {n b}, b ∈ s.plan.aliases → Numbered n b → n ≤ s.plan.counter := by
      intro n b hb hn
      obtain ⟨m, hle, hm⟩ := ho.numbered b (ho.recorded hb)
      rwa [hn.unique hm]
    have hnew := numbered_aliasNumbered a.name (s.plan.counter + 1)
    refine ⟨Fields.nodup_insert h.keys, fun ha hb hna hnb => ?_, fun hj => ?_⟩
    · -- the next number is higher than those of all aliases before
      rcases mem_aliases_insert ha with rfl | ha <;> rcases mem_aliases_insert hb with rfl | hb
      · rfl
      · have hle := hlow hb hnb
        have hsame := hna.unique hnew
        omega
      · have hle := hlow ha hna
        have hsame := hnb.unique hnew
        omega
      · exact h.one ha hb hna hnb
    · rcases Fields.get?_insert_cases hj with ⟨-, rfl⟩ | hj
      · exact fun hroot => ho.fresh a (List.mem_cons.2 (.inl hroot))
      · exact h.root hj

theorem Counted.run (h : Counted s) (ho : Orderly s) (hrun : Run σ root mode s t) : Counted t := by
  induction hrun with
  | refl => exact h
  | tail hrun hstep ih =>
    obtain ⟨path, hstep⟩ := hstep
    exact ih.step (ho.run hrun) hstep

theorem Counted.start (root : Entity) :
    Counted ⟨.ofRoot root, .ofTable root.table (JoinPlan.ofRoot root).rootAlias, none⟩ where
  keys := List.nodup_nil
  one := by
    intro n a b ha hb _ _
    rw [List.mem_singleton.1 ha, List.mem_singleton.1 hb]
  root := nofun

theorem Hangs.alias_ne (h : Hangs σ root s parent p joined js)
    (hj : s.plan.joined.get? p = some joined) (hcounted : Counted s) (ho : Orderly s)
    (hs : Grown σ root s) (hhere : Standing s here) (hpath : here.path ≠ p)
    (hmem : j ∈ js) : j.tableAlias ≠ here.tableAlias := by
  obtain ⟨n, -, hn⟩ := ho.numbered joined.tableAlias
    (ho.recorded (List.mem_cons_of_mem _ (List.mem_map_of_mem (Fields.mem_of_get? hj))))
  have hnumbered : Numbered n j.tableAlias := by
    cases h with
    | mk => exact numbered_newJoins hn _ (List.mem_map_of_mem hmem)
  intro hsame
  rw [hsame] at hnumbered
  have halias := hcounted.one hhere.alias_mem
    (List.mem_cons_of_mem _ (List.mem_map_of_mem (Fields.mem_of_get? hj))) hnumbered hn
  cases hhere with
  | root ha => exact hcounted.root hj (halias.symm.trans ha)
  | joined hhere => exact hpath (hs.apart hhere hj halias)

end Planning

end RecordQuery
