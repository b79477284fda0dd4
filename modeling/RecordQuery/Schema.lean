import RecordQuery.Schema.Entity

namespace RecordQuery

structure Schema where
  entities : List Entity
  distinct : (entities.map Entity.name).Nodup
  keyed : ∀ e ∈ entities, e.primary?.isSome

namespace Schema

def empty : Schema := ⟨[], by simp, by simp⟩

def register (σ : Schema) (e : Entity) : Except Error Schema :=
  if h : e.name ∈ σ.entities.map Entity.name then .error (.schema (.duplicateEntity e.name))
  else if hk : e.primary?.isSome then
    .ok {
      entities := σ.entities ++ [e]
      distinct := by
        rw [List.map_append, List.nodup_append]
        refine ⟨σ.distinct, by simp, ?_⟩
        intro a ha b hb
        simp only [List.map_cons, List.map_nil, List.mem_singleton] at hb
        subst hb
        exact fun hab => h (hab ▸ ha)
      keyed := by
        intro e' he'
        rcases List.mem_append.1 he' with h' | h'
        · exact σ.keyed e' h'
        · rw [List.mem_singleton.1 h']; exact hk }
  else .error (.schema (.noPrimaryKey e.name))

def ofList (entities : List Entity) : Except Error Schema := entities.foldlM register empty

def entity? (σ : Schema) (name : String) : Option Entity := σ.entities.find? (·.name == name)

def entity (σ : Schema) (name : String) : Except Error Entity :=
  match σ.entity? name with
  | some e => .ok e
  | none => .error (.unknownEntity name)

section

variable {σ : Schema} {name : String} {e : Entity}

theorem find_of_entity (h : σ.entity name = .ok e) :
    σ.entities.find? (·.name == name) = some e := by
  unfold entity at h
  cases he : σ.entity? name with
  | none =>
    rw [he] at h
    cases h
  | some e' =>
    rw [he] at h
    cases h
    exact he

theorem mem_of_entity (h : σ.entity name = .ok e) : e ∈ σ.entities :=
  List.mem_of_find?_eq_some (find_of_entity h)

theorem name_of_entity (h : σ.entity name = .ok e) : e.name = name := by
  have hname := List.find?_some (find_of_entity h)
  exact eq_of_beq hname

theorem entity_name (h : σ.entity name = .ok e) : σ.entity e.name = .ok e := by
  rw [name_of_entity h, h]

end

def validateAssociation (σ : Schema) (e : Entity) (a : Association) : Except Error Unit :=
  match σ.entity? a.target with
  | none => .error (.schema (.unknownTarget e.name a.name a.target))
  | some target => do
    let _ ← e.key a.sourceKey
    let _ ← target.key a.targetKey
    return ()

def validate (σ : Schema) : Except Error Unit :=
  σ.entities.forM fun e => e.associations.forM (σ.validateAssociation e)

end Schema

end RecordQuery
