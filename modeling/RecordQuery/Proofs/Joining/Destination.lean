import RecordQuery.JoinPlan
import RecordQuery.Proofs.Steps

namespace RecordQuery

open Steps

structure Destination where
  entity : Entity
  leaf : Attribute
  toMany : Bool
  tail : Bool

def Destination.under (d : Destination) (tableAlias : String) : Resolved :=
  ⟨qualified tableAlias d.leaf.column, d.entity.name, d.leaf.type, d.toMany, d.tail⟩

def Path.along (segments : List String) : String := (segments.map Path.bare).foldl Path.under ""

@[simp] theorem Path.along_concat (segments : List String) (segment : String) :
    Path.along (segments ++ [segment]) = Path.under (Path.along segments) (Path.bare segment) := by
  simp [Path.along]

/-- The segments of a path that leads there and cross associations: all but a column's name. -/
def Destination.crossed (d : Destination) (path : String) : List String :=
  if d.tail then Path.segments path else (Path.segments path).dropLast

namespace Schema

inductive Crosses (σ : Schema) (root : Entity) : List String → Entity → Prop
  | start : Crosses σ root [] root
  | hop {segments segment e a target} : Crosses σ root segments e →
    e.association? (Path.bare segment) = some a → σ.entity a.target = .ok target →
    Crosses σ root (segments ++ [segment]) target

theorem Crosses.mem {σ : Schema} {root e : Entity} {segments : List String}
    (h : σ.Crosses root segments e) : e ∈ root :: σ.entities := by
  cases h with
  | start => exact List.mem_cons_self
  | hop _ _ ht => exact List.mem_cons_of_mem root (mem_of_entity ht)

theorem Crosses.of_append {σ : Schema} {root e : Entity} {segments more : List String}
    (h : σ.Crosses root (segments ++ more) e) : ∃ e', σ.Crosses root segments e' := by
  generalize hall : segments ++ more = all at h
  induction h generalizing more with
  | start =>
    rw [(List.append_eq_nil_iff.1 hall).1]
    exact ⟨root, .start⟩
  | hop hcrosses ha ht ih =>
    rcases List.eq_nil_or_concat more with rfl | ⟨more, last, rfl⟩
    · rw [List.append_nil] at hall
      rw [hall]
      exact ⟨_, hcrosses.hop ha ht⟩
    · rw [List.concat_eq_append, ← List.append_assoc] at hall
      exact ih (List.append_inj' hall rfl).1

def follow (σ : Schema) (path : String) : List String → Entity → Bool → Except Error Destination
  | [], e, _ => .error (.unknownAttribute path e.name)
  | [name], e, toMany =>
    match e.association? name with
    | none => (e.ending name).map fun leaf => ⟨e, leaf, toMany, false⟩
    | some a =>
      if toMany || a.relation.toMany then do
        let target ← σ.entity a.target
        target.primary.map fun key => ⟨target, key, true, true⟩
      else .error (.selectedWholeAssociation path)
  | name :: next :: rest, e, toMany =>
    match e.association? name with
    | none => .error (.unknownAssociation name e.name)
    | some a => do
      let target ← σ.entity a.target
      σ.follow path (next :: rest) target (toMany || a.relation.toMany)

section

variable {σ : Schema} {e : Entity} {path name : String}

theorem follow_column {toMany : Bool} (h : e.association? name = none) :
    σ.follow path [name] e toMany = (e.ending name).map fun leaf => ⟨e, leaf, toMany, false⟩ := by
  unfold follow
  rw [h]

theorem follow_unknown {toMany : Bool} {next : String} {rest : List String}
    (h : e.association? name = none) :
    σ.follow path (name :: next :: rest) e toMany = .error (.unknownAssociation name e.name) := by
  unfold follow
  rw [h]

theorem follow_association (path : String) (rest : List String) (toMany : Bool) {a : Association}
    (h : e.association? name = some a) :
    σ.follow path (name :: rest) e toMany =
      if rest.isEmpty && !(toMany || a.relation.toMany) then .error (.selectedWholeAssociation path)
      else σ.entity a.target >>= fun target =>
        if rest.isEmpty then target.primary.map fun key => ⟨target, key, true, true⟩
        else σ.follow path rest target (toMany || a.relation.toMany) := by
  cases rest with
  | nil =>
    conv_lhs => unfold follow
    rw [h]
    by_cases hmany : (toMany || a.relation.toMany) = true
    · simp only [hmany]
      rfl
    · simp only [hmany]
      rfl
  | cons next rest =>
    conv_lhs => unfold follow
    rw [h]
    rfl

end

def destination (σ : Schema) (root : Entity) (path : String) : Except Error Destination :=
  σ.follow path ((Path.segments path).map Path.bare) root false

/-- What can be wrong with a path of a valid schema. -/
inductive Astray (path : String) : Error → Prop
  | association (name entity : String) : Astray path (.unknownAssociation name entity)
  | column (name entity : String) : Astray path (.unknownAttribute name entity)
  | whole : Astray path (.selectedWholeAssociation path)

variable {σ : Schema} {e : Entity}

structure Keyed (σ : Schema) (e : Entity) (a : Association) (target : Entity) : Prop where
  entity : σ.entity a.target = .ok target
  source : ∃ key, e.key a.sourceKey = .ok key
  destination : ∃ key, target.key a.targetKey = .ok key

theorem keyed_of_validate (h : σ.validate = .ok ()) (he : e ∈ σ.entities) {a : Association}
    (ha : a ∈ e.associations) : ∃ target, σ.Keyed e a target := by
  have hassociation := except_forM_ok (except_forM_ok h e he) a ha
  unfold validateAssociation at hassociation
  cases ht : σ.entity? a.target with
  | none =>
    rw [ht] at hassociation
    cases hassociation
  | some target =>
    rw [ht] at hassociation
    obtain ⟨source, hsource, hrest⟩ := except_bind_ok hassociation
    obtain ⟨destination, hdestination, -⟩ := except_bind_ok hrest
    refine ⟨target, ?_, ⟨source, hsource⟩, ⟨destination, hdestination⟩⟩
    unfold entity
    rw [ht]

theorem primary_of_mem (he : e ∈ σ.entities) : ∃ key, e.primary = .ok key := by
  obtain ⟨key, hkey⟩ := Option.isSome_iff_exists.1 (σ.keyed e he)
  refine ⟨key, ?_⟩
  unfold Entity.primary
  rw [hkey]

theorem astray_of_ending (he : e ∈ σ.entities) {name path : String} {err : Error}
    (h : e.ending name = .error err) : Astray path err := by
  unfold Entity.ending at h
  split at h
  · obtain ⟨key, hkey⟩ := primary_of_mem he
    rw [hkey] at h
    cases h
  · unfold Entity.attributeNamed at h
    split at h
    · cases h
    · cases h
      exact .column _ _

end Schema

end RecordQuery
