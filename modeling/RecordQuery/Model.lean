import RecordQuery.Error
import RecordQuery.Projection

namespace RecordQuery

structure Model where
  entity : String
  cacheTimeout : Option Nat
  projections : Fields Projection
  criteria : Fields CriteriaSpec
  sorts : Fields SortSpec

namespace Model

def countProjection : String := "$count"

def randomSort : String := "$random"

def ofEntity (entity : String) : Model :=
  ⟨entity, none, [(countProjection, .done [])], [], [(randomSort, .random)]⟩

def withCache (m : Model) (timeout : Nat) : Model := { m with cacheTimeout := some timeout }

def withProjection (m : Model) (name : String) (p : Projection) : Model :=
  { m with projections := m.projections.insert name p }

def withCriteria (m : Model) (name : String) (spec : CriteriaSpec) : Model :=
  { m with criteria := m.criteria.insert name spec }

def withSort (m : Model) (name : String) (sort : SortSpec) : Model :=
  { m with sorts := m.sorts.insert name sort }

/-- For each path the name sorts upwards and the name after a minus sign downwards. -/
def withSorts (m : Model) (entries : List (String × String)) : Model :=
  entries.foldl (fun m (path, name) =>
    (m.withSort name (.single path .asc)).withSort ("-" ++ name) (.single path .desc)) m

def projection (m : Model) (name : String) : Except Error Projection :=
  match m.projections.get? name with
  | some p => .ok p
  | none => .error (.unknownProjection name)

def sort (m : Model) (name : String) : Except Error SortSpec :=
  match m.sorts.get? name with
  | some s => .ok s
  | none => .error (.unknownSort name)

def criteriaNamed (m : Model) (name : String) : Except Error CriteriaSpec :=
  match m.criteria.get? name with
  | some spec => .ok spec
  | none => .error (.unknownCriterion name)

def plainColumn? : String × Leaf → Option (String × String)
  | (path, .column label) => some (path, label)
  | _ => none

def withProjectionSorts (m : Model) (name : String) : Except Error Model :=
  (m.projection name).map fun p => m.withSorts (p.leaves.filterMap plainColumn?)

end Model

end RecordQuery
