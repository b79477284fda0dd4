import RecordQuery.Operator
import RecordQuery.Path
import RecordQuery.Schema
import RecordQuery.Sql.QueryPair

/-!
Join planning. Resolving a path walks the associations from the root entity; each association path
is joined once, under an alias of its own that every later walk uses again.
-/

namespace RecordQuery

inductive JoinMode
  | left
  /-- Hops to one row are INNER joins, hops to many rows LEFT joins. -/
  | inner
  | forceInner
  deriving DecidableEq

structure Resolved where
  column : String
  entity : String
  type : SqlType
  toMany : Bool
  /-- The last segment names an association. -/
  tail : Bool

/-- A predicate for the ON clause of the join at the parent of its path. -/
structure ScopedPredicate where
  path : String
  operator : Operator
  value : Value
  parameter : String
  applied : Bool

structure JoinedPath where
  tableAlias : String
  left : Bool
  deriving DecidableEq

structure JoinPlan where
  rootAlias : String
  joined : Fields JoinedPath
  counter : Nat

structure Planning where
  plan : JoinPlan
  query : QueryPair
  waiting : Option ScopedPredicate

structure Position where
  entity : Entity
  tableAlias : String
  path : String
  toMany : Bool
  left : Bool

def qualified (tableAlias column : String) : String := tableAlias ++ "." ++ column

def Entity.ending (e : Entity) (segment : String) : Except Error Attribute :=
  if segment = Path.idSegment then e.primary else e.attributeNamed segment

namespace JoinPlan

/-- Letters and digits of ASCII in lower case, an underscore for anything else. -/
def aliasBase (name : String) : String :=
  name.map fun c => if c.isAlphanum then c.toLower else '_'

def aliasNumbered (name : String) (n : Nat) : String := aliasBase name ++ "_" ++ toString n

def ofRoot (root : Entity) : JoinPlan := ⟨aliasNumbered root.name 1, [], 1⟩

def aliasOf? (plan : JoinPlan) (path : String) : Option String :=
  (plan.joined.get? (Path.normalize path)).map JoinedPath.tableAlias

def size (plan : JoinPlan) : Nat := plan.joined.length

end JoinPlan

namespace ScopedPredicate

def conditionAt (p : ScopedPredicate) (path : String) (target : Entity) (tableAlias : String) :
    Except Error (Option Condition) :=
  if p.applied then .ok none
  else
    match Path.parentAndLeaf? p.path with
    | none => .ok none
    | some (parent, leaf) =>
      if parent ≠ path then .ok none
      else do
        let a ← target.ending leaf
        let predicate ← p.operator.predicate (qualified tableAlias a.column) p.value p.parameter
        return some predicate.condition

end ScopedPredicate

namespace Planning

def nextAlias (name : String) : Steps Planning String := do
  let s ← get
  let n := s.plan.counter + 1
  set { s with plan := { s.plan with counter := n } }
  return JoinPlan.aliasNumbered name n

def addJoin (j : Join) : Steps Planning Unit :=
  modify fun s => { s with query := s.query.join j }

def record (path : String) (joined : JoinedPath) : Steps Planning Unit :=
  modify fun s => { s with plan := { s.plan with joined := s.plan.joined.insert path joined } }

def associate (parent : Position) (a : Association) (target : Entity) (child : String)
    (type : JoinType) : Steps Planning Condition := do
  let source ← parent.entity.key a.sourceKey
  let destination ← target.key a.targetKey
  match a.relation with
  | .belongsTo =>
    return .columnsEq (qualified parent.tableAlias a.foreignKey)
      (qualified child destination.column)
  | .hasOne | .hasMany =>
    return .columnsEq (qualified parent.tableAlias source.column) (qualified child a.foreignKey)
  | .manyToMany link =>
    let linkAlias := parent.tableAlias ++ "_" ++ child
    addJoin {
      type, table := link.table, tableAlias := linkAlias
      on := .columnsEq (qualified parent.tableAlias source.column)
        (qualified linkAlias link.sourceColumn) }
    return .columnsEq (qualified linkAlias link.targetColumn) (qualified child destination.column)

def takeWaiting (path : String) (target : Entity) (child : String) :
    Steps Planning (List Condition) := do
  match (← get).waiting with
  | none => return []
  | some p =>
    match ← p.conditionAt path target child with
    | none => return []
    | some c =>
      modify fun s => { s with waiting := some { p with applied := true } }
      return [c]

def notDeleted (e : Entity) (tableAlias : String) : List Condition :=
  match e.softDelete with
  | some column => [.isNull (qualified tableAlias column)]
  | none => []

def joinNew (parent : Position) (a : Association) (target : Entity) (path : String) (left : Bool) :
    Steps Planning JoinedPath := do
  let type := if left then JoinType.left else .inner
  let child ← nextAlias a.name
  let tie ← associate parent a target child type
  let waiting ← takeWaiting path target child
  addJoin {
    type, table := target.table, tableAlias := child
    on := .all (tie :: notDeleted target child ++ waiting) }
  let joined : JoinedPath := ⟨child, left⟩
  record path joined
  return joined

def hopIsLeft (mode : JoinMode) (optional : Bool) (parent : Position) (a : Association) : Bool :=
  parent.left || mode = .left || optional || a.relation = .hasOne
    || (a.relation.toMany && mode = .inner)

/-- The join of an association at a path, new unless the path is joined already. -/
def joinAt (mode : JoinMode) (segment : String) (here : Position) (a : Association)
    (target : Entity) (path : String) : Steps Planning JoinedPath := do
  match (← get).plan.joined.get? path with
  | some joined => return joined
  | none => joinNew here a target path (hopIsLeft mode (Path.isOptional segment) here a)

def hop (mode : JoinMode) (segment : String) (here : Position) (a : Association)
    (target : Entity) : Steps Planning Position := do
  let path := Path.under here.path (Path.bare segment)
  let joined ← joinAt mode segment here a target path
  return ⟨target, joined.tableAlias, path, here.toMany || a.relation.toMany, joined.left⟩

def columnAt (here : Position) (a : Attribute) (tail : Bool) : Resolved :=
  ⟨qualified here.tableAlias a.column, here.entity.name, a.type, here.toMany, tail⟩

def endAt (here : Position) (name : String) (rest : List String) : Steps Planning Resolved :=
  if rest.isEmpty then do
    let a ← here.entity.ending name
    return columnAt here a false
  else throw (.unknownAssociation name here.entity.name)

def keyAt (here : Position) : Steps Planning Resolved := do
  let key ← here.entity.primary
  return columnAt here key true

def walk (σ : Schema) (path : String) (mode : JoinMode) :
    List String → Position → Steps Planning Resolved
  | [], here => throw (.unknownAttribute path here.entity.name)
  | segment :: rest, here =>
    match here.entity.association? (Path.bare segment) with
    | none => endAt here (Path.bare segment) rest
    | some a =>
      if rest.isEmpty && !(here.toMany || a.relation.toMany) then
        throw (.selectedWholeAssociation path)
      else do
        let target ← σ.entity a.target
        let next ← hop mode segment here a target
        if rest.isEmpty then keyAt next else walk σ path mode rest next

def resolve (σ : Schema) (root : Entity) (path : String) (mode : JoinMode) :
    Steps Planning Resolved := do
  let start : Position := ⟨root, (← get).plan.rootAlias, "", false, false⟩
  walk σ path mode (Path.segments path) start

end Planning

end RecordQuery
