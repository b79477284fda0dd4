import RecordQuery.JoinPlan
import RecordQuery.Projection

namespace RecordQuery

structure Setting where
  schema : Schema
  root : Entity
  dialect : Dialect
  cached : String → Bool

structure NestedTask where
  path : String
  parent : String
  options : NestedOptions
  inner : Projection
  criteria : Option Value
  pool : Pool

structure CompiledQuery where
  entity : String
  query : QueryPair
  handlers : List Handler
  nested : List NestedTask
  /-- The cached entities that denormalizing handlers name by position. -/
  dependencies : List String
  middlewares : List Middleware
  grouped : Bool

structure Compilation where
  plan : JoinPlan
  query : QueryPair
  primitives : List String
  handlers : List Handler
  nested : List NestedTask
  dependencies : List String
  middlewares : List Middleware
  grouped : Bool
  pool : Pool
  uses : Nat

namespace Compilation

def start (s : Setting) (pool : Pool) (uses : Nat) : Compilation :=
  let plan := JoinPlan.ofRoot s.root
  let query := QueryPair.ofTable s.root.table plan.rootAlias
  { plan
    query := (Planning.notDeleted s.root plan.rootAlias).foldl QueryPair.addFilter query
    primitives := [], handlers := [], nested := [], dependencies := [], middlewares := []
    grouped := false, pool, uses }

def finish (s : Setting) (c : Compilation) : CompiledQuery :=
  ⟨s.root.name, c.query, c.handlers, c.nested, c.dependencies, c.middlewares, c.grouped⟩

def onQuery (f : QueryPair → QueryPair) : Steps Compilation Unit :=
  modify fun c => { c with query := f c.query }

/-- Resolves a path while a predicate waits for its join; answers whether it waits no longer. -/
def resolveScoped (s : Setting) (path : String) (mode : JoinMode)
    (waiting : Option ScopedPredicate) : Steps Compilation (Resolved × Bool) := fun c =>
  match Planning.resolve s.schema s.root path mode ⟨c.plan, c.query, waiting⟩ with
  | (result, planning) =>
    (result.map fun r => (r, planning.waiting.any ScopedPredicate.applied),
      { c with plan := planning.plan, query := planning.query })

def resolve (s : Setting) (path : String) (mode : JoinMode) : Steps Compilation Resolved := do
  return (← resolveScoped s path mode none).1

def addPrimitive (column : String) : Steps Compilation Unit :=
  modify fun c =>
    if column ∈ c.primitives then c else { c with primitives := c.primitives ++ [column] }

def addHandlers (handlers : List Handler) : Steps Compilation Unit :=
  modify fun c => { c with handlers := c.handlers ++ handlers }

def dependency (entity : String) : Steps Compilation Nat := do
  let c ← get
  match c.dependencies.idxOf? entity with
  | some i => return i
  | none =>
    set { c with dependencies := c.dependencies ++ [entity] }
    return c.dependencies.length

def takeFromPool (name : String) : Steps Compilation (Option Value) := do
  let c ← get
  set { c with pool := c.pool.swapRemove name }
  return c.pool.get? name

def selectPlain (column label : String) (type : Option SqlType) : Steps Compilation Unit := do
  onQuery (·.field column label)
  addPrimitive column
  addHandlers (Handler.forColumn? label type).toList

def takeCriteria (options : NestedOptions) : Steps Compilation (Option Value) :=
  match options.criteria with
  | some criteria => takeFromPool criteria.name
  | none => return none

def deferList (path parent : String) (options : NestedOptions) (inner : Projection) :
    Steps Compilation Unit := do
  let criteria ← takeCriteria options
  modify fun c =>
    { c with nested := c.nested ++ [⟨path, parent, options, inner, criteria, c.pool⟩] }

def scopedPredicate? (pool : Pool) (base : String) (leaf : FieldLeaf) : Option ScopedPredicate := do
  let k ← leaf.criterion
  let value ← (← pool.get? k.criterion).field? k.parameter
  return ⟨Path.under base k.path, k.operator, value, k.parameter, false⟩

def takeScoped (leaf : FieldLeaf) (applied : Bool) : Steps Compilation (Option Value) :=
  match applied, leaf.criterion with
  | true, some k => takeFromPool k.criterion
  | _, _ => return none

def selectFunction (s : Setting) (label : String) (r : Resolved) (f : ColumnFunction) :
    Steps Compilation Unit := do
  onQuery (·.field (f.sql s.dialect r.column) label)
  (if f.isAggregate then pure () else addPrimitive r.column)
  addHandlers (Handler.forColumn? label (f.resultType r.type)).toList

def selectResolved (s : Setting) (leaf : FieldLeaf) (r : Resolved) : Steps Compilation Unit :=
  match leaf.function with
  | none => selectPlain r.column leaf.label (some r.type)
  | some f => selectFunction s leaf.label r f

/-- Selects a field leaf; answers whether it aggregates. -/
def selectField (s : Setting) (path base : String) (mode : JoinMode) (leaf : FieldLeaf) :
    Steps Compilation Bool := do
  let waiting := scopedPredicate? (← get).pool base leaf
  let mode := if leaf.join = .inner then .forceInner else mode
  let (r, applied) ← resolveScoped s path mode waiting
  let _ ← takeScoped leaf applied
  selectResolved s leaf r
  return leaf.function.any ColumnFunction.isAggregate

/-- Selects the ids of a to-many association, to be replaced by records of its cached model. -/
def selectSiblings (s : Setting) (path label : String) (r : Resolved) : Steps Compilation Unit :=
  if s.cached r.entity then do
    let position ← dependency r.entity
    onQuery (·.field (s.dialect.groupConcat r.column) label)
    addHandlers [.denormalize label position]
    if Handler.isDotted label then addHandlers [.unflatten label none] else pure ()
  else throw (.ungroupedToMany path)

def selectColumn (s : Setting) (path : String) (mode : JoinMode) (label : String) :
    Steps Compilation Bool := do
  let r ← resolve s path mode
  (if r.tail then selectSiblings s path label r else selectPlain r.column label (some r.type))
  return r.tail

def leaf (s : Setting) (base : String) (mode : JoinMode) :
    String × Leaf → Steps Compilation Bool
  | (path, .column label) => selectColumn s (Path.under base path) mode label
  | (path, .field leaf) => selectField s (Path.under base path) base mode leaf
  | (path, .list options inner) => do
    deferList (Path.under base path) base options inner
    return false

def selectKey (s : Setting) (base : String) (mode : JoinMode) : Steps Compilation Unit := do
  let key ← resolve s (Path.under base Path.idSegment) mode
  onQuery (·.field key.column Path.idSegment)
  addPrimitive key.column

def groupPrimitives (grouped : Bool) : Steps Compilation Unit :=
  modify fun c =>
    if grouped then
      { c with query := c.primitives.foldl QueryPair.group c.query, grouped := true }
    else c

def fields (s : Setting) (p : Projection) (base : String) (grouped : Bool) (mode : JoinMode) :
    Steps Compilation Bool := do
  let aggregates ← p.leaves.mapM (leaf s base mode)
  selectKey s base mode
  groupPrimitives (grouped || aggregates.any id)
  return grouped || aggregates.any id

def setMiddlewares (p : Projection) : Steps Compilation Unit :=
  modify fun c => { c with middlewares := p.middlewares }

def projection (s : Setting) (p : Projection) : Steps Compilation Bool := do
  setMiddlewares p
  fields s p "" false .left

def sortExpression (s : Setting) (base : String) (t : SortField) : Steps Compilation String :=
  if t.raw then pure (s.dialect.quote t.path)
  else Resolved.column <$> resolve s (Path.under base t.path) .left

def sortTerm (s : Setting) (base : String) (t : SortField) : Steps Compilation Unit := do
  let expression ← sortExpression s base t
  onQuery (·.order ⟨expression, some t.direction⟩)

def sort (s : Setting) (base : String) : SortSpec → Steps Compilation Unit
  | .random => onQuery (·.order ⟨s.dialect.random, none⟩)
  | .fields terms => terms.forM (sortTerm s base)

def criterionValue (item : Criterion) (bag : Value) (single : Bool) :
    Steps Compilation (Option Value) := do
  let c ← get
  let (value, uses) := item.value? bag single c.uses
  set { c with uses }
  return value

/-- The predicate of one criterion and whether its path leads to many rows; nothing without a
value, unless the operator needs none. -/
def criterion (s : Setting) (bag : Value) (single : Bool) (base : String) (item : Criterion) :
    Steps Compilation (Option (Predicate × Bool)) := do
  let value ← criterionValue item bag single
  if value.isNone && item.operator.takesValue then return none
  else
    let r ← resolve s (Path.under base item.path) .left
    let predicate ← item.operator.predicate r.column (value.getD .null) item.parameter
    return some (predicate, r.toMany)

def someRow (δ : Dialect) (c : Condition) : Condition :=
  .raw (δ.sum ("CASE WHEN " ++ c.fragment.sql ++ " THEN 1 ELSE 0 END") ++ " > 0") c.fragment.values

/-- In a grouped query predicates over many rows ask for some row of the group. -/
def place (s : Setting) (toMany : Bool) (condition : Condition) : Steps Compilation Unit :=
  modify fun c =>
    if toMany && c.grouped then { c with query := c.query.addHaving (someRow s.dialect condition) }
    else { c with query := c.query.addFilter condition }

def placeAll (s : Setting) (connective : Connective) (found : List (Predicate × Bool)) :
    Steps Compilation Unit := do
  let predicates := (found.map Prod.fst).foldl Predicates.push .empty
  (if predicates.expression.isEmpty then pure ()
    else place s (found.any Prod.snd) (Condition.combine connective predicates.expression))
  predicates.statement.forM fun condition => onQuery (·.addFilter condition)

def criteria (s : Setting) (spec : CriteriaSpec) (bag : Value) (base : String) :
    Steps Compilation Unit := do
  let found ← spec.items.mapM (criterion s bag (spec.items.length = 1) base)
  placeAll s spec.connective (found.filterMap id)

/-- Criteria of a nested list filter its rows, not its groups. -/
def ungroupedCriteria (s : Setting) (spec : CriteriaSpec) (bag : Value) (base : String) :
    Steps Compilation Unit := do
  let grouped := (← get).grouped
  modify fun c => { c with grouped := false }
  criteria s spec bag base
  modify fun c => { c with grouped := grouped }

def nestedMode (options : NestedOptions) : JoinMode :=
  match options.join with
  | .inner => .inner
  | .left => .left

def nestedSort (s : Setting) (task : NestedTask) : Steps Compilation Unit :=
  match task.options.sort with
  | some order => sort s task.path order
  | none => pure ()

def nestedCriteria (s : Setting) (task : NestedTask) : Steps Compilation Unit :=
  match task.options.criteria, task.criteria with
  | some criteria, some bag => ungroupedCriteria s criteria.spec bag task.path
  | _, _ => pure ()

def applyNested (s : Setting) (task : NestedTask) (parentId : Value) : Steps Compilation Unit := do
  nestedSort s task
  let parent ← resolve s (Path.under task.parent Path.idSegment) .left
  onQuery (·.addFilter (.eq parent.column parentId))
  nestedCriteria s task

def nestedSteps (s : Setting) (task : NestedTask) (parentId : Value) : Steps Compilation Unit := do
  let _ ← resolve s (Path.under task.path Path.idSegment) .forceInner
  setMiddlewares task.inner
  let _ ← fields s task.inner task.path true (nestedMode task.options)
  applyNested s task parentId

/-- Runs a compilation of its own, which goes on counting uses of computed values. -/
def run (s : Setting) (pool : Pool) (steps : Steps Compilation Unit) : Steps Nat CompiledQuery :=
  fun uses =>
    match steps (start s pool uses) with
    | (result, c) => (result.map fun _ => c.finish s, c.uses)

def nestedQuery (s : Setting) (task : NestedTask) (parentId : Value) : Steps Nat CompiledQuery :=
  run s task.pool (nestedSteps s task parentId)

end Compilation

end RecordQuery
