import RecordQuery.Provider.Compile
import RecordQuery.Record.Row

namespace RecordQuery

structure ListPage where
  rows : List Record
  count : Nat
  number : Nat
  pages : Nat

namespace Provider

abbrev Execute := CompiledQuery → Statement → Steps Session (List Record)

def counting (steps : Steps Nat α) : Steps Session α := fun s =>
  match steps s.uses with
  | (result, uses) => (result, { s with uses })

theorem counting_apply (steps : Steps Nat α) (s : Session) :
    counting steps s = ((steps s.uses).1, { s with uses := (steps s.uses).2 }) := rfl

theorem counting_ok_iff {steps : Steps Nat α} {s t : Session} {a : α} :
    counting steps s = (.ok a, t) ↔ ∃ uses, steps s.uses = (.ok a, uses) ∧ t = { s with uses } := by
  rw [counting_apply]
  constructor
  · intro h
    obtain ⟨ha, rfl⟩ := Prod.mk.inj h
    exact ⟨_, Prod.ext ha rfl, rfl⟩
  · rintro ⟨uses, h, rfl⟩
    rw [h]

def compiling (p : Provider) (model : String) (r : Request) : Steps Session CompiledQuery :=
  counting (p.compile model r)

def fetch (backend : Backend) (statement : Statement) : Steps Session (List Record) := do
  modify fun s => { s with log := s.log ++ [statement] }
  backend statement

def fetchCount (backend : Backend) (statement : Statement) : Steps Session Nat := do
  let rows ← fetch backend statement
  match rows.head?.bind (Record.int64? QueryPair.countColumn) with
  | some n => return n.toNat
  | none => throw .noCount

def usesCache (p : Provider) (m : Model) (r : Request) : Bool :=
  m.cacheTimeout.isSome && p.config.useCache && r.cached != some false && !r.hasCriteria

def cacheOf? (model : String) (s : Session) : Option (ListCache Loaded) := s.caches.get? model

def loaded (rows : List Record) : Steps Session Loaded := do
  let s ← get
  set { s with loads := s.loads + 1 }
  return ⟨s.loads, rows⟩

def store (model key : String) (list : Loaded) : Steps Session Unit :=
  modify fun s =>
    match cacheOf? model s with
    | some cache => { s with caches := s.caches.insert model (cache.replace s.clock key list) }
    | none => s

def lookup? (model key : String) (s : Session) : Option Loaded :=
  (cacheOf? model s).bind (ListCache.fresh? s.clock key)

def load (execute : Execute) (compiled : CompiledQuery) (statement : Statement) :
    Steps Session Loaded := do
  loaded (← execute compiled statement)

def cachedList (execute : Execute) (model key : String) (compiled : CompiledQuery)
    (statement : Statement) : Steps Session Loaded := do
  match lookup? model key (← get) with
  | some list => return list
  | none =>
    let list ← load execute compiled statement
    store model key list
    return list

def listWith (p : Provider) (execute : Execute) (model : String) (r : Request) :
    Steps Session Loaded := do
  let m ← p.model model
  let compiled ← p.compiling model r
  let statement ← compiled.query.rowStatement p.dialect
  if p.usesCache m r then
    let key ← r.cacheKey p.config.defaultProjection
    cachedList execute model key compiled statement
  else load execute compiled statement

def siblingRequest (p : Provider) : Request :=
  Request.empty.withProjection p.config.defaultProjection

def siblings (p : Provider) (execute : Execute) (entity : String) : Steps Session EntityIndex := do
  let list ← p.listWith execute entity p.siblingRequest
  return .ofRecords list.rows

def nestedList (p : Provider) (execute : Execute) (entity : String) (parentId : Value)
    (task : NestedTask) : Steps Session (String × Value) := do
  let root ← p.schema.entity entity
  let compiled ← counting (Compilation.nestedQuery (p.setting root) task parentId)
  let statement ← compiled.query.rowStatement p.dialect
  let rows ← execute compiled statement
  return (task.options.outputKey, .list (rows.map Value.record))

/-- Handlers first, then nested lists, then middlewares. -/
def materialize (p : Provider) (execute : Execute) (compiled : CompiledQuery)
    (dependencies : List EntityIndex) (row : Record) : Steps Session Record := do
  let r := Handler.applyAll dependencies compiled.handlers row
  let parentId := (r.get? Path.idSegment).getD .null
  let lists ← compiled.nested.mapM (p.nestedList execute compiled.entity parentId)
  let r := lists.foldl (fun r (key, list) => r.insert key list) r
  return Middleware.runAll compiled.middlewares r

/-- Sends the row statement, loads the siblings it denormalizes from, and builds the records. The
fuel bounds how far lists need other lists. -/
def execute (p : Provider) (backend : Backend) : Nat → Execute
  | 0, compiled, _ => throw (.endless compiled.entity)
  | fuel + 1, compiled, statement => do
    let rows ← fetch backend statement
    let dependencies ← compiled.dependencies.mapM (p.siblings (p.execute backend fuel))
    rows.mapM (p.materialize (p.execute backend fuel) compiled dependencies)

def deepest (p : Provider) : Nat :=
  p.models.foldl (fun d (_, m) => m.projections.foldl (fun d (_, q) => max d q.depth) d) 0

/-- A chain of lists that need each other visits no model twice, nor nests deeper than a
projection, unless it is endless. -/
def fuel (p : Provider) : Nat := (p.models.length + 2) * (p.deepest + 1)

def run (p : Provider) (backend : Backend) : Execute := p.execute backend p.fuel

def list (p : Provider) (backend : Backend) (model : String) (r : Request) :
    Steps Session Loaded := p.listWith (p.run backend) model r

def requestList (p : Provider) (backend : Backend) (model : String) (r : Request) :
    Steps Session ListPage := do
  let some page ← r.pageParams | throw (.invalidPage .sizeRequired)
  let compiled ← p.compiling model r
  let rowStatement ← compiled.query.rowStatement p.dialect
  let countStatement ← compiled.query.countStatement p.dialect
  let rows ← p.run backend compiled rowStatement
  let count ← fetchCount backend countStatement
  return ⟨rows, count, page.number, page.pages count⟩

def count (p : Provider) (backend : Backend) (model : String) (r : Request) :
    Steps Session Nat := do
  let compiled ← p.compiling model
    { Request.empty with projection := some Model.countProjection, criteria := r.criteria }
  fetchCount backend (← compiled.query.countStatement p.dialect)

def single (p : Provider) (backend : Backend) (model : String) (r : Request) :
    Steps Session (Option Record) := do
  let compiled ← p.compiling model r
  let statement ← compiled.query.firstStatement p.dialect
  return (← p.run backend compiled statement).head?

def relatedList (model : String) : Steps Session ListPage := throw (.unsupportedRelatedList model)

def invalidate (p : Provider) (model : String) : Steps Session Unit := do
  let _ ← p.model model
  modify fun s =>
    match cacheOf? model s with
    | some cache => { s with caches := s.caches.insert model cache.invalidate }
    | none => s

def advance (ms : Nat) : Steps Session Unit := modify fun s => { s with clock := s.clock + ms }

def executeBatch (backend : Backend) (sql : String) : Steps Session Unit :=
  (Statement.batch sql).forM fun sql => do
    let _ ← fetch backend ⟨sql, []⟩

end Provider

end RecordQuery
