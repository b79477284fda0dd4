import RecordQuery.Compilation
import RecordQuery.ListCache
import RecordQuery.Model
import RecordQuery.Replay
import RecordQuery.Request

namespace RecordQuery

/-- A loaded list. Lists with one serial number are the same list, served from the cache. -/
structure Loaded where
  serial : Nat
  rows : List Record

structure Config where
  defaultProjection : String
  useCache : Bool

def Config.standard : Config := ⟨"default", true⟩

structure Provider where
  schema : Schema
  dialect : Dialect
  config : Config
  models : Fields Model

structure Session where
  caches : Fields (ListCache Loaded)
  clock : Nat
  uses : Nat
  loads : Nat
  log : List Statement

namespace Provider

def addModel (σ : Schema) (models : Fields Model) (m : Model) : Except Error (Fields Model) := do
  let _ ← σ.entity m.entity
  if models.contains m.entity then throw (.schema (.duplicateModel m.entity))
  return models ++ [(m.entity, m)]

/-- Every model has an entity of the valid schema, and every entity at most one model. -/
def build (σ : Schema) (δ : Dialect) (config : Config) (models : List Model) :
    Except Error Provider := do
  σ.validate
  let models ← models.foldlM (addModel σ) []
  return ⟨σ, δ, config, models⟩

def model (p : Provider) (name : String) : Except Error Model :=
  match p.models.get? name with
  | some m => .ok m
  | none => .error (.unknownModel name)

def isCached (p : Provider) (entity : String) : Bool :=
  (p.models.get? entity).any (·.cacheTimeout.isSome)

def setting (p : Provider) (root : Entity) : Setting := ⟨p.schema, root, p.dialect, p.isCached⟩

def emptyCaches (p : Provider) : Fields (ListCache Loaded) :=
  p.models.filterMap fun (name, m) => m.cacheTimeout.map fun timeout => (name, .empty timeout)

def session (p : Provider) (uses : Nat) : Session := ⟨p.emptyCaches, 0, uses, 0, []⟩

end Provider

end RecordQuery
