import RecordQuery.Schema

namespace RecordQuery

structure Column where
  name : String
  type : SqlType
  required : Bool
  deriving DecidableEq

structure Table where
  name : String
  columns : List Column
  primaryKey : List String
  deriving DecidableEq

namespace Table

/-- A column name that is present keeps its first type. -/
def addColumn (columns : List Column) (c : Column) : List Column :=
  if columns.any (·.name == c.name) then columns else columns ++ [c]

def columnSql (δ : Dialect) (c : Column) : String :=
  "    " ++ δ.quote c.name ++ " " ++ c.type.sql δ ++ (if c.required then " NOT NULL" else "")

def sql (δ : Dialect) (t : Table) : String :=
  let key := "    PRIMARY KEY (" ++ ", ".intercalate (t.primaryKey.map δ.quote) ++ ")"
  "CREATE TABLE IF NOT EXISTS " ++ δ.quote t.name ++ " (\n"
    ++ ",\n".intercalate (t.columns.map (columnSql δ) ++ [key]) ++ "\n);"

end Table

inductive Storage
  | column (entity : String) (c : Column)
  | link (t : Table)
  deriving DecidableEq

namespace Schema

def storage (σ : Schema) (e : Entity) (a : Association) : Except Error Storage := do
  let target ← σ.entity a.target
  match a.relation with
  | .belongsTo =>
    let key ← target.key a.targetKey
    return .column e.name ⟨a.foreignKey, key.type, false⟩
  | .hasOne | .hasMany =>
    let key ← e.key a.sourceKey
    return .column target.name ⟨a.foreignKey, key.type, false⟩
  | .manyToMany link =>
    let source ← e.key a.sourceKey
    let destination ← target.key a.targetKey
    return .link {
      name := link.table
      columns := [⟨link.sourceColumn, source.type, true⟩,
        ⟨link.targetColumn, destination.type, true⟩]
      primaryKey := [link.sourceColumn, link.targetColumn] }

def storages (σ : Schema) : Except Error (List Storage) := do
  return (← σ.entities.mapM fun e => e.associations.mapM (σ.storage e)).flatten

def foreignColumns (entity : String) (storages : List Storage) : List Column :=
  storages.filterMap fun
    | .column e c => if e = entity then some c else none
    | .link _ => none

/-- Of two links with one table name the first counts. -/
def linkTables (storages : List Storage) : List Table :=
  storages.foldl (fun tables s =>
    match s with
    | .link t => if tables.any (·.name == t.name) then tables else tables ++ [t]
    | .column _ _ => tables) []

def entityTable (storages : List Storage) (e : Entity) : Except Error Table := do
  let key ← e.primary
  let own := e.attributes.map fun a => (⟨a.column, a.type, a.name == key.name⟩ : Column)
  let columns := (foreignColumns e.name storages).foldl Table.addColumn own
  let columns := match e.softDelete with
    | some column => Table.addColumn columns ⟨column, .timestamp, false⟩
    | none => columns
  return ⟨e.table, columns, [key.column]⟩

def tables (σ : Schema) : Except Error (List Table) := do
  let storages ← σ.storages
  return (← σ.entities.mapM (entityTable storages)) ++ linkTables storages

def ddl (δ : Dialect) (σ : Schema) : Except Error String := do
  return "\n\n".intercalate ((← σ.tables).map (Table.sql δ))

end Schema

end RecordQuery
