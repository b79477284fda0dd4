import RecordQuery.Dialect
import RecordQuery.Error

namespace RecordQuery

inductive SqlType
  | bigInt | integer | smallInt | real | doublePrecision | text | boolean | timestamp | json | bytea
  deriving DecidableEq

def SqlType.sql (δ : Dialect) : SqlType → String
  | .bigInt => "BIGINT"
  | .integer => "INTEGER"
  | .smallInt => "SMALLINT"
  | .real => "REAL"
  | .doublePrecision => if δ = .mysql then "DOUBLE" else "DOUBLE PRECISION"
  | .text => "TEXT"
  | .boolean => "BOOLEAN"
  | .timestamp => if δ = .mysql then "DATETIME" else "TIMESTAMP"
  | .json =>
    match δ with
    | .postgres => "JSONB"
    | .mysql => "JSON"
    | .sqlite => "TEXT"
  | .bytea => if δ = .postgres then "BYTEA" else "BLOB"

structure Attribute where
  name : String
  column : String
  type : SqlType
  deriving DecidableEq

structure LinkTable where
  table : String
  sourceColumn : String
  targetColumn : String
  deriving DecidableEq

inductive Relation
  | belongsTo
  | hasOne
  | hasMany
  | manyToMany (link : LinkTable)
  deriving DecidableEq

def Relation.toMany : Relation → Bool
  | .hasMany | .manyToMany _ => true
  | .belongsTo | .hasOne => false

/-- The foreign key is a column of the source for `belongsTo`, of the target for `hasOne` and
`hasMany`, and unused through a link table. The keys name attributes and default to the primary
keys. -/
structure Association where
  name : String
  relation : Relation
  target : String
  foreignKey : String
  sourceKey : Option String
  targetKey : Option String
  deriving DecidableEq

structure Entity where
  name : String
  table : String
  primaryKey : Option String
  attributes : List Attribute
  softDelete : Option String
  associations : List Association
  deriving DecidableEq

namespace Entity

def ofTable (name table : String) : Entity := ⟨name, table, none, [], none, []⟩

def withAttribute (e : Entity) (a : Attribute) : Entity :=
  { e with attributes := e.attributes.filter (·.name != a.name) ++ [a] }

def withPrimaryKey (e : Entity) (a : Attribute) : Entity :=
  { e with primaryKey := some a.name }.withAttribute a

def withSoftDelete (e : Entity) (column : String) : Entity := { e with softDelete := some column }

def defaultDeletedColumn : String := "deletedAt"

def withAssociation (e : Entity) (a : Association) : Entity :=
  { e with associations := e.associations.filter (·.name != a.name) ++ [a] }

def attribute? (e : Entity) (name : String) : Option Attribute :=
  e.attributes.find? (·.name == name)

def association? (e : Entity) (name : String) : Option Association :=
  e.associations.find? (·.name == name)

def attributeNamed (e : Entity) (name : String) : Except Error Attribute :=
  match e.attribute? name with
  | some a => .ok a
  | none => .error (.unknownAttribute name e.name)

def primary? (e : Entity) : Option Attribute := e.primaryKey.bind e.attribute?

def primary (e : Entity) : Except Error Attribute :=
  match e.primary? with
  | some a => .ok a
  | none => .error (.schema (.noPrimaryKey e.name))

def key (e : Entity) : Option String → Except Error Attribute
  | some name => e.attributeNamed name
  | none => e.primary

end Entity

end RecordQuery
