import RecordQuery.Replay
import RecordQuery.Store.Database

namespace RecordQuery.Store

inductive Place
  | memory
  | file
  | nowhere
  deriving DecidableEq

structure Connection where
  memory : Database
  file : Database
  inFile : Bool

namespace Connection

def openAt (file : Database) : Place → Except Error Connection
  | .memory => .ok ⟨[], file, false⟩
  | .file => .ok ⟨[], file, true⟩
  | .nowhere => .error .storage

def current (c : Connection) : Database := if c.inFile then c.file else c.memory

def keep (c : Connection) (db : Database) : Connection :=
  if c.inFile then { c with file := db } else { c with memory := db }

def send (sql : String) (params : List Value) : Steps Connection Answer := do
  let c ← get
  let (db, answer) ← c.current.run sql params
  set (c.keep db)
  return answer

def execute (sql : String) (params : List Value) : Steps Connection Nat := do
  match ← send sql params with
  | .affected n => return n
  | .rows _ => return 0

def query (sql : String) (params : List Value) : Steps Connection (List Record) := do
  match ← send sql params with
  | .affected _ => return []
  | .rows rows => return rows

/-- Statements before a refused one stay done. -/
def executeBatch (sql : String) : Steps Connection Unit :=
  (Statement.batch sql).forM fun sql => do
    let _ ← send sql []

def reopen (place : Place) : Steps Connection Unit := do
  set (← openAt (← get).file place)

end Connection

end RecordQuery.Store
