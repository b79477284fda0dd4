import RecordQuery.Error
import RecordQuery.Sql.Statement
import RecordQuery.Text.Blank
import RecordQuery.Text.Split

namespace RecordQuery

abbrev Backend := Statement → Except Error (List Record)

structure Response where
  pattern : String
  params : Option (List Value)
  answer : Except String (List Record)

namespace Response

def matchesStatement (r : Response) (s : Statement) : Bool :=
  Text.occurs r.pattern s.sql && r.params.all (Value.sameItems · s.params)

def replay (responses : List Response) : Backend := fun s =>
  match responses.find? (·.matchesStatement s) with
  | none => .ok []
  | some r =>
    match r.answer with
    | .ok rows => .ok rows
    | .error reason => .error (.database reason)

end Response

/-- The statements of a text, cut at semicolons without regard to quotes. -/
def Statement.batch (sql : String) : List String :=
  ((Text.split ';' sql).map Text.trim).filter (· != "")

end RecordQuery
