import RecordQuery.Criteria
import RecordQuery.Sql.Page
import RecordQuery.Text.Blank

namespace RecordQuery

inductive SortRequest
  | one (name : String)
  | many (names : List String)
  deriving DecidableEq

def SortRequest.names : SortRequest → List String
  | .one name => [name]
  | .many names => names

inductive PageParam
  | number (n : Int)
  | text (s : String)
  deriving DecidableEq

def PageParam.parse (parameter : String) : PageParam → Except Error Int
  | .number n => .ok n
  | .text s =>
    match Text.int64? (Text.trimChars s.toList) with
    | some n => .ok n
    | none => .error (.invalidPage (.numeral parameter s))

structure Request where
  projection : Option String
  criteria : Pool
  sort : Option SortRequest
  page : Option PageParam
  pageSize : Option PageParam
  cached : Option Bool

namespace Request

def empty : Request := ⟨none, [], none, none, none, none⟩

def withProjection (r : Request) (name : String) : Request := { r with projection := some name }

def withCriterion (r : Request) (name : String) (bag : Value) : Request :=
  { r with criteria := r.criteria.insert name bag }

def withSort (r : Request) (name : String) : Request :=
  { r with
    sort := some (match r.sort with
      | none => .one name
      | some s => .many (s.names ++ [name])) }

def withPage (r : Request) (page size : PageParam) : Request :=
  { r with page := some page, pageSize := some size }

def withCached (r : Request) (cached : Bool) : Request := { r with cached := some cached }

def sortNames (r : Request) : List String := (r.sort.map SortRequest.names).getD []

def hasCriteria (r : Request) : Bool := r.criteria.any fun (_, bag) => !bag.isNull

/-- The page asked for. Its number defaults to one, but a number needs a size. -/
def pageParams (r : Request) : Except Error (Option Page) :=
  match r.page, r.pageSize with
  | page, some size => do
    let number ← match page with
      | some page => page.parse "page"
      | none => pure 1
    let size ← size.parse "pageSize"
    some <$> Page.of? number size
  | some _, none => .error (.invalidPage .sizeRequiredWithPage)
  | none, none => .ok none

def pageText : Option Page → String
  | some page => toString page.number ++ ":" ++ toString page.size
  | none => ""

def cacheKey (r : Request) (defaultProjection : String) : Except Error String :=
  r.pageParams.map fun page =>
    "|".intercalate [r.projection.getD defaultProjection, ",".intercalate r.sortNames,
      pageText page]

def optional (read? : Value → Option α) (key : String) (fields : Record) :
    Option (Option α) :=
  match fields.get? key with
  | none | some .null => some none
  | some v => (read? v).map some

def sortRequest? : Value → Option SortRequest
  | .text name => some (.one name)
  | .list items => (items.mapM Value.text?).map .many
  | _ => none

def pageParam? : Value → Option PageParam
  | .int n => if n ≤ Text.maxInt64 then some (.number n) else none
  | .text s => some (.text s)
  | _ => none

/-- Absent criteria are none, but null is no record. -/
def criteria? (fields : Record) : Option Pool :=
  match fields.get? "criteria" with
  | none => some []
  | some v => v.fields?

def ofFields? (fields : Record) : Option Request := do
  return {
    projection := ← optional Value.text? "projection" fields
    criteria := ← criteria? fields
    sort := ← optional sortRequest? "sort" fields
    page := ← optional pageParam? "page" fields
    pageSize := ← optional pageParam? "pageSize" fields
    cached := ← optional Value.bool? "cached" fields }

def fieldNames : List String := ["projection", "criteria", "sort", "page", "pageSize", "cached"]

def ofValue (v : Value) : Except Error Request :=
  match v with
  | .record fields => (ofFields? fields).elim (.error .malformed) .ok
  | .list items =>
    if items.length = fieldNames.length then
      (ofFields? (fieldNames.zip items)).elim (.error .malformed) .ok
    else .error .malformed
  | _ => .error .malformed

end Request

end RecordQuery
