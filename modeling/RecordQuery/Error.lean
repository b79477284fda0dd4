namespace RecordQuery

inductive PageFault
  | size (n : Int)
  | number (n : Int)
  | outOfRange (number size : Int)
  | numeral (parameter text : String)
  | sizeRequiredWithPage
  | sizeRequired
  deriving DecidableEq

inductive ValueFault
  | scalarExpected
  | textExpected
  | boundsExpected
  deriving DecidableEq

inductive SchemaFault
  | duplicateEntity (entity : String)
  | noPrimaryKey (entity : String)
  | unknownTarget (entity association target : String)
  | noFields (table : String)
  | duplicateModel (entity : String)
  deriving DecidableEq

inductive Error
  | unknownProjection (name : String)
  | unknownSort (name : String)
  | unknownCriterion (name : String)
  | unknownAssociation (segment entity : String)
  | unknownAttribute (name entity : String)
  | selectedWholeAssociation (path : String)
  | ungroupedToMany (path : String)
  | unsupportedOperator (name : String)
  | invalidPage (fault : PageFault)
  | invalidValue (parameter : String) (fault : ValueFault)
  | unknownModel (name : String)
  | unknownEntity (name : String)
  | unsupportedRelatedList (model : String)
  | schema (fault : SchemaFault)
  | database (reason : String)
  | noCount
  | malformed
  | storage
  /-- Lists of cached siblings that need each other without end. -/
  | endless (entity : String)
  deriving DecidableEq

def PageFault.message : PageFault → String
  | .size n => s!"page size must be a positive integer, got {n}"
  | .number n => s!"page must be a positive integer, got {n}"
  | .outOfRange n m => s!"page {n} of size {m} is out of range"
  | .numeral parameter text => s!"{parameter} must be a valid number, got `{text}`"
  | .sizeRequiredWithPage => "pageSize is required when page is given"
  | .sizeRequired => "pageSize is required"

def ValueFault.message : ValueFault → String
  | .scalarExpected => "expected a scalar value"
  | .textExpected => "expected a text value"
  | .boundsExpected => "BETWEEN expects an array with two bounds"

def SchemaFault.message : SchemaFault → String
  | .duplicateEntity entity => s!"Entity {entity} already registered"
  | .noPrimaryKey entity => s!"Entity {entity} has no primary key"
  | .unknownTarget entity association target =>
    s!"Association {entity}.{association} targets unknown entity {target}"
  | .noFields table => s!"SELECT over {table} has no fields"
  | .duplicateModel entity => s!"Model {entity} registered twice"

def Error.message? : Error → Option String
  | .unknownProjection name => some s!"Undefined projection `{name}`"
  | .unknownSort name => some s!"Undefined sort `{name}`"
  | .unknownCriterion name => some s!"Criteria named `{name}` not found"
  | .unknownAssociation segment entity => some s!"Association `{segment}` not found on {entity}"
  | .unknownAttribute name entity => some s!"Attribute `{name}` not found on {entity}"
  | .selectedWholeAssociation path => some s!"Can't select the entire association `{path}`"
  | .ungroupedToMany path =>
    some s!"To-many association `{path}` can only be selected as a column when its model is cached"
  | .unsupportedOperator name => some s!"Operator {name} is not supported"
  | .invalidPage fault => some s!"Invalid page parameters: {fault.message}"
  | .invalidValue parameter fault =>
    some s!"Invalid value for criterion `{parameter}`: {fault.message}"
  | .unknownModel name => some s!"Model not registered: {name}"
  | .unknownEntity name => some s!"Entity not registered: {name}"
  | .unsupportedRelatedList model => some s!"Unsupported operation: request_related on {model}"
  | .schema fault => some s!"Schema error: {fault.message}"
  | .database reason => some s!"Database error: {reason}"
  | .noCount => some "Database error: Count statement returned no count"
  | .malformed => none
  | .storage => none
  | .endless entity => some s!"Lists of {entity} are needed to load themselves"

/-- Stops at the first error and keeps what the steps before it did to the state. -/
abbrev Steps (σ α : Type) := ExceptT Error (StateM σ) α

end RecordQuery
