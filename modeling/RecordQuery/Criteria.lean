import RecordQuery.Operator
import RecordQuery.Path

namespace RecordQuery

/-- A value of the definition. A computed one may differ with every use, counted from one. -/
inductive StaticValue
  | fixed (v : Value)
  | computed (compute : Nat → Value)

def StaticValue.resolve (uses : Nat) : StaticValue → Value × Nat
  | .fixed v => (v, uses)
  | .computed compute => (compute (uses + 1), uses + 1)

structure Criterion where
  parameter : String
  path : String
  operator : Operator
  value : Option StaticValue

/-- The value a request gives: a field of its bag, or the bare bag of a single criterion. -/
def Criterion.requested? (c : Criterion) (bag : Value) (single : Bool) : Option Value :=
  match bag with
  | .record fields => Fields.get? c.parameter fields
  | v => if single then some v else none

def Criterion.value? (c : Criterion) (bag : Value) (single : Bool) (uses : Nat) :
    Option Value × Nat :=
  match c.value with
  | some v =>
    let (v, uses) := v.resolve uses
    (some v, uses)
  | none => (c.requested? bag single, uses)

structure CriteriaSpec where
  connective : Connective
  items : List Criterion

def CriteriaSpec.single (parameter path : String) (operator : Operator) : CriteriaSpec :=
  ⟨.and, [⟨parameter, path, operator, none⟩]⟩

abbrev Pool := Fields Value

end RecordQuery
