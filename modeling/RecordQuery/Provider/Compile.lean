import RecordQuery.Provider.Session

namespace RecordQuery.Provider

def checkNested (s : Setting) : Nat → List NestedTask → Steps Nat Unit
  | _, [] => pure ()
  | 0, _ :: _ => throw (.endless s.root.name)
  | depth + 1, tasks => tasks.forM fun task => do
    let compiled ← Compilation.nestedQuery s task .null
    let _ ← compiled.query.rowStatement s.dialect
    checkNested s depth compiled.nested

def applySort (s : Setting) (m : Model) (name : String) : Steps Compilation Unit := do
  Compilation.sort s "" (← m.sort name)

/-- A criterion left in the pool is one of the model; a null bag asks for nothing. -/
def applyCriterion (s : Setting) (m : Model) : String × Value → Steps Compilation Unit
  | (name, bag) =>
    if bag.isNull then pure ()
    else do
      let spec ← m.criteriaNamed name
      Compilation.criteria s spec bag ""

def applyPage : Option Page → Steps Compilation Unit
  | some page => Compilation.onQuery (·.setPage page)
  | none => pure ()

def applyRequest (s : Setting) (m : Model) (r : Request) : Steps Compilation Unit := do
  r.sortNames.forM (applySort s m)
  (← get).pool.forM (applyCriterion s m)
  applyPage (← r.pageParams)

def compileSteps (s : Setting) (m : Model) (p : Projection) (r : Request) :
    Steps Compilation Unit := do
  let _ ← Compilation.projection s p
  applyRequest s m r

def compile (p : Provider) (model : String) (r : Request) : Steps Nat CompiledQuery := do
  let m ← p.model model
  let root ← p.schema.entity m.entity
  let projection ← m.projection (r.projection.getD p.config.defaultProjection)
  let s := p.setting root
  let compiled ← Compilation.run s r.criteria (compileSteps s m projection r)
  checkNested s projection.depth compiled.nested
  return compiled

end RecordQuery.Provider
