import RecordQuery.Proofs.Emission.Compiling

namespace RecordQuery

open Steps

inductive Action
  | projection (p : Projection)
  | fields (p : Projection) (base : String) (grouped : Bool) (mode : JoinMode)
  | nested (task : NestedTask) (parentId : Value)
  | sort (base : String) (order : SortSpec)
  | criteria (spec : CriteriaSpec) (bag : Value) (base : String)
  | resolve (path : String) (mode : JoinMode)
  | setGrouped (b : Bool)
  | edit (e : QueryPair.Edit)

namespace Action

variable {N : String → Prop} {B : QueryPair → Prop} {s : Setting}

def perform (s : Setting) : Action → Steps Compilation Unit
  | .projection p => (fun _ => ()) <$> Compilation.projection s p
  | .fields p base grouped mode => (fun _ => ()) <$> Compilation.fields s p base grouped mode
  | .nested task parentId => Compilation.nestedSteps s task parentId
  | .sort base order => Compilation.sort s base order
  | .criteria spec bag base => Compilation.criteria s spec bag base
  | .resolve path mode => (fun _ => ()) <$> Compilation.resolve s path mode
  | .setGrouped b => modify fun c => { c with grouped := b }
  | .edit e => Compilation.onQuery (·.edit e)

/-- The state after all actions, each of them started whether the ones before it succeeded. -/
def runAll (s : Setting) (actions : List Action) (c : Compilation) : Compilation :=
  actions.foldl (fun c a => (a.perform s c).2) c

def Within (N : String → Prop) (B : QueryPair → Prop) : Action → Prop
  | .projection p | .fields p _ _ _ => p.Charsets N
  | .nested task _ => task.inner.Charsets N
  | .edit e => ∀ q, B q → B (q.edit e)
  | _ => True

theorem maintains_perform (hs : s.Names N) (hB : QueryPair.Shaped s.dialect N B)
    (hF : QueryPair.Fielded s.dialect N B) {a : Action} (ha : a.Within N B) :
    Maintains (Compilation.Formed N B (Projection.Charsets N)) (a.perform s) (fun _ => True) := by
  cases a with
  | projection p =>
    exact maintains_map (Compilation.maintains_projection hs hB hF ha ha.lists) fun _ _ => trivial
  | fields p base grouped mode =>
    exact maintains_map (Compilation.maintains_fields hs hB hF ha ha.lists _ _ _) fun _ _ => trivial
  | nested task parentId =>
    have hinner : task.inner.Charsets N := ha
    exact Compilation.maintains_nestedSteps hs hB hF hinner hinner.lists parentId
  | sort base order => exact Compilation.maintains_sort hs hB base order
  | criteria spec bag base => exact Compilation.maintains_criteria hs hB spec bag base
  | resolve path mode =>
    exact maintains_map (Compilation.maintains_resolve hs hB path mode) fun _ _ => trivial
  | setGrouped b =>
    exact maintains_modify fun _ hc => ⟨hc.plan, hc.query, hc.primitives, hc.nested⟩
  | edit e =>
    exact maintains_modify fun c hc => ⟨hc.plan, ha c.query hc.query, hc.primitives, hc.nested⟩

theorem formed_runAll (hs : s.Names N) (hB : QueryPair.Shaped s.dialect N B)
    (hF : QueryPair.Fielded s.dialect N B) {actions : List Action}
    (ha : ∀ a ∈ actions, a.Within N B) {c : Compilation}
    (hc : c.Formed N B (Projection.Charsets N)) :
    (runAll s actions c).Formed N B (Projection.Charsets N) := by
  induction actions generalizing c with
  | nil => exact hc
  | cons a actions ih =>
    have hstep := (maintains_perform hs hB hF (ha a List.mem_cons_self) c hc).1
    exact ih (fun b hb => ha b (List.mem_cons_of_mem a hb)) hstep

def Plain (N : String → Prop) : Action → Prop
  | .projection p | .fields p _ _ _ => p.Charsets N
  | .nested task _ => task.inner.Charsets N
  | .edit (.page _) => True
  | .edit _ => False
  | _ => True

theorem Plain.within {a : Action} (h : a.Plain N) {δ : Dialect} :
    a.Within N (QueryPair.Built δ N) := by
  cases a with
  | edit e =>
    cases e with
    | page p => exact fun _ hq => hq.edit .page
    | _ => exact h.elim
  | _ => exact h

theorem built_runAll (hs : s.Names N) {actions : List Action} (ha : ∀ a ∈ actions, a.Plain N)
    (pool : Pool) (uses : Nat) :
    (runAll s actions (Compilation.start s pool uses)).Formed N (QueryPair.Built s.dialect N)
      (Projection.Charsets N) :=
  formed_runAll hs QueryPair.shaped_built QueryPair.fielded_built (fun a h => (ha a h).within)
    (Compilation.formed_start hs pool uses)

end Action

end RecordQuery
