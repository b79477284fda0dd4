import RecordQuery.Proofs.Caching.Outcome
import RecordQuery.Proofs.Likeness.Exact
import RecordQuery.Provider

namespace RecordQuery.Provider

open Steps

abbrev Answer := CompiledQuery → Statement → Except Error (List Record)

variable {p : Provider} {backend : Backend} {a b : Answer} {model : String} {r r' : Request}
  {q q' : CompiledQuery} {fuel fuel' : Nat}

def answerTo (p : Provider) (a : Answer) (model : String) (r : Request) :
    Except Error (List Record) := do
  let q ← (p.compile model r 0).1
  a q (← q.query.rowStatement p.dialect)

def answerSiblings (p : Provider) (a : Answer) (entity : String) : Except Error EntityIndex :=
  (p.answerTo a entity p.siblingRequest).map EntityIndex.ofRecords

def answerNested (p : Provider) (a : Answer) (entity : String) (parentId : Value)
    (task : NestedTask) : Except Error (String × Value) := do
  let root ← p.schema.entity entity
  let q ← (Compilation.nestedQuery (p.setting root) task parentId 0).1
  let rows ← a q (← q.query.rowStatement p.dialect)
  return (task.options.outputKey, .list (rows.map Value.record))

def answerRow (p : Provider) (a : Answer) (q : CompiledQuery) (dependencies : List EntityIndex)
    (row : Record) : Except Error Record := do
  let r := Handler.applyAll dependencies q.handlers row
  let parentId := (r.get? Path.idSegment).getD .null
  let lists ← q.nested.mapM (p.answerNested a q.entity parentId)
  let r := lists.foldl (fun r (key, list) => r.insert key list) r
  return Middleware.runAll q.middlewares r

def answerStep (p : Provider) (backend : Backend) (a : Answer) : Answer := fun q statement => do
  let rows ← backend statement
  let dependencies ← q.dependencies.mapM (p.answerSiblings a)
  rows.mapM (p.answerRow a q dependencies)

def answer (p : Provider) (backend : Backend) : Nat → Answer
  | 0 => fun q _ => .error (.endless q.entity)
  | fuel + 1 => p.answerStep backend (p.answer backend fuel)

theorem refines_answerTo
    (h : ∀ q statement, (p.compile model r 0).1 = .ok q → Refines (a q statement) (b q statement)) :
    Refines (p.answerTo a model r) (p.answerTo b model r) := by
  apply refines_bind (refines_refl _)
  intro q hq
  apply refines_bind (refines_refl _)
  intro statement _
  exact h q statement hq

theorem refines_answerNested {entity : String} {parentId : Value} {task : NestedTask}
    (h : ∀ root q statement,
      (Compilation.nestedQuery (p.setting root) task parentId 0).1 = .ok q →
        Refines (a q statement) (b q statement)) :
    Refines (p.answerNested a entity parentId task) (p.answerNested b entity parentId task) := by
  apply refines_bind (refines_refl _)
  intro root _
  apply refines_bind (refines_refl _)
  intro q hq
  apply refines_bind (refines_refl _)
  intro statement _
  apply refines_bind (h root q statement hq)
  intro _ _
  exact refines_refl _

theorem refines_answerRow {dependencies : List EntityIndex} {row : Record}
    (h : ∀ parentId, ∀ task ∈ q.nested, Refines (p.answerNested a q.entity parentId task)
      (p.answerNested b q.entity parentId task)) :
    Refines (p.answerRow a q dependencies row) (p.answerRow b q dependencies row) := by
  apply refines_bind (refines_mapM fun task ht => h _ task ht)
  intro _ _
  exact refines_refl _

theorem refines_answerStep {statement : Statement}
    (hs : ∀ entity, Refines (p.answerSiblings a entity) (p.answerSiblings b entity))
    (hn : ∀ parentId, ∀ task ∈ q.nested, Refines (p.answerNested a q.entity parentId task)
      (p.answerNested b q.entity parentId task)) :
    Refines (p.answerStep backend a q statement) (p.answerStep backend b q statement) := by
  apply refines_bind (refines_refl _)
  intro rows _
  apply refines_bind (refines_mapM fun entity _ => hs entity)
  intro dependencies _
  apply refines_mapM
  intro row _
  exact refines_answerRow hn

theorem refines_answer (h : fuel ≤ fuel') (q : CompiledQuery) (statement : Statement) :
    Refines (p.answer backend fuel q statement) (p.answer backend fuel' q statement) := by
  induction fuel generalizing fuel' q statement with
  | zero => exact refines_endless _ _
  | succ fuel ih =>
    obtain ⟨fuel', rfl⟩ : ∃ n, fuel' = n + 1 := ⟨fuel' - 1, by omega⟩
    have hle : fuel ≤ fuel' := Nat.le_of_succ_le_succ h
    apply refines_answerStep
    · intro entity
      apply refines_map
      apply refines_answerTo
      exact fun q statement _ => ih hle q statement
    · intro parentId task _
      apply refines_answerNested
      exact fun _ q statement _ => ih hle q statement

section Alike

variable {L : Likeness}

theorem answerNested_congr (hL : L.Exact) {entity : String} {parentId : Value}
    {task task' : NestedTask} (h : Compilation.TaskAlike L task task')
    (ha : ∀ q q' statement, q.Alike L q' → a q statement = a q' statement) :
    p.answerNested a entity parentId task = p.answerNested a entity parentId task' := by
  unfold answerNested
  rw [h.options]
  apply bind_congr_of_both (both_refl (fun _ => rfl) (p.schema.entity entity))
  rintro root _ rfl
  have hboth := (Compilation.parallel_nestedQuery (s := p.setting root) h (v := parentId)
    (fun _ => rfl) 0 0 trivial).2
  apply bind_congr_of_both hboth
  intro q q' hq
  rw [hq.query_eq hL]
  simp only [ha q q' _ hq]

theorem answer_congr (hL : L.Exact) (h : q.Alike L q') (statement : Statement) :
    p.answer backend fuel q statement = p.answer backend fuel q' statement := by
  induction fuel generalizing q q' statement with
  | zero =>
    unfold answer
    rw [h.entity]
  | succ fuel ih =>
    have hlists : ∀ parentId,
        q.nested.mapM (p.answerNested (p.answer backend fuel) q'.entity parentId) =
          q'.nested.mapM (p.answerNested (p.answer backend fuel) q'.entity parentId) := by
      intro parentId
      apply mapM_congr h.nested
      intro task task' htask
      exact answerNested_congr hL htask fun _ _ statement h => ih h statement
    have hrow : p.answerRow (p.answer backend fuel) q = p.answerRow (p.answer backend fuel) q' := by
      funext dependencies row
      unfold answerRow
      simp only [h.handlers, h.entity, h.middlewares, hlists]
    unfold answer answerStep
    rw [h.dependencies, hrow]

theorem answerTo_congr (hL : L.Exact)
    (h : Both (CompiledQuery.Alike L) (p.compile model r 0).1 (p.compile model r' 0).1) :
    p.answerTo (p.answer backend fuel) model r = p.answerTo (p.answer backend fuel) model r' := by
  unfold answerTo
  apply bind_congr_of_both h
  intro q q' hq
  rw [hq.query_eq hL]
  simp only [answer_congr hL hq]

end Alike

end RecordQuery.Provider
