import Mathlib.Data.Finset.Card
import RecordQuery.Proofs.Caching.Answer
import RecordQuery.Proofs.Emission.Serving

/-!
The fuel of a provider is enough: what ends with any fuel ends with that of the provider. Between
two loads of siblings lie no more lists than projections nest, and every such stretch of fuel lets
the siblings of a further model end, as long as any do.
-/

namespace RecordQuery

open Steps

/-- Lists nest less than `depth` levels inside the query. -/
def CompiledQuery.Within (depth : Nat) (q : CompiledQuery) : Prop :=
  ∀ task ∈ q.nested, task.inner.depth < depth

theorem Compilation.within_nestedQuery {s : Setting} {task : NestedTask} {parentId : Value}
    {uses : Nat} {q : CompiledQuery} (h : (nestedQuery s task parentId uses).1 = .ok q) :
    q.Within task.inner.depth := by
  obtain ⟨uses', hq⟩ := ok_of_fst h
  exact (built_nestedQuery (names_true s) task.inner.charsets_true task.inner.lists_depth hq).2

theorem le_foldl {α : Type} {g : Nat → α → Nat} (hg : ∀ d x, d ≤ g d x) {xs : List α} {x : α}
    (hx : x ∈ xs) {k : Nat} (hk : ∀ d, k ≤ g d x) (d : Nat) : k ≤ xs.foldl g d := by
  have hstart : ∀ (ys : List α) (d : Nat), d ≤ ys.foldl g d := by
    intro ys
    induction ys with
    | nil => exact fun d => Nat.le_refl d
    | cons y ys ih => exact fun d => Nat.le_trans (hg d y) (ih _)
  induction xs generalizing d with
  | nil => cases hx
  | cons y ys ih =>
    rcases List.mem_cons.1 hx with rfl | hx
    · exact Nat.le_trans (hk d) (hstart ys _)
    · exact ih hx _

namespace Provider

variable {p : Provider} {backend : Backend} {model : String} {r : Request} {q : CompiledQuery}

theorem depth_le_deepest {m : String × Model} (hm : m ∈ p.models) {projection : String × Projection}
    (h : projection ∈ m.2.projections) : projection.2.depth ≤ p.deepest := by
  have hinner : ∀ (d : Nat) (m : Model),
      d ≤ m.projections.foldl (fun d projection => max d projection.2.depth) d := by
    intro d m
    induction m.projections generalizing d with
    | nil => exact Nat.le_refl d
    | cons projection rest ih => exact Nat.le_trans (Nat.le_max_left _ _) (ih _)
  apply le_foldl (fun d m => hinner d m.2) hm
  intro d
  have hstep : ∀ (d : Nat) (q : String × Projection), d ≤ max d q.2.depth :=
    fun d q => Nat.le_max_left d _
  exact le_foldl hstep h (fun d => Nat.le_max_right d _) d

theorem within_compile {uses : Nat} (h : (p.compile model r uses).1 = .ok q) :
    q.Within p.deepest := by
  obtain ⟨uses', hq⟩ := ok_of_fst h
  obtain ⟨m, root, projection, v, hm, -, hprojection, hrun, -⟩ := compile_ok hq
  have hwithin := (built_compileSteps (Compilation.names_true _) projection.charsets_true
    projection.lists_depth hrun).2
  have hdeep := depth_le_deepest (mem_of_model hm) (Model.mem_of_projection hprojection)
  exact fun task ht => Nat.lt_of_lt_of_le (hwithin task ht) hdeep

theorem refines_siblings {fuel fuel' : Nat} (h : fuel ≤ fuel') (entity : String) :
    Refines (p.answerSiblings (p.answer backend fuel) entity)
      (p.answerSiblings (p.answer backend fuel') entity) :=
  refines_map _ (refines_answerTo fun q statement _ => refines_answer h q statement)

/-- A query whose siblings end with some fuel needs a level for each depth of its lists on top. -/
theorem refines_beyond {n k d : Nat} (hk : ∀ m < n, ∀ entity,
      Refines (p.answerSiblings (p.answer backend m) entity)
        (p.answerSiblings (p.answer backend k) entity))
    (hq : q.Within d) (statement : Statement) :
    Refines (p.answer backend n q statement) (p.answer backend (k + d + 1) q statement) := by
  -- on the depth: each level of lists is paid from the stretch on top of `k`
  induction d using Nat.strongRecOn generalizing n q statement with
  | _ d ih =>
    cases n with
    | zero => exact refines_endless _ _
    | succ n =>
      apply refines_answerStep
      · intro entity
        exact (hk n (Nat.lt_succ_self n) entity).trans (refines_siblings (by omega) entity)
      · intro parentId task ht
        have hdepth := hq task ht
        apply refines_answerNested
        intro root q' statement hq'
        have hinner := ih task.inner.depth hdepth (fun m hm => hk m (Nat.lt_succ_of_lt hm))
          (Compilation.within_nestedQuery hq') statement
        exact hinner.trans (refines_answer (by omega) q' statement)

theorem refines_stationary {k : Nat}
    (h : ∀ entity, Ends (p.answerSiblings (p.answer backend (k + p.deepest + 1)) entity) →
      Ends (p.answerSiblings (p.answer backend k) entity)) (n : Nat) (entity : String) :
    Refines (p.answerSiblings (p.answer backend n) entity)
      (p.answerSiblings (p.answer backend k) entity) := by
  -- on the fuel: its siblings have less, and with less they are within `k` already
  induction n using Nat.strongRecOn generalizing entity with
  | _ n ih =>
    have hbeyond : Refines (p.answerSiblings (p.answer backend n) entity)
        (p.answerSiblings (p.answer backend (k + p.deepest + 1)) entity) := by
      apply refines_map
      apply refines_answerTo
      exact fun q statement hq => refines_beyond ih (within_compile hq) statement
    intro hn
    have hk := h entity (hbeyond.ends hn)
    rw [← hbeyond hn]
    exact (refines_siblings (by omega) entity hk).symm

theorem exists_stationary (names : List String) {P : Nat → String → Prop}
    (hP : ∀ k name, P k name → P (k + 1) name) :
    ∃ k ≤ names.length, ∀ name ∈ names, P (k + 1) name → P k name := by
  classical
  by_contra hnone
  push Not at hnone
  -- otherwise the names with the property grow by one in each step, beyond all there are
  have hcard : ∀ k ≤ names.length + 1, k ≤ (names.toFinset.filter (P k)).card := by
    intro k
    induction k with
    | zero => exact fun _ => Nat.zero_le _
    | succ k ih =>
      intro hk
      obtain ⟨name, hname, hnext, hnot⟩ := hnone k (by omega)
      have hlt : (names.toFinset.filter (P k)).card < (names.toFinset.filter (P (k + 1))).card := by
        apply Finset.card_lt_card
        refine ⟨fun x hx => ?_, fun hsub => ?_⟩
        · rw [Finset.mem_filter] at hx ⊢
          exact ⟨hx.1, hP k x hx.2⟩
        · have hmem := hsub (Finset.mem_filter.2 ⟨List.mem_toFinset.2 hname, hnext⟩)
          exact hnot (Finset.mem_filter.1 hmem).2
      have := ih (by omega)
      omega
  have hall := hcard (names.length + 1) (Nat.le_refl _)
  have hsub := Finset.card_filter_le names.toFinset (P (names.length + 1))
  have hlength := names.toFinset_card_le
  omega

theorem refines_unknown {a b : Answer} {entity : String} (h : ∀ m, (entity, m) ∉ p.models) :
    Refines (p.answerSiblings a entity) (p.answerSiblings b entity) := by
  apply refines_map
  apply refines_answerTo
  intro q statement hq
  obtain ⟨uses, hc⟩ := ok_of_fst hq
  obtain ⟨m, root, projection, v, hm, -⟩ := compile_ok hc
  exact absurd (mem_of_model hm) (h m)

theorem fuel_suffices (hq : q.Within p.deepest) (n : Nat) (statement : Statement) :
    Refines (p.answer backend n q statement) (p.answer backend p.fuel q statement) := by
  obtain ⟨k, hk, hstationary⟩ := exists_stationary (p.models.map Prod.fst)
    (P := fun k name =>
      Ends (p.answerSiblings (p.answer backend (k * (p.deepest + 1))) name))
    (fun k name h => (refines_siblings (Nat.mul_le_mul_right _ (Nat.le_succ k)) name).ends h)
  have hmul : (k + 1) * (p.deepest + 1) = k * (p.deepest + 1) + p.deepest + 1 := by
    rw [Nat.succ_mul, Nat.add_assoc]
  have hstop : ∀ entity,
      Ends (p.answerSiblings (p.answer backend (k * (p.deepest + 1) + p.deepest + 1)) entity) →
        Ends (p.answerSiblings (p.answer backend (k * (p.deepest + 1))) entity) := by
    intro entity h
    by_cases hmem : entity ∈ p.models.map Prod.fst
    · apply hstationary entity hmem
      rw [hmul]
      exact h
    · refine (refines_unknown fun m hm => hmem ?_).ends h
      exact List.mem_map.2 ⟨_, hm, rfl⟩
  have hall := refines_stationary hstop
  refine (refines_beyond (fun m _ => hall m) hq statement).trans (refines_answer ?_ q statement)
  rw [← hmul]
  apply Nat.mul_le_mul_right
  rw [List.length_map] at hk
  omega

end Provider

end RecordQuery
