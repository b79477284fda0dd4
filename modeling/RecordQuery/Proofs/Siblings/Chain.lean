import Mathlib.Order.WellFounded
import RecordQuery.Proofs.FailFast

/-!
Which lists are loaded for a list. A query needs the lists of the siblings it denormalizes, by
itself or in its nested lists, and each of them those of its own. The recursion that loads them is
unrolled here, with anything in the place of what is left of it.
-/

namespace RecordQuery.Provider

open Steps

def executeOnce (p : Provider) (backend : Backend) (execute : Execute) : Execute :=
  fun compiled statement => do
    let rows ← fetch backend statement
    let dependencies ← compiled.dependencies.mapM (p.siblings execute)
    rows.mapM (p.materialize execute compiled dependencies)

def unrolled (p : Provider) (backend : Backend) (below : Execute) : Nat → Execute
  | 0 => below
  | levels + 1 => p.executeOnce backend (p.unrolled backend below levels)

inductive Denormalizes (p : Provider) : CompiledQuery → String → Prop
  | sibling {q : CompiledQuery} {entity : String} : entity ∈ q.dependencies →
    Denormalizes p q entity
  | nested {q : CompiledQuery} {root : Entity} {task : NestedTask} {parentId : Value} {uses : Nat}
    {q' : CompiledQuery} {uses' : Nat} {entity : String} : p.schema.entity q.entity = .ok root →
    task ∈ q.nested → Compilation.nestedQuery (p.setting root) task parentId uses = (.ok q', uses') →
    Denormalizes p q' entity → Denormalizes p q entity

/-- The full list of the entity denormalizes lists of the next. -/
def Leads (p : Provider) (entity next : String) : Prop :=
  ∃ uses q uses', p.compile entity p.siblingRequest uses = (.ok q, uses') ∧ p.Denormalizes q next

/-- An infinite chain of entities, each denormalized for the one before. -/
def Bottomless (p : Provider) (q : CompiledQuery) : Prop :=
  ∃ chain : Nat → String, p.Denormalizes q (chain 0) ∧ ∀ k, p.Leads (chain k) (chain (k + 1))

def Grounded (p : Provider) (entity : String) : Prop :=
  Acc (fun next entity => p.Leads entity next) entity

variable {p : Provider} {backend : Backend} {q q' : CompiledQuery} {entity : String}

theorem bottomless_iff : p.Bottomless q ↔ ∃ entity, p.Denormalizes q entity ∧ ¬p.Grounded entity := by
  unfold Bottomless Grounded
  constructor
  · rintro ⟨chain, hstart, hchain⟩
    exact ⟨chain 0, hstart, not_acc_iff_exists_descending_chain.2 ⟨chain, rfl, hchain⟩⟩
  · rintro ⟨entity, hentity, hnot⟩
    obtain ⟨chain, rfl, hchain⟩ := not_acc_iff_exists_descending_chain.1 hnot
    exact ⟨chain, hentity, hchain⟩

theorem execute_eq_unrolled (levels : Nat) : p.execute backend levels
    = p.unrolled backend (fun q _ => throw (.endless q.entity)) levels := by
  induction levels with
  | zero => rfl
  | succ levels ih =>
    rw [unrolled, ← ih]
    rfl

theorem Denormalizes.congr (h : p.Denormalizes q entity) (he : q.entity = q'.entity)
    (hd : q.dependencies = q'.dependencies) (hn : q.nested = q'.nested) :
    p.Denormalizes q' entity := by
  cases h with
  | sibling hentity => exact .sibling (hd ▸ hentity)
  | nested hroot ht hx hentity => exact .nested (he ▸ hroot) (hn ▸ ht) hx hentity

end RecordQuery.Provider
