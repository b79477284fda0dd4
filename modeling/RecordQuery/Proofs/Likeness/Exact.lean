import RecordQuery.Proofs.Likeness.Serving

namespace RecordQuery

open Steps

/-- Bags that ask for nothing, none of them under a nestable name. -/
def Pool.Inert (nestable : String → Prop) (pool : Pool) : Prop :=
  ∀ entry ∈ pool, entry.2.isNull = true ∧ ¬ nestable entry.1

namespace Pool.Inert

variable {nestable : String → Prop} {a : Pool}

theorem get? (h : a.Inert nestable) {name : String} {bag : Value}
    (hget : Fields.get? name a = some bag) : bag = .null ∧ ¬ nestable name := by
  obtain ⟨hnull, hname⟩ := h _ (Fields.mem_of_get? hget)
  cases bag with
  | null => exact ⟨rfl, hname⟩
  | _ => cases hnull

theorem field (h : a.Inert nestable) (name parameter : String) :
    (Fields.get? name a).bind (Value.field? parameter) = none := by
  cases hget : Fields.get? name a with
  | none => rfl
  | some bag =>
    rw [(h.get? hget).1]
    rfl

theorem absent (h : a.Inert nestable) {name : String} (hn : nestable name) :
    Fields.get? name a = none := by
  cases hget : Fields.get? name a with
  | none => rfl
  | some bag => exact absurd hn (h.get? hget).2

theorem remove (h : a.Inert nestable) (name : String) :
    Inert nestable (Fields.swapRemove name a) :=
  fun entry hentry => h entry (Fields.mem_of_mem_swapRemove hentry)

theorem asking (h : a.Inert nestable) : Pool.asking a = [] := by
  rw [Pool.asking, List.filter_eq_nil_iff]
  intro entry hentry
  simp [(h entry hentry).1]

end Pool.Inert

namespace Likeness

theorem rel_eq_refl {α : Type} (o : Option α) : Option.Rel Eq o o := by
  cases o with
  | none => exact .none
  | some v => exact .some rfl

theorem bags_refl (v : Value) : Bags Eq v v := by
  cases v with
  | record fields => exact .records fun key => rel_eq_refl _
  | _ => exact .bare rfl rfl rfl

def ofPools (view : Condition → Condition) (inward : Condition.Inward view)
    (view_someRow : ∀ δ {c d}, view c = view d →
      view (Compilation.someRow δ c) = view (Compilation.someRow δ d))
    (pool : Pool → Pool → Prop) (nestable : String → Prop)
    (field : ∀ {a b}, pool a b → ∀ name parameter,
      Option.Rel Eq ((a.get? name).bind (Value.field? parameter))
        ((b.get? name).bind (Value.field? parameter)))
    (bag : ∀ {a b}, pool a b → ∀ name, nestable name → Option.Rel Eq (a.get? name) (b.get? name))
    (remove : ∀ {a b}, pool a b → ∀ name, pool (a.swapRemove name) (b.swapRemove name))
    (asking : ∀ {a b}, pool a b →
      List.Forall₂ (fun x y => x.1 = y.1 ∧ Bags Eq x.2 y.2) (Pool.asking a) (Pool.asking b)) :
    Likeness where
  value := Eq
  view := view
  pool := pool
  nestable := nestable
  bags := Eq
  value_refl := fun _ => rfl
  isNull_eq := by rintro v _ rfl; rfl
  bags_alike := by rintro v _ rfl; exact bags_refl v
  view_andAlso := inward.andAlso
  view_combine := inward.combine
  view_someRow := view_someRow
  predicate := by
    rintro op column parameter v _ rfl
    apply both_refl
    rintro (c | c)
    · exact .combined rfl
    · exact .standing rfl
  field := field
  bag := bag
  remove := remove
  asking := asking

theorem inward_id : Condition.Inward id :=
  ⟨fun _ conditions => by rw [List.map_id]; rfl, fun _ _ conditions h => ⟨conditions, h⟩⟩

theorem someRow_id (δ : Dialect) {c d : Condition} (h : id c = id d) :
    id (Compilation.someRow δ c) = id (Compilation.someRow δ d) :=
  congrArg (Compilation.someRow δ) h

def viewing (view : Condition → Condition) (inward : Condition.Inward view)
    (view_someRow : ∀ δ {c d}, view c = view d →
      view (Compilation.someRow δ c) = view (Compilation.someRow δ d)) : Likeness :=
  ofPools view inward view_someRow Eq (fun _ => True)
    (by
      rintro a _ rfl name parameter
      exact rel_eq_refl _)
    (by
      rintro a _ rfl name _
      exact rel_eq_refl _)
    (by rintro a _ rfl _; rfl)
    (by
      rintro a _ rfl
      rw [List.forall₂_same]
      exact fun entry _ => ⟨rfl, bags_refl entry.2⟩)

def same : Likeness := viewing id inward_id someRow_id

def inert (nestable : String → Prop) : Likeness :=
  ofPools id inward_id someRow_id (fun a b => a.Inert nestable ∧ b.Inert nestable) nestable
    (by
      intro a b h name parameter
      rw [h.1.field, h.2.field]
      exact .none)
    (by
      intro a b h name hn
      rw [h.1.absent hn, h.2.absent hn]
      exact .none)
    (fun h name => ⟨h.1.remove name, h.2.remove name⟩)
    (by
      intro a b h
      rw [h.1.asking, h.2.asking]
      exact .nil)

def Exact (L : Likeness) : Prop := L.view = id

theorem exact_same : same.Exact := rfl

theorem exact_inert (nestable : String → Prop) : (inert nestable).Exact := rfl

theorem query_eq {L : Likeness} (hL : L.Exact) (q : QueryPair) : L.query q = q := by
  have hjoin : L.join = id := by
    funext j
    unfold join
    rw [hL]
    rfl
  unfold query source
  rw [hL, hjoin, List.map_id, Option.map_id]
  rfl

end Likeness

theorem CompiledQuery.Alike.query_eq {L : Likeness} (hL : L.Exact) {q r : CompiledQuery}
    (h : q.Alike L r) : q.query = r.query := by
  have hquery := h.query
  rwa [L.query_eq hL, L.query_eq hL] at hquery

end RecordQuery
