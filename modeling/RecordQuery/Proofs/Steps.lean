import Mathlib.Data.List.Forall2
import RecordQuery.Error

/-!
Reasoning about steps. `Maintains` speaks of one run: an invariant that survives failure, and what
is known of a result. `Ensures` speaks of the state that success ends in. `Succeeds` speaks of steps
that never fail. `Parallel` speaks of two runs side by side, which succeed or fail together.
-/

namespace RecordQuery.Steps

variable {σ τ α β γ δ : Type}

theorem except_bind_ok {x : Except Error α} {f : α → Except Error β} {b : β}
    (h : (x >>= f) = .ok b) : ∃ a, x = .ok a ∧ f a = .ok b := by
  cases x with
  | error e => cases h
  | ok a => exact ⟨a, rfl, h⟩

theorem except_map_ok {x : Except Error α} {f : α → β} {b : β} (h : x.map f = .ok b) :
    ∃ a, x = .ok a ∧ f a = b := by
  cases x with
  | error e => cases h
  | ok a => exact ⟨a, rfl, Except.ok.inj h⟩

theorem except_ok_of_toBool {x : Except Error α} (h : x.toBool = true) : ∃ a, x = .ok a := by
  cases x with
  | error e => cases h
  | ok a => exact ⟨a, rfl⟩

theorem except_ok_of_toOption_map {x : Except Error α} {f : α → β} {b : β}
    (h : x.toOption.map f = some b) : ∃ a, x = .ok a ∧ f a = b := by
  cases x with
  | error e => cases h
  | ok a => exact ⟨a, rfl, Option.some.inj h⟩

theorem except_forM_ok {f : α → Except Error Unit} {xs : List α} (h : xs.forM f = .ok ()) :
    ∀ x ∈ xs, f x = .ok () := by
  induction xs with
  | nil => simp
  | cons x xs ih =>
    obtain ⟨_, hx, hrest⟩ := except_bind_ok h
    intro y hy
    rcases List.mem_cons.1 hy with rfl | hy
    · exact hx
    · exact ih hrest y hy

theorem except_mapM_ok {f : γ → Except Error α} {xs : List γ} (h : ∀ x ∈ xs, ∃ a, f x = .ok a) :
    ∃ as, xs.mapM f = .ok as ∧ xs.map f = as.map .ok := by
  induction xs with
  | nil => exact ⟨[], rfl, rfl⟩
  | cons x xs ih =>
    obtain ⟨a, ha⟩ := h x List.mem_cons_self
    obtain ⟨as, has, hmap⟩ := ih fun y hy => h y (List.mem_cons_of_mem x hy)
    refine ⟨a :: as, ?_, ?_⟩
    · rw [List.mapM_cons, ha, has]
      rfl
    · rw [List.map_cons, List.map_cons, ha, hmap]

section

variable {f : γ → Except Error α} {xs : List γ} {as : List α} (h : xs.map f = as.map .ok)
include h

theorem ok_of_mem {x : γ} (hx : x ∈ xs) : ∃ a ∈ as, f x = .ok a := by
  have hmem : f x ∈ xs.map f := List.mem_map_of_mem hx
  rw [h] at hmem
  obtain ⟨a, ha, heq⟩ := List.mem_map.1 hmem
  exact ⟨a, ha, heq.symm⟩

theorem mem_of_ok {a : α} (ha : a ∈ as) : ∃ x ∈ xs, f x = .ok a := by
  have hmem : (Except.ok a : Except Error α) ∈ as.map .ok := List.mem_map_of_mem ha
  rw [← h] at hmem
  exact List.mem_map.1 hmem

end

theorem map_of_ok {f : γ → Except Error α} {g : γ → β} {g' : α → β} {xs : List γ} {as : List α}
    (h : xs.map f = as.map .ok) (hg : ∀ x a, f x = .ok a → g' a = g x) :
    as.map g' = xs.map g := by
  induction xs generalizing as with
  | nil =>
    rw [List.map_eq_nil_iff.1 h.symm]
    rfl
  | cons x xs ih =>
    obtain ⟨a, as, rfl, ha, has⟩ := List.map_eq_cons_iff.1 h.symm
    rw [List.map_cons, List.map_cons, hg x a ha.symm, ih has.symm]

theorem bind_apply (m : Steps σ α) (f : α → Steps σ β) (s : σ) :
    (m >>= f) s = match m s with
      | (.ok a, t) => f a t
      | (.error e, t) => (.error e, t) := by
  change (StateT.bind m (ExceptT.bindCont f)) s = _
  unfold StateT.bind
  rcases m s with ⟨x, t⟩
  cases x <;> rfl

theorem bind_ok {m : Steps σ α} {f : α → Steps σ β} {s t : σ} {b : β}
    (h : (m >>= f) s = (.ok b, t)) : ∃ a u, m s = (.ok a, u) ∧ f a u = (.ok b, t) := by
  rw [bind_apply] at h
  rcases hm : m s with ⟨x, u⟩
  rw [hm] at h
  cases x with
  | error e => cases h
  | ok a => exact ⟨a, u, rfl, h⟩

theorem ok_of_fst {m : Steps σ α} {s : σ} {a : α} (h : (m s).1 = .ok a) :
    ∃ t, m s = (.ok a, t) :=
  ⟨(m s).2, Prod.ext h rfl⟩

theorem ok_of_toOption {m : Steps σ α} {s : σ} {a : α} (h : (m s).1.toOption = some a) :
    ∃ t, m s = (.ok a, t) := by
  obtain ⟨b, hb, rfl⟩ := except_ok_of_toOption_map (f := id) (by simpa using h)
  exact ok_of_fst hb

theorem ok_of_toOption_map {m : Steps σ α} {s : σ} {f : α → β} {b : β}
    (h : (m s).1.toOption.map f = some b) : ∃ a t, m s = (.ok a, t) ∧ f a = b := by
  obtain ⟨a, ha, hf⟩ := except_ok_of_toOption_map h
  obtain ⟨t, ht⟩ := ok_of_fst ha
  exact ⟨a, t, ht, hf⟩

theorem ok_of_toBool {m : Steps σ α} {s : σ} (h : (m s).1.toBool = true) :
    ∃ a, m s = (.ok a, (m s).2) := by
  obtain ⟨a, ha⟩ := except_ok_of_toBool h
  exact ⟨a, Prod.ext ha rfl⟩

theorem bind_of_ok {m : Steps σ α} {f : α → Steps σ β} {s t : σ} {a : α} (h : m s = (.ok a, t)) :
    (m >>= f) s = f a t := by
  rw [bind_apply, h]

theorem bind_error {m : Steps σ α} {s : σ} {e : Error} (h : (m s).1 = .error e)
    (f : α → Steps σ β) : ((m >>= f) s).1 = .error e := by
  rw [bind_apply]
  rcases hm : m s with ⟨x, t⟩
  rw [hm] at h
  cases h
  rfl

theorem bind_congr_ok {m : Steps σ α} {f g : α → Steps σ β} {s : σ}
    (h : ∀ a t, m s = (.ok a, t) → f a t = g a t) : (m >>= f) s = (m >>= g) s := by
  rw [bind_apply, bind_apply]
  rcases hm : m s with ⟨x, t⟩
  cases x with
  | error e => rfl
  | ok a => exact h a t hm

theorem forM_congr_mem {xs : List γ} {f g : γ → Steps σ PUnit} (h : ∀ x ∈ xs, f x = g x) :
    xs.forM f = xs.forM g := by
  induction xs with
  | nil => rfl
  | cons x xs ih =>
    rw [List.forM, List.forM, h x List.mem_cons_self,
      ih fun y hy => h y (List.mem_cons_of_mem x hy)]

theorem mapM_congr_mem {xs : List γ} {f g : γ → Steps σ α} (h : ∀ x ∈ xs, f x = g x) :
    xs.mapM f = xs.mapM g := by
  induction xs with
  | nil => rfl
  | cons x xs ih =>
    rw [List.mapM_cons, List.mapM_cons, h x List.mem_cons_self,
      ih fun y hy => h y (List.mem_cons_of_mem x hy)]

theorem lift_apply (x : Except Error α) (s : σ) : (liftM x : Steps σ α) s = (x, s) := rfl

theorem lift_bind_ok {x : Except Error α} {f : α → Steps σ β} {s t : σ} {b : β}
    (h : (liftM x >>= f) s = (.ok b, t)) : ∃ a, x = .ok a ∧ f a s = (.ok b, t) := by
  obtain ⟨a, u, ha, hf⟩ := bind_ok h
  cases ha
  exact ⟨a, rfl, hf⟩

theorem lift_bind_congr_ok {x : Except Error α} {f g : α → Steps σ β} {s : σ}
    (h : ∀ a, x = .ok a → f a s = g a s) : (liftM x >>= f) s = (liftM x >>= g) s := by
  apply bind_congr_ok
  rintro a t ha
  obtain ⟨rfl, rfl⟩ := Prod.mk.inj ha
  exact h a rfl

theorem forM_ok {xs : List γ} {f : γ → Steps σ PUnit} {s t : σ}
    (h : xs.forM f s = (.ok ⟨⟩, t)) : ∀ x ∈ xs, ∃ u v, f x u = (.ok ⟨⟩, v) := by
  induction xs generalizing s with
  | nil => simp
  | cons x xs ih =>
    obtain ⟨_, u, hx, hrest⟩ := bind_ok h
    intro y hy
    rcases List.mem_cons.1 hy with rfl | hy
    · exact ⟨s, u, hx⟩
    · exact ih hrest y hy

theorem mapM_cons_ok {x : γ} {xs : List γ} {f : γ → Steps σ α} {s t : σ} {as : List α}
    (h : (x :: xs).mapM f s = (.ok as, t)) :
    ∃ a u rest, f x s = (.ok a, u) ∧ xs.mapM f u = (.ok rest, t) ∧ as = a :: rest := by
  rw [List.mapM_cons] at h
  obtain ⟨a, u, hx, h⟩ := bind_ok h
  obtain ⟨rest, v, hrest, h⟩ := bind_ok h
  cases h
  exact ⟨a, u, rest, hx, hrest, rfl⟩

theorem mapM_ok {xs : List γ} {f : γ → Steps σ α} {s t : σ} {as : List α}
    (h : xs.mapM f s = (.ok as, t)) : ∀ x ∈ xs, ∃ u a v, f x u = (.ok a, v) := by
  induction xs generalizing s t as with
  | nil => simp
  | cons x xs ih =>
    obtain ⟨a, u, rest, hx, hrest, -⟩ := mapM_cons_ok h
    intro y hy
    rcases List.mem_cons.1 hy with rfl | hy
    · exact ⟨s, a, u, hx⟩
    · exact ih hrest y hy

theorem get_apply (s : σ) : (get : Steps σ σ) s = (.ok s, s) := rfl

theorem modify_apply (f : σ → σ) (s : σ) : (modify f : Steps σ Unit) s = (.ok (), f s) := rfl

/-- The steps keep `I`, whether they succeed or fail, and what they answer satisfies `Q`. -/
def Maintains (I : σ → Prop) (m : Steps σ α) (Q : α → Prop) : Prop :=
  ∀ s, I s → I (m s).2 ∧ ∀ a, (m s).1 = .ok a → Q a

section Maintains

variable {I : σ → Prop} {Q : α → Prop} {R : β → Prop}

theorem maintains_pure {a : α} (h : Q a) : Maintains I (pure a) Q :=
  fun _ hs => ⟨hs, fun _ ha => Except.ok.inj ha ▸ h⟩

theorem maintains_throw {e : Error} : Maintains I (throw e : Steps σ α) Q :=
  fun _ hs => ⟨hs, fun _ ha => nomatch ha⟩

theorem maintains_lift {x : Except Error α} (h : ∀ a, x = .ok a → Q a) :
    Maintains I (liftM x) Q :=
  fun _ hs => ⟨hs, h⟩

theorem maintains_get : Maintains I (get : Steps σ σ) I :=
  fun _ hs => ⟨hs, fun _ ha => Except.ok.inj ha ▸ hs⟩

theorem maintains_set {t : σ} (h : I t) : Maintains I (set t) (fun _ => True) :=
  fun _ _ => ⟨h, fun _ _ => trivial⟩

theorem maintains_modify {f : σ → σ} (h : ∀ s, I s → I (f s)) :
    Maintains I (modify f) (fun _ => True) :=
  fun s hs => ⟨h s hs, fun _ _ => trivial⟩

theorem maintains_bind {m : Steps σ α} {f : α → Steps σ β} (hm : Maintains I m Q)
    (hf : ∀ a, Q a → Maintains I (f a) R) : Maintains I (m >>= f) R := by
  intro s hs
  have h := hm s hs
  rw [bind_apply]
  rcases hx : m s with ⟨x, t⟩
  rw [hx] at h
  cases x with
  | error e => exact ⟨h.1, fun _ ha => nomatch ha⟩
  | ok a => exact hf a (h.2 a rfl) t h.1

theorem Maintains.weaken {Q' : α → Prop} {m : Steps σ α} (hm : Maintains I m Q)
    (h : ∀ a, Q a → Q' a) : Maintains I m Q' :=
  fun s hs => ⟨(hm s hs).1, fun a ha => h a ((hm s hs).2 a ha)⟩

theorem maintains_map {m : Steps σ α} {f : α → β} (hm : Maintains I m Q)
    (h : ∀ a, Q a → R (f a)) : Maintains I (f <$> m) R := by
  rw [← bind_pure_comp]
  exact maintains_bind hm fun a ha => maintains_pure (h a ha)

theorem maintains_forM {xs : List γ} {f : γ → Steps σ PUnit}
    (h : ∀ x ∈ xs, Maintains I (f x) (fun _ => True)) :
    Maintains I (xs.forM f) (fun _ => True) := by
  induction xs with
  | nil => exact maintains_pure trivial
  | cons x xs ih =>
    apply maintains_bind (h x List.mem_cons_self)
    intro _ _
    exact ih fun y hy => h y (List.mem_cons_of_mem x hy)

theorem maintains_mapM {xs : List γ} {f : γ → Steps σ α}
    (h : ∀ x ∈ xs, Maintains I (f x) Q) : Maintains I (xs.mapM f) (fun as => ∀ a ∈ as, Q a) := by
  induction xs with
  | nil => exact maintains_pure (by simp)
  | cons x xs ih =>
    rw [List.mapM_cons]
    apply maintains_bind (h x List.mem_cons_self)
    intro a ha
    apply maintains_bind (ih fun y hy => h y (List.mem_cons_of_mem x hy))
    intro as has
    exact maintains_pure (by simpa using ⟨ha, has⟩)

theorem maintains_ite {p : Prop} [Decidable p] {m n : Steps σ α} (hm : p → Maintains I m Q)
    (hn : ¬ p → Maintains I n Q) : Maintains I (if p then m else n) Q := by
  by_cases h : p
  · rw [if_pos h]
    exact hm h
  · rw [if_neg h]
    exact hn h

end Maintains

/-- Started where `I` holds, the steps end with an answer and a state that satisfy `Q`, or fail. -/
structure Ensures (I : σ → Prop) (m : Steps σ α) (Q : α → σ → Prop) : Prop where
  ok : ∀ s, I s → ∀ a t, m s = (.ok a, t) → Q a t

section Ensures

variable {I : σ → Prop} {Q : α → σ → Prop} {R : β → σ → Prop}

theorem Maintains.ensures {K : α → Prop} {m : Steps σ α} (hm : Maintains I m K) :
    Ensures I m (fun a t => I t ∧ K a) := by
  constructor
  intro s hs a t h
  have hi := hm s hs
  rw [h] at hi
  exact ⟨hi.1, hi.2 a rfl⟩

theorem Ensures.weaken {Q' : α → σ → Prop} {m : Steps σ α} (hm : Ensures I m Q)
    (h : ∀ a t, Q a t → Q' a t) : Ensures I m Q' :=
  ⟨fun s hs a t ht => h a t (hm.ok s hs a t ht)⟩

theorem Ensures.strengthen {I' : σ → Prop} {m : Steps σ α} (hm : Ensures I m Q)
    (h : ∀ s, I' s → I s) : Ensures I' m Q :=
  ⟨fun s hs => hm.ok s (h s hs)⟩

theorem ensures_pure {a : α} (h : ∀ s, I s → Q a s) : Ensures I (pure a) Q := by
  constructor
  intro s hs b t ht
  cases ht
  exact h s hs

theorem ensures_modify {f : σ → σ} {Q : PUnit → σ → Prop} (h : ∀ s, I s → Q ⟨⟩ (f s)) :
    Ensures I (modify f) Q := by
  constructor
  intro s hs b t ht
  cases ht
  exact h s hs

theorem ensures_bind {m : Steps σ α} {f : α → Steps σ β} (hm : Ensures I m Q)
    (hf : ∀ a, Ensures (Q a) (f a) R) : Ensures I (m >>= f) R := by
  constructor
  intro s hs b t h
  obtain ⟨a, u, ha, hb⟩ := bind_ok h
  exact (hf a).ok u (hm.ok s hs a u ha) b t hb

theorem Maintains.bind_ensures {K : α → Prop} {m : Steps σ α} {f : α → Steps σ β}
    (hm : Maintains I m K) (hf : ∀ a, K a → Ensures I (f a) R) : Ensures I (m >>= f) R := by
  apply ensures_bind hm.ensures
  intro a
  constructor
  intro s hs
  exact (hf a hs.2).ok s hs.1

theorem ensures_mapM_forall₂ {P : γ → α → Prop} {xs : List γ} {f : γ → Steps σ α}
    (h : ∀ x ∈ xs, Ensures I (f x) fun a t => I t ∧ P x a) :
    Ensures I (xs.mapM f) fun as t => I t ∧ List.Forall₂ P xs as := by
  induction xs with
  | nil => exact ensures_pure fun _ hs => ⟨hs, .nil⟩
  | cons x xs ih =>
    rw [List.mapM_cons]
    constructor
    intro s hs as t ht
    obtain ⟨a, u, hx, ht⟩ := bind_ok ht
    obtain ⟨hu, hp⟩ := (h x List.mem_cons_self).ok s hs a u hx
    obtain ⟨bs, v, hrest, ht⟩ := bind_ok ht
    obtain ⟨hv, hps⟩ := (ih fun y hy => h y (List.mem_cons_of_mem x hy)).ok u hu bs v hrest
    cases ht
    exact ⟨hv, .cons hp hps⟩

theorem ensures_mapM {P : γ → Prop} {xs : List γ} {f : γ → Steps σ α}
    (h : ∀ x ∈ xs, Ensures I (f x) fun _ t => I t ∧ P x) :
    Ensures I (xs.mapM f) fun _ t => I t ∧ ∀ x ∈ xs, P x := by
  have hforall : ∀ {as : List α}, List.Forall₂ (fun x _ => P x) xs as → ∀ x ∈ xs, P x := by
    clear h
    intro as has
    induction has with
    | nil => simp
    | cons hx _ ih => simpa using ⟨hx, ih⟩
  exact (ensures_mapM_forall₂ h).weaken fun _ _ ht => ⟨ht.1, hforall ht.2⟩

theorem Maintains.ensures_answer {K : α → Prop} {m : Steps σ α} (hm : Maintains I m K) (b : β) :
    Ensures I (m >>= fun _ => pure b) fun a t => I t ∧ a = b := by
  apply ensures_bind hm.ensures
  intro _
  exact ensures_pure fun _ hs => ⟨hs.1, rfl⟩

end Ensures

def Succeeds (m : Steps σ α) : Prop := ∀ s, ∃ a t, m s = (.ok a, t)

section Succeeds

theorem succeeds_pure (a : α) : Succeeds (pure a : Steps σ α) := fun s => ⟨a, s, rfl⟩

theorem succeeds_modify (f : σ → σ) : Succeeds (modify f) := fun s => ⟨⟨⟩, f s, rfl⟩

theorem succeeds_bind {m : Steps σ α} {f : α → Steps σ β} (hm : Succeeds m)
    (hf : ∀ a, Succeeds (f a)) : Succeeds (m >>= f) := by
  intro s
  obtain ⟨a, t, ha⟩ := hm s
  rw [bind_of_ok ha]
  exact hf a t

theorem succeeds_forM {xs : List γ} {f : γ → Steps σ PUnit} (h : ∀ x ∈ xs, Succeeds (f x)) :
    Succeeds (xs.forM f) := by
  induction xs with
  | nil => exact succeeds_pure _
  | cons x xs ih =>
    apply succeeds_bind (h x List.mem_cons_self)
    exact fun _ => ih fun y hy => h y (List.mem_cons_of_mem x hy)

theorem succeeds_mapM {xs : List γ} {f : γ → Steps σ α} (h : ∀ x ∈ xs, Succeeds (f x)) :
    Succeeds (xs.mapM f) := by
  induction xs with
  | nil => exact succeeds_pure _
  | cons x xs ih =>
    rw [List.mapM_cons]
    apply succeeds_bind (h x List.mem_cons_self)
    intro a
    apply succeeds_bind (ih fun y hy => h y (List.mem_cons_of_mem x hy))
    exact fun as => succeeds_pure _

end Succeeds

/-- Both succeed with related results, or both fail with one error. -/
def Both (Q : α → β → Prop) : Except Error α → Except Error β → Prop
  | .ok a, .ok b => Q a b
  | .error e, .error e' => e = e'
  | _, _ => False

theorem both_refl {Q : α → α → Prop} (h : ∀ a, Q a a) (x : Except Error α) : Both Q x x := by
  cases x with
  | error e => exact rfl
  | ok a => exact h a

theorem Both.of_error {Q : α → β → Prop} {x : Except Error α} {e : Error}
    (h : Both Q x (.error e)) : x = .error e := by
  cases x with
  | error e' =>
    cases h
    rfl
  | ok a => exact h.elim

theorem Both.of_ok {Q : α → β → Prop} {x : Except Error α} {b : β} (h : Both Q x (.ok b)) :
    ∃ a, x = .ok a ∧ Q a b := by
  cases x with
  | error e => exact h.elim
  | ok a => exact ⟨a, rfl, h⟩

theorem Both.weaken {Q Q' : α → β → Prop} (h : ∀ a b, Q a b → Q' a b) {x : Except Error α}
    {y : Except Error β} (hxy : Both Q x y) : Both Q' x y := by
  cases x <;> cases y <;> first | exact hxy | exact h _ _ hxy

theorem Both.map {Q : α → β → Prop} {Q' : γ → δ → Prop} {f : α → γ} {g : β → δ}
    (h : ∀ a b, Q a b → Q' (f a) (g b)) {x : Except Error α} {y : Except Error β}
    (hxy : Both Q x y) : Both Q' (x.map f) (y.map g) := by
  cases x <;> cases y <;> first | exact hxy | exact h _ _ hxy

theorem both_bind {Q : α → β → Prop} {Q' : γ → δ → Prop} {x : Except Error α}
    {y : Except Error β} {f : α → Except Error γ} {g : β → Except Error δ} (hxy : Both Q x y)
    (hf : ∀ a b, Q a b → Both Q' (f a) (g b)) : Both Q' (x >>= f) (y >>= g) := by
  cases x with
  | error e =>
    cases y with
    | error e' => exact hxy
    | ok b => exact hxy.elim
  | ok a =>
    cases y with
    | error e' => exact hxy.elim
    | ok b => exact hf a b hxy

/-- Run from related states, the steps end in related states with related outcomes. -/
def Parallel (R : σ → τ → Prop) (m : Steps σ α) (n : Steps τ β) (Q : α → β → Prop) : Prop :=
  ∀ s t, R s t → R (m s).2 (n t).2 ∧ Both Q (m s).1 (n t).1

section Parallel

variable {R : σ → τ → Prop} {Q : α → β → Prop}

theorem parallel_pure {a : α} {b : β} (h : Q a b) : Parallel R (pure a) (pure b) Q :=
  fun _ _ hst => ⟨hst, h⟩

theorem parallel_throw {e : Error} :
    Parallel R (throw e : Steps σ α) (throw e : Steps τ β) Q :=
  fun _ _ hst => ⟨hst, rfl⟩

theorem parallel_lift {x : Except Error α} {y : Except Error β} (h : Both Q x y) :
    Parallel R (liftM x) (liftM y) Q :=
  fun _ _ hst => ⟨hst, h⟩

theorem parallel_get : Parallel R (get : Steps σ σ) (get : Steps τ τ) R :=
  fun _ _ hst => ⟨hst, hst⟩

theorem parallel_set {s : σ} {t : τ} (h : R s t) :
    Parallel R (set s) (set t) (fun _ _ => True) :=
  fun _ _ _ => ⟨h, trivial⟩

theorem parallel_modify {f : σ → σ} {g : τ → τ} (h : ∀ s t, R s t → R (f s) (g t)) :
    Parallel R (modify f) (modify g) (fun _ _ => True) :=
  fun s t hst => ⟨h s t hst, trivial⟩

theorem Parallel.weaken {Q' : α → β → Prop} {m : Steps σ α} {n : Steps τ β}
    (hm : Parallel R m n Q) (h : ∀ a b, Q a b → Q' a b) : Parallel R m n Q' :=
  fun s t hst => ⟨(hm s t hst).1, (hm s t hst).2.weaken h⟩

theorem Parallel.succeeds_iff {Q : PUnit → PUnit → Prop} {m : Steps σ PUnit} {n : Steps τ PUnit}
    (hm : Parallel R m n Q) {s : σ} {t : τ} (hst : R s t) :
    (∃ s', m s = (.ok ⟨⟩, s')) ↔ ∃ t', n t = (.ok ⟨⟩, t') := by
  have h := (hm s t hst).2
  rcases hx : m s with ⟨x, s'⟩
  rcases hy : n t with ⟨y, t'⟩
  rw [hx, hy] at h
  cases x with
  | error e =>
    cases y with
    | error e' => constructor <;> rintro ⟨_, hfail⟩ <;> cases hfail
    | ok b => exact h.elim
  | ok a =>
    cases y with
    | error e' => exact h.elim
    | ok b => exact iff_of_true ⟨s', rfl⟩ ⟨t', rfl⟩

theorem parallel_bind {Q' : γ → δ → Prop} {m : Steps σ α} {n : Steps τ β}
    {f : α → Steps σ γ} {g : β → Steps τ δ} (hm : Parallel R m n Q)
    (hf : ∀ a b, Q a b → Parallel R (f a) (g b) Q') : Parallel R (m >>= f) (n >>= g) Q' := by
  intro s t hst
  have h := hm s t hst
  rw [bind_apply, bind_apply]
  rcases hx : m s with ⟨x, s'⟩
  rcases hy : n t with ⟨y, t'⟩
  rw [hx, hy] at h
  cases x with
  | error e =>
    cases y with
    | error e' => exact h
    | ok b => exact h.2.elim
  | ok a =>
    cases y with
    | error e' => exact h.2.elim
    | ok b => exact hf a b h.2 s' t' h.1

theorem parallel_map {Q' : γ → δ → Prop} {m : Steps σ α} {n : Steps τ β} {f : α → γ} {g : β → δ}
    (hm : Parallel R m n Q) (h : ∀ a b, Q a b → Q' (f a) (g b)) :
    Parallel R (f <$> m) (g <$> n) Q' := by
  rw [← bind_pure_comp, ← bind_pure_comp]
  exact parallel_bind hm fun a b hab => parallel_pure (h a b hab)

theorem parallel_forM {P : γ → δ → Prop} {xs : List γ} {ys : List δ} {f : γ → Steps σ PUnit}
    {g : δ → Steps τ PUnit} (hxy : List.Forall₂ P xs ys)
    (h : ∀ x y, P x y → Parallel R (f x) (g y) (fun _ _ => True)) :
    Parallel R (xs.forM f) (ys.forM g) (fun _ _ => True) := by
  induction hxy with
  | nil => exact parallel_pure trivial
  | cons hp _ ih => exact parallel_bind (h _ _ hp) fun _ _ _ => ih

theorem parallel_mapM {P : γ → δ → Prop} {xs : List γ} {ys : List δ} {f : γ → Steps σ α}
    {g : δ → Steps τ β} (hxy : List.Forall₂ P xs ys)
    (h : ∀ x y, P x y → Parallel R (f x) (g y) Q) :
    Parallel R (xs.mapM f) (ys.mapM g) (List.Forall₂ Q) := by
  induction hxy with
  | nil => exact parallel_pure .nil
  | cons hp _ ih =>
    rw [List.mapM_cons, List.mapM_cons]
    apply parallel_bind (h _ _ hp)
    intro a b hab
    apply parallel_bind ih
    intro as bs has
    exact parallel_pure (.cons hab has)

theorem parallel_ite {p q : Prop} [Decidable p] [Decidable q] (hpq : p ↔ q)
    {m m' : Steps σ α} {n n' : Steps τ β} (hm : p → Parallel R m n Q)
    (hn : ¬ p → Parallel R m' n' Q) :
    Parallel R (if p then m else m') (if q then n else n') Q := by
  by_cases h : p
  · rw [if_pos h, if_pos (hpq.1 h)]
    exact hm h
  · rw [if_neg h, if_neg fun hq => h (hpq.2 hq)]
    exact hn h

end Parallel

end RecordQuery.Steps
