import RecordQuery.Proofs.Steps

namespace RecordQuery

open Steps

variable {α β γ : Type}

def ended : Except Error α → Option (Except Error α)
  | .error (.endless _) => none
  | x => some x

def Ends (x : Except Error α) : Prop := (ended x).isSome = true

theorem ends_ok (a : α) : Ends (Except.ok a : Except Error α) := rfl

theorem not_ends_endless (entity : String) :
    ¬ Ends (Except.error (.endless entity) : Except Error α) :=
  fun h => nomatch h

theorem ends_error {e : Error} :
    Ends (Except.error e : Except Error α) ↔ Ends (Except.error e : Except Error β) := by
  cases e <;> exact Iff.rfl

theorem ended_of_not_ends {x : Except Error α} (h : ¬ Ends x) : ended x = none := by
  cases hx : ended x with
  | none => rfl
  | some y =>
    apply absurd _ h
    unfold Ends
    rw [hx]
    rfl

theorem eq_of_ended {x : Except Error α} {a : α} (h : ended x = ended (.ok a)) : x = .ok a := by
  cases x with
  | ok b => exact Option.some.inj h
  | error e => cases e <;> cases h

theorem ends_of_bind {x : Except Error α} {f : α → Except Error β} (h : Ends (x >>= f)) :
    Ends x := by
  cases x with
  | ok a => exact ends_ok a
  | error e => exact ends_error.1 h

theorem ends_bind {α β : Type} {x : Except Error α} {f : α → Except Error β} (hx : Ends x)
    (hf : ∀ a, Ends (f a)) : Ends (x >>= f) := by
  cases x with
  | error e => exact ends_error.1 hx
  | ok a => exact hf a

theorem ends_map {x : Except Error α} {f : α → β} : Ends (x.map f) ↔ Ends x := by
  cases x with
  | ok a => exact Iff.rfl
  | error e => exact ends_error

theorem ends_of_both {Q : α → β → Prop} {x : Except Error α} {y : Except Error β}
    (h : Both Q x y) : Ends x ↔ Ends y := by
  cases x with
  | ok a =>
    cases y with
    | ok b => exact Iff.rfl
    | error e => exact h.elim
  | error e =>
    cases y with
    | ok b => exact h.elim
    | error e' =>
      cases h
      exact ends_error

/-- An outcome that there is stays. -/
def Refines (x y : Except Error α) : Prop := Ends x → y = x

theorem refines_refl (x : Except Error α) : Refines x x := fun _ => rfl

theorem refines_endless (entity : String) (y : Except Error α) :
    Refines (.error (.endless entity)) y :=
  fun h => absurd h (not_ends_endless entity)

theorem Refines.trans {x y z : Except Error α} (hxy : Refines x y) (hyz : Refines y z) :
    Refines x z := by
  intro hx
  have hy := hxy hx
  rw [← hy] at hx ⊢
  exact hyz hx

theorem Refines.ends {x y : Except Error α} (h : Refines x y) (hx : Ends x) : Ends y := by
  rw [h hx]
  exact hx

theorem refines_bind {x y : Except Error α} {f g : α → Except Error β} (hxy : Refines x y)
    (hfg : ∀ a, x = .ok a → Refines (f a) (g a)) : Refines (x >>= f) (y >>= g) := by
  intro h
  rw [hxy (ends_of_bind h)]
  cases x with
  | error e => rfl
  | ok a => exact hfg a rfl h

theorem refines_map {x y : Except Error α} (f : α → β) (h : Refines x y) :
    Refines (x.map f) (y.map f) := by
  intro hx
  rw [h (ends_map.1 hx)]

theorem refines_mapM {xs : List γ} {f g : γ → Except Error α}
    (h : ∀ x ∈ xs, Refines (f x) (g x)) : Refines (xs.mapM f) (xs.mapM g) := by
  induction xs with
  | nil => exact refines_refl _
  | cons x xs ih =>
    rw [List.mapM_cons, List.mapM_cons]
    apply refines_bind (h x List.mem_cons_self)
    intro a _
    apply refines_bind (ih fun y hy => h y (List.mem_cons_of_mem x hy))
    intro _ _
    exact refines_refl _

theorem bind_congr_of_both {Q : α → β → Prop} {x : Except Error α} {y : Except Error β}
    {f : α → Except Error γ} {g : β → Except Error γ} (hxy : Both Q x y)
    (h : ∀ a b, Q a b → f a = g b) : (x >>= f) = y >>= g := by
  cases x with
  | ok a =>
    cases y with
    | ok b => exact h a b hxy
    | error e => exact hxy.elim
  | error e =>
    cases y with
    | ok b => exact hxy.elim
    | error e' =>
      cases hxy
      rfl

theorem mapM_congr {P : γ → γ → Prop} {xs ys : List γ} {f g : γ → Except Error α}
    (hxy : List.Forall₂ P xs ys) (h : ∀ x y, P x y → f x = g y) : xs.mapM f = ys.mapM g := by
  induction hxy with
  | nil => rfl
  | cons hp _ ih => rw [List.mapM_cons, List.mapM_cons, h _ _ hp, ih]

/-- The steps keep `I` and their outcome is enclosed: they end wherever `low` does, and where they
end, `high` ends alike. -/
def Between {σ : Type} (I : σ → Prop) (m : Steps σ α) (low high : Except Error β)
    (Q : α → β → Prop) : Prop :=
  ∀ s, I s → I (m s).2 ∧ (Ends low → Ends (m s).1) ∧ (Ends (m s).1 → Both Q (m s).1 high)

section Between

variable {σ δ ε : Type} {I : σ → Prop} {Q : α → β → Prop} {low high : Except Error β}

theorem between_both {m : Steps σ α} {x : Except Error β}
    (h : ∀ s, I s → I (m s).2 ∧ Both Q (m s).1 x) : Between I m x x Q :=
  fun s hs => ⟨(h s hs).1, (ends_of_both (h s hs).2).2, fun _ => (h s hs).2⟩

theorem between_pure {a : α} {b : β} (h : Q a b) : Between I (pure a) (.ok b) (.ok b) Q :=
  between_both fun _ hs => ⟨hs, h⟩

theorem between_lift (x : Except Error α) : Between I (liftM x) x x Eq :=
  between_both fun _ hs => ⟨hs, both_refl (fun _ => rfl) x⟩

theorem Between.weaken {Q' : α → β → Prop} {m : Steps σ α} (hm : Between I m low high Q)
    (h : ∀ a b, Q a b → Q' a b) : Between I m low high Q' := by
  intro s hs
  obtain ⟨hi, hlow, hhigh⟩ := hm s hs
  exact ⟨hi, hlow, fun hends => (hhigh hends).weaken h⟩

theorem Between.rise {m : Steps σ α} {higher : Except Error β} (hm : Between I m low high Q)
    (h : Refines high higher) : Between I m low higher Q := by
  intro s hs
  obtain ⟨hi, hlow, hhigh⟩ := hm s hs
  refine ⟨hi, hlow, fun hends => ?_⟩
  have hboth := hhigh hends
  rwa [h ((ends_of_both hboth).1 hends)]

theorem map_of_both {f : α → β} {x : Except Error α} {y : Except Error β}
    (h : Both (fun a b => f a = b) x y) : x.map f = y := by
  cases x with
  | ok a =>
    cases y with
    | ok b => exact congrArg Except.ok h
    | error e => exact h.elim
  | error e =>
    cases y with
    | ok b => exact h.elim
    | error e' => exact congrArg Except.error h

theorem Between.ended_eq {m : Steps σ α} {x : Except Error β} {f : α → β}
    (hm : Between I m x x fun a b => f a = b) {s : σ} (hs : I s) :
    ended ((m s).1.map f) = ended x := by
  obtain ⟨-, hlow, hhigh⟩ := hm s hs
  by_cases hx : Ends x
  · rw [map_of_both (hhigh (hlow hx))]
  · have hnot : ¬ Ends (m s).1 := fun h => hx ((ends_of_both (hhigh h)).1 h)
    rw [ended_of_not_ends hx, ended_of_not_ends fun h => hnot (ends_map.1 h)]

theorem between_bind {Q' : δ → ε → Prop} {m : Steps σ α} {f : α → Steps σ δ}
    {l h : β → Except Error ε} (hm : Between I m low high Q) (hle : Refines low high)
    (hf : ∀ a b, Q a b → high = .ok b → Between I (f a) (l b) (h b) Q') :
    Between I (m >>= f) (low >>= l) (high >>= h) Q' := by
  intro s hs
  obtain ⟨hi, hlow, hhigh⟩ := hm s hs
  rw [bind_apply]
  rcases hx : m s with ⟨x, t⟩
  rw [hx] at hi hlow hhigh
  cases x with
  | error e =>
    refine ⟨hi, fun hl => ends_error.1 (hlow (ends_of_bind hl)), fun he => ?_⟩
    have hboth := hhigh (ends_error.1 he)
    cases high with
    | ok b => exact hboth.elim
    | error e' => exact hboth
  | ok a =>
    have hboth := hhigh (ends_ok a)
    cases high with
    | error e' => exact hboth.elim
    | ok b =>
      obtain ⟨hnext, hlownext, hhighnext⟩ := hf a b hboth rfl t hi
      refine ⟨hnext, fun hl => hlownext ?_, hhighnext⟩
      have heq := hle (ends_of_bind hl)
      rw [← heq] at hl
      exact hl

theorem between_map {Q' : δ → ε → Prop} {m : Steps σ α} {f : α → δ} {g : β → ε}
    (hm : Between I m low high Q) (hle : Refines low high) (hQ : ∀ a b, Q a b → Q' (f a) (g b)) :
    Between I (m >>= fun a => pure (f a)) (low.map g) (high.map g) Q' := by
  have hmap : ∀ x : Except Error β, x.map g = x >>= fun b => .ok (g b) := by
    intro x
    cases x <;> rfl
  rw [hmap, hmap]
  apply between_bind hm hle
  intro a b hab _
  exact between_pure (hQ a b hab)

theorem between_mapM {P : γ → δ → Prop} {xs : List γ} {ys : List δ} {f : γ → Steps σ α}
    {l h : δ → Except Error β} (hxy : List.Forall₂ P xs ys)
    (hle : ∀ y ∈ ys, Refines (l y) (h y))
    (hf : ∀ x, ∀ y ∈ ys, P x y → Between I (f x) (l y) (h y) Q) :
    Between I (xs.mapM f) (ys.mapM l) (ys.mapM h) (List.Forall₂ Q) := by
  induction hxy with
  | nil => exact between_pure .nil
  | @cons x y xs ys hp _ ih =>
    rw [List.mapM_cons, List.mapM_cons, List.mapM_cons]
    have hrest : ∀ y' ∈ ys, y' ∈ y :: ys := fun y' hy' => List.mem_cons_of_mem y hy'
    apply between_bind (hf x y List.mem_cons_self hp) (hle y List.mem_cons_self)
    intro a b hab _
    apply between_bind (ih (fun y' hy' => hle y' (hrest y' hy'))
      fun x' y' hy' => hf x' y' (hrest y' hy'))
    · exact refines_mapM fun y' hy' => hle y' (hrest y' hy')
    intro as bs has _
    exact between_pure (.cons hab has)

theorem between_mapM_eq {P : γ → δ → Prop} {xs : List γ} {ys : List δ} {f : γ → Steps σ α}
    {l h : δ → Except Error α} (hxy : List.Forall₂ P xs ys) (hle : ∀ y ∈ ys, Refines (l y) (h y))
    (hf : ∀ x, ∀ y ∈ ys, P x y → Between I (f x) (l y) (h y) Eq) :
    Between I (xs.mapM f) (ys.mapM l) (ys.mapM h) Eq := by
  apply (between_mapM hxy hle hf).weaken
  intro as bs h
  rwa [List.forall₂_eq_eq_eq] at h

end Between

end RecordQuery
