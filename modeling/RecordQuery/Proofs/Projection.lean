import RecordQuery.Compilation

namespace RecordQuery

variable {L : FieldLeaf → Prop} {O : NestedOptions → Prop}

namespace Projection

def Every (L : FieldLeaf → Prop) (O : NestedOptions → Prop) : Projection → Prop
  | .done _ => True
  | .column _ _ rest => rest.Every L O
  | .field _ leaf rest => L leaf ∧ rest.Every L O
  | .list _ options inner rest => O options ∧ inner.Every L O ∧ rest.Every L O

end Projection

def Leaf.Every (L : FieldLeaf → Prop) (O : NestedOptions → Prop) : Leaf → Prop
  | .column _ => True
  | .field leaf => L leaf
  | .list options inner => O options ∧ inner.Every L O

theorem Projection.every_leaves {p : Projection} (h : p.Every L O) :
    ∀ l ∈ p.leaves, l.2.Every L O := by
  induction p with
  | done => simp [leaves]
  | column path label rest ih =>
    intro l hl
    rcases List.mem_cons.1 hl with rfl | hl
    · trivial
    · exact ih h l hl
  | field path leaf rest ih =>
    intro l hl
    rcases List.mem_cons.1 hl with rfl | hl
    · exact h.1
    · exact ih h.2 l hl
  | list path options inner rest _ ih =>
    intro l hl
    rcases List.mem_cons.1 hl with rfl | hl
    · exact ⟨h.1, h.2.1⟩
    · exact ih h.2.2 l hl

theorem Projection.every_of (hL : ∀ l, L l) (hO : ∀ o, O o) (p : Projection) : p.Every L O := by
  induction p with
  | done => trivial
  | column path label rest ih => exact ih
  | field path leaf rest ih => exact ⟨hL leaf, ih⟩
  | list path options inner rest ihi ihr => exact ⟨hO options, ihi, ihr⟩

theorem Projection.every_of_depth (hL : ∀ l, L l) {p : Projection} (h : p.depth = 0) :
    p.Every L O := by
  induction p with
  | done => trivial
  | column path label rest ih => exact ih h
  | field path leaf rest ih => exact ⟨hL leaf, ih h⟩
  | list path options inner rest ihi ihr =>
    rw [depth] at h
    omega

theorem Projection.Every.combine {L' L'' : FieldLeaf → Prop} {O' O'' : NestedOptions → Prop}
    (hL : ∀ l, L l → L' l → L'' l) (hO : ∀ o, O o → O' o → O'' o) {p : Projection}
    (h : p.Every L O) (h' : p.Every L' O') : p.Every L'' O'' := by
  induction p with
  | done => trivial
  | column path label rest ih => exact ih h h'
  | field path leaf rest ih => exact ⟨hL leaf h.1 h'.1, ih h.2 h'.2⟩
  | list path options inner rest ihi ihr =>
    exact ⟨hO options h.1 h'.1, ihi h.2.1 h'.2.1, ihr h.2.2 h'.2.2⟩

def Projection.Lists (T : Projection → Prop) (p : Projection) : Prop :=
  ∀ l ∈ p.leaves, ∀ options inner, l.2 = .list options inner → T inner

theorem Projection.lists_depth (p : Projection) : p.Lists fun inner => inner.depth < p.depth := by
  induction p with
  | done => simp [Lists, leaves]
  | column path label rest ih =>
    intro l hl
    rcases List.mem_cons.1 hl with rfl | hl
    · intro _ _ h
      cases h
    · exact ih l hl
  | field path leaf rest ih =>
    intro l hl
    rcases List.mem_cons.1 hl with rfl | hl
    · intro _ _ h
      cases h
    · exact ih l hl
  | list path options inner rest _ ih =>
    intro l hl options' inner' h
    rcases List.mem_cons.1 hl with rfl | hl
    · cases h
      exact Nat.lt_of_succ_le (Nat.le_max_left _ _)
    · exact Nat.lt_of_lt_of_le (ih l hl options' inner' h) (Nat.le_max_right _ _)

def FieldLeaf.Charsets (N : String → Prop) (leaf : FieldLeaf) : Prop :=
  ∀ charset, leaf.function = some (.convert (some charset)) → N charset

def Projection.Charsets (N : String → Prop) : Projection → Prop :=
  Projection.Every (FieldLeaf.Charsets N) fun _ => True

theorem Projection.charsets_true (p : Projection) : p.Charsets fun _ => True :=
  p.every_of (fun _ _ _ => trivial) fun _ => trivial

theorem Projection.Charsets.lists {N : String → Prop} {p : Projection} (h : p.Charsets N) :
    p.Lists (Projection.Charsets N) := by
  intro l hl options inner heq
  have hevery := p.every_leaves h l hl
  rw [heq] at hevery
  exact hevery.2

end RecordQuery
