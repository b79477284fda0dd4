import RecordQuery.Compilation
import RecordQuery.Proofs.Steps

namespace RecordQuery

open Steps

variable {N : String → Prop}

inductive Alias : String → Prop
  | numbered (name : String) (n : Nat) : Alias (JoinPlan.aliasNumbered name n)
  | link {a b : String} : Alias a → Alias b → Alias (a ++ "_" ++ b)

theorem toNat_of_isAlphanum {c : Char} (h : c.isAlphanum = true) : c.toNat < 128 := by
  delta Char.isAlphanum Char.isAlpha Char.isUpper Char.isLower Char.isDigit at h
  simp only [Bool.or_eq_true, Bool.and_eq_true, decide_eq_true_eq, UInt32.le_iff_toNat_le,
    ge_iff_le] at h
  change c.val.toNat < 128
  rcases h with (h | h) | h <;> exact Nat.lt_of_le_of_lt h.2 (by decide)

theorem toLower_of_isAlphanum {c : Char} (h : c.isAlphanum = true) :
    c.toLower.isLower = true ∨ c.toLower.isDigit = true := by
  have hall : ∀ n < 128, (Char.ofNat n).isAlphanum = true →
      (Char.ofNat n).toLower.isLower = true ∨ (Char.ofNat n).toLower.isDigit = true := by
    decide +kernel
  have hc := hall c.toNat (toNat_of_isAlphanum h)
  rw [Char.ofNat_toNat] at hc
  exact hc h

theorem Alias.letters {a : String} (h : Alias a) :
    ∀ c ∈ a.toList, c = '_' ∨ c.isLower = true ∨ c.isDigit = true := by
  induction h with
  | numbered name n =>
    intro c hc
    simp only [JoinPlan.aliasNumbered, JoinPlan.aliasBase, String.toList_append,
      String.toList_map, List.mem_append, List.mem_map] at hc
    rcases hc with (⟨d, -, rfl⟩ | hc) | hc
    · split
      · next hd => exact .inr (toLower_of_isAlphanum hd)
      · exact .inl rfl
    · exact .inl (List.mem_singleton.1 hc)
    · rw [Nat.toString_eq_repr, Nat.toList_repr] at hc
      exact .inr (.inr (Nat.isDigit_of_mem_toDigits (by decide) (by decide) hc))
  | link _ _ iha ihb =>
    intro c hc
    simp only [String.toList_append, List.mem_append] at hc
    rcases hc with (hc | hc) | hc
    · exact iha c hc
    · exact .inl (List.mem_singleton.1 hc)
    · exact ihb c hc

inductive ColumnRef (N : String → Prop) : String → Prop
  | mk {a column : String} : Alias a → N column → ColumnRef N (qualified a column)

structure Entity.Names (N : String → Prop) (e : Entity) : Prop where
  columns : ∀ a ∈ e.attributes, N a.column
  deleted : ∀ column, e.softDelete = some column → N column
  foreignKeys : ∀ a ∈ e.associations, N a.foreignKey
  links : ∀ a ∈ e.associations, ∀ l, a.relation = .manyToMany l →
    N l.sourceColumn ∧ N l.targetColumn

structure Setting.Names (N : String → Prop) (s : Setting) : Prop where
  entities : ∀ e ∈ s.schema.entities, e.Names N
  root : s.root.Names N

namespace Entity

variable {e : Entity} {a : Attribute}

theorem mem_of_attributeNamed {name : String} (h : e.attributeNamed name = .ok a) :
    a ∈ e.attributes := by
  unfold attributeNamed at h
  cases hb : e.attribute? name with
  | none =>
    rw [hb] at h
    cases h
  | some b =>
    rw [hb] at h
    cases h
    exact List.mem_of_find?_eq_some hb

theorem mem_of_primary (h : e.primary = .ok a) : a ∈ e.attributes := by
  unfold primary at h
  cases hb : e.primary? with
  | none =>
    rw [hb] at h
    cases h
  | some b =>
    rw [hb] at h
    cases h
    obtain ⟨name, -, hname⟩ := Option.bind_eq_some_iff.1 hb
    exact List.mem_of_find?_eq_some hname

theorem mem_of_key {name : Option String} (h : e.key name = .ok a) : a ∈ e.attributes := by
  cases name with
  | none => exact mem_of_primary h
  | some name => exact mem_of_attributeNamed h

theorem mem_of_ending {segment : String} (h : e.ending segment = .ok a) : a ∈ e.attributes := by
  unfold ending at h
  split at h
  · exact mem_of_primary h
  · exact mem_of_attributeNamed h

namespace Names

theorem primary (h : e.Names N) (ha : e.primary = .ok a) : N a.column :=
  h.columns a (mem_of_primary ha)

theorem key (h : e.Names N) {name : Option String} (ha : e.key name = .ok a) : N a.column :=
  h.columns a (mem_of_key ha)

theorem ending (h : e.Names N) {segment : String} (ha : e.ending segment = .ok a) :
    N a.column :=
  h.columns a (mem_of_ending ha)

end Names

end Entity

namespace Condition

inductive Over (R : String → Prop) : Condition → Prop
  | compare {column op value} : R column → Over R (.compare column op value)
  | group {op conditions} : (∀ c ∈ conditions, Over R c) → Over R (.group op conditions)
  | constant {b} : Over R (.constant b)
  | columnsEq {left right} : R left → R right → Over R (.columnsEq left right)
  | pattern {column v} : R column → Over R (.raw (column ++ " LIKE ? ESCAPE '*'") [v])
  | upperPattern {column v} :
    R column → Over R (.raw ("UPPER(" ++ column ++ ")" ++ " LIKE ? ESCAPE '*'") [v])
  | range {column low high} : R column → Over R (.raw (column ++ " BETWEEN ? AND ?") [low, high])

variable {R R' : String → Prop} {c d : Condition}

theorem Over.mono (hR : ∀ x, R x → R' x) (h : c.Over R) : c.Over R' := by
  induction h with
  | compare hx => exact .compare (hR _ hx)
  | group _ ih => exact .group ih
  | constant => exact .constant
  | columnsEq hl hr => exact .columnsEq (hR _ hl) (hR _ hr)
  | pattern hx => exact .pattern (hR _ hx)
  | upperPattern hx => exact .upperPattern (hR _ hx)
  | range hx => exact .range (hR _ hx)

theorem over_combine {op : Connective} {conditions : List Condition}
    (h : ∀ c ∈ conditions, c.Over R) : (combine op conditions).Over R := by
  unfold combine
  split
  · exact h _ List.mem_cons_self
  · exact .group h

theorem over_isNull {column : String} (h : R column) : (Condition.isNull column).Over R :=
  .compare h

end Condition

namespace Operator

variable {R : String → Prop} {column parameter : String} {value : Value} {p : Predicate}

theorem over_compared {op : Comparison} (hc : R column)
    (h : compared op column value parameter = .ok p) : p.condition.Over R := by
  unfold compared at h
  split at h
  · cases h
    exact .compare hc
  · cases h
    exact .compare hc
  · unfold scalar at h
    split at h
    · cases h
    · cases h
      exact .compare hc

theorem over_listed {op : Comparison} (hc : R column) :
    (listed op column value).condition.Over R := by
  unfold listed
  split
  · exact .constant
  · exact .compare hc

theorem over_text {f : String → Predicate} (hf : ∀ s, (f s).condition.Over R)
    (h : (textOf value parameter).map f = .ok p) : p.condition.Over R := by
  obtain ⟨s, -, rfl⟩ := Steps.except_map_ok h
  exact hf s

theorem over_predicate {op : Operator} (hc : R column)
    (h : op.predicate column value parameter = .ok p) : p.condition.Over R := by
  unfold predicate at h
  cases op with
  | like =>
    exact over_text (f := fun s => patterned column (Like.containing s.toList))
      (fun _ => .pattern hc) h
  | ilike =>
    exact over_text
      (f := fun s => patterned ("UPPER(" ++ column ++ ")") (Like.containing (Text.upper s).toList))
      (fun _ => .upperPattern hc) h
  | ilikeStart =>
    exact over_text
      (f := fun s => patterned ("UPPER(" ++ column ++ ")") (Like.starting (Text.upper s).toList))
      (fun _ => .upperPattern hc) h
  | between =>
    simp only at h
    split at h
    · cases h
      exact .range hc
    · cases h
  | isIn | notIn =>
    cases h
    exact over_listed hc
  | isNull | isNotNull =>
    cases h
    exact .compare hc
  | has => cases h
  | _ => exact over_compared hc h

end Operator

namespace Planning

variable {R : String → Prop} {target : Entity} {child : String}

theorem over_conditionAt {p : ScopedPredicate} {path : String} {c : Condition}
    (hR : ∀ segment leaf, target.ending segment = .ok leaf → R (qualified child leaf.column))
    (h : p.conditionAt path target child = .ok (some c)) : c.Over R := by
  unfold ScopedPredicate.conditionAt at h
  split at h
  · cases h
  split at h
  · cases h
  split at h
  · cases h
  obtain ⟨leaf, hleaf, h⟩ := except_bind_ok h
  obtain ⟨q, hq, h⟩ := except_bind_ok h
  cases h
  exact Operator.over_predicate (hR _ leaf hleaf) hq

theorem over_notDeleted
    (hR : ∀ column, target.softDelete = some column → R (qualified child column)) :
    ∀ c ∈ notDeleted target child, c.Over R := by
  unfold notDeleted
  cases hd : target.softDelete with
  | none => simp
  | some column =>
    intro c hc
    rw [List.mem_singleton.1 hc]
    exact Condition.over_isNull (hR column hd)

end Planning

end RecordQuery
