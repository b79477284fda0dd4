import RecordQuery.Proofs.Meaning.Engine

namespace RecordQuery

open Condition (bound members)

namespace Engine

/-- The value equals an element as it is bound. -/
def Finds (e : Engine) (x : Value) (items : List Value) : Prop :=
  ∃ y ∈ items, y ≠ .null ∧ e.holds .eq x (bound y) = true

variable {e : Engine} {x y : Value} {ys : List Value}

theorem among_eq_yes (hx : x ≠ .null) :
    e.among x ys = .yes ↔ ∃ y ∈ ys, y ≠ .null ∧ e.holds .eq x y = true := by
  rw [among, Truth.any_eq_yes, List.mem_map]
  simp only [compare_eq_yes hx]

theorem among_eq_no (hx : x ≠ .null) :
    e.among x ys = .no ↔ ∀ y ∈ ys, y ≠ .null ∧ e.holds .eq x y = false := by
  rw [among, Truth.any_eq_no, List.forall_mem_map]
  simp only [compare_eq_no hx]

theorem bound_eq_null : bound y = .null ↔ y = .null := by
  cases y <;> simp [bound, Value.isComposite]

theorem among_bound_eq_yes (e : Engine) (items : List Value) (hx : x ≠ .null) :
    e.among x (items.map bound) = .yes ↔ e.Finds x items := by
  simp [among_eq_yes hx, Finds, bound_eq_null]

theorem among_bound_eq_no (e : Engine) (items : List Value) (hx : x ≠ .null) :
    e.among x (items.map bound) = .no ↔ .null ∉ items ∧ ¬ e.Finds x items := by
  simp only [among_eq_no hx, List.forall_mem_map, ne_eq, bound_eq_null, Finds, not_exists, not_and,
    Bool.not_eq_true]
  constructor
  · intro h
    exact ⟨fun hnull => (h _ hnull).1 rfl, fun y hy _ => (h y hy).2⟩
  · rintro ⟨hnull, h⟩ y hy
    have hne : y ≠ .null := fun heq => hnull (heq ▸ hy)
    exact ⟨hne, h y hy hne⟩

end Engine

open Reading (Plain)

variable {v : Atom → Truth} {column : String} {op : Comparison}

theorem compareTruth_members (hop : op = .isIn ∨ op = .notIn) {a b : Option Value}
    (h : members a = members b) :
    Condition.compareTruth v column op a = Condition.compareTruth v column op b := by
  rcases hop with rfl | rfl <;> simp only [Condition.compareTruth, h]

theorem Operator.listed_means (hcolumn : Plain column) (hop : op = .isIn ∨ op = .notIn)
    (value : Value) :
    ∃ c, listed op column value = .combined c ∧
      c.Means v (Condition.compareTruth v column op (some value)) := by
  unfold listed
  cases hitems : members (some value) with
  | nil =>
    have htruth : Condition.compareTruth v column op (some value)
        = .ofBool (decide (op = .notIn)) := by
      rcases hop with rfl | rfl <;> simp only [Condition.compareTruth, hitems]
    exact ⟨_, rfl, htruth ▸ .constant⟩
  | cons y items =>
    have hlist : members (some value) = members (some (.list (y :: items))) := hitems
    exact ⟨_, rfl, compareTruth_members hop hlist ▸ .compare hcolumn⟩

namespace Engine

variable {e : Engine} {row : String → Value}

theorem compareTruth_isIn (value : Value) :
    Condition.compareTruth (e.judge row) column .isIn (some value)
      = e.among (row column) ((members (some value)).map bound) := by
  unfold Condition.compareTruth
  cases h : members (some value) with
  | nil => rfl
  | cons y items => simp [judge, Engine.value, Function.comp_def]

theorem compareTruth_notIn (value : Value) :
    Condition.compareTruth (e.judge row) column .notIn (some value)
      = (e.among (row column) ((members (some value)).map bound)).not := by
  unfold Condition.compareTruth
  cases h : members (some value) with
  | nil => rfl
  | cons y items => simp [judge, Engine.value, Function.comp_def]

end Engine

/-- IN is true of a column that is not null where it equals an element, and NOT_IN where it equals
none and no element is null. So one of them is true unless an element is null, and then where the
column equals another one. -/
theorem membership_answered (e : Engine) (row : String → Value) {column : String}
    (hcolumn : Plain column) (hvalue : row column ≠ .null) (value : Value) (parameter : String) :
    ∃ isIn notIn : Condition,
      Operator.isIn.predicate column value parameter = .ok (.combined isIn) ∧
      Operator.notIn.predicate column value parameter = .ok (.combined notIn) ∧
      ∃ s t, isIn.fragment.Reads (e.judge row) s ∧ notIn.fragment.Reads (e.judge row) t ∧
        (s = .yes ↔ e.Finds (row column) (members (some value))) ∧
        (t = .yes ↔
          .null ∉ members (some value) ∧ ¬ e.Finds (row column) (members (some value))) ∧
        (Xor (s = .yes) (t = .yes) ↔
          (.null ∈ members (some value) → e.Finds (row column) (members (some value)))) := by
  obtain ⟨c, hc, hmeans⟩ := Operator.listed_means (v := e.judge row) hcolumn (.inl rfl) value
  obtain ⟨d, hd, hmeans'⟩ := Operator.listed_means (v := e.judge row) hcolumn (.inr rfl) value
  rw [Engine.compareTruth_isIn] at hmeans
  rw [Engine.compareTruth_notIn] at hmeans'
  have hs := e.among_bound_eq_yes (members (some value)) hvalue
  have ht := e.among_bound_eq_no (members (some value)) hvalue
  refine ⟨c, d, congrArg Except.ok hc, congrArg Except.ok hd, _, _, hmeans.rendered,
    hmeans'.rendered, hs, ?_, ?_⟩
  · rw [Truth.not_eq_yes, ht]
  · rw [Truth.not_eq_yes, hs, ht]
    unfold Xor
    tauto

theorem membership_answered_blog :
    Plain "post_1.id" ∧ ∃ isIn notIn : Condition,
      Operator.isIn.predicate "post_1.id" (.list [.int 1, .null]) "ids" = .ok (.combined isIn) ∧
      Operator.notIn.predicate "post_1.id" (.list [.int 1, .null]) "ids" = .ok (.combined notIn) ∧
      ∃ s t, isIn.fragment.Reads (Engine.store.judge fun _ => .int 2) s ∧
        notIn.fragment.Reads (Engine.store.judge fun _ => .int 2) t ∧ s ≠ .yes ∧ t ≠ .yes := by
  have hid : Plain "post_1.id" := ⟨by simp [Reading.isWord], by decide, by decide⟩
  obtain ⟨c, d, hc, hd, s, t, hs, ht, hfound, hnone, -⟩ :=
    membership_answered .store (fun _ => .int 2) hid (by simp) (.list [.int 1, .null]) "ids"
  have hnot : ¬ Engine.store.Finds (.int 2) (members (some (.list [.int 1, .null]))) := by
    simp only [Engine.Finds, members, List.mem_cons, List.not_mem_nil, or_false]
    rintro ⟨y, rfl | rfl, hne, heq⟩
    · revert heq
      decide
    · exact hne rfl
  refine ⟨hid, c, d, hc, hd, s, t, hs, ht, mt hfound.1 hnot, fun hyes => ?_⟩
  exact (hnone.1 hyes).1 (by simp [members])

end RecordQuery
