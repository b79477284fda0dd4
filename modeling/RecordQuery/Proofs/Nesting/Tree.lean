import Mathlib.Data.List.Infix
import RecordQuery.Record.Handler

/-!
Nested records as trees. A record grows from paths with values at their tips, none of which begins
another: each key that paths begin with has a field, which grows from what is behind the key. A
value planted at a path is one more tip, and what grows from the same tips differs only in the order
of its fields.
-/

namespace RecordQuery

namespace Value

def at? : List String → Value → Option Value
  | [], v => some v
  | key :: path, v => (v.field? key).bind (at? path)

/-- The same value up to the order of fields. -/
inductive Reordered : Value → Value → Prop
  | same (v : Value) : Reordered v v
  | record {a b : Record} : (Fields.keys a).Nodup → (Fields.keys a).Perm (Fields.keys b) →
    (∀ key v w, Fields.get? key a = some v → Fields.get? key b = some w → Reordered v w) →
    Reordered (.record a) (.record b)

end Value

abbrev Tips := List String → Value → Prop

namespace Tips

def below (key : String) (T : Tips) : Tips := fun path v => T (key :: path) v

def add (path : List String) (v : Value) (T : Tips) : Tips :=
  fun other w => (other = path ∧ w = v) ∨ T other w

def without (key : String) (T : Tips) : Tips := fun path v => T path v ∧ path.head? ≠ some key

def Apart (path : List String) (T : Tips) : Prop :=
  ∀ other w, T other w → ¬ other <+: path ∧ ¬ path <+: other

end Tips

/-- The value at the end of the empty path, or a record with a field for each key that paths begin
with. -/
inductive Grows : Tips → Value → Prop
  | leaf {T : Tips} {v : Value} : (∀ path w, T path w ↔ path = [] ∧ w = v) → Grows T v
  | record {T : Tips} {r : Record} : (∀ w, ¬ T [] w) → (Fields.keys r).Nodup →
    (∀ key, key ∈ Fields.keys r ↔ ∃ path w, T (key :: path) w) →
    (∀ key v, Fields.get? key r = some v → Grows (T.below key) v) → Grows T (.record r)

namespace Grows

variable {T T' : Tips} {r : Record} {v v' w : Value} {key : String} {path : List String}

theorem congr (h : Grows T v) (hT : ∀ path w, T' path w ↔ T path w) : Grows T' v := by
  have heq : T' = T := funext fun path => funext fun w => propext (hT path w)
  exact heq ▸ h

theorem rooted (h : Grows T v) (hroot : ∀ w, ¬ T [] w) :
    ∃ r, v = .record r ∧ (Fields.keys r).Nodup ∧
      (∀ key, key ∈ Fields.keys r ↔ ∃ path w, T (key :: path) w) ∧
      ∀ key u, Fields.get? key r = some u → Grows (T.below key) u := by
  cases h with
  | leaf hT => exact absurd ((hT [] v).2 ⟨rfl, rfl⟩) (hroot v)
  | record _ hnodup hkeys hbelow => exact ⟨_, rfl, hnodup, hkeys, hbelow⟩

theorem nodup (h : Grows T (.record r)) (hroot : ∀ w, ¬ T [] w) : (Fields.keys r).Nodup := by
  obtain ⟨r, ⟨⟩, hnodup, -⟩ := h.rooted hroot
  exact hnodup

theorem mem_keys_iff (h : Grows T (.record r)) (hroot : ∀ w, ¬ T [] w) :
    key ∈ Fields.keys r ↔ ∃ path w, T (key :: path) w := by
  obtain ⟨r, ⟨⟩, -, hkeys, -⟩ := h.rooted hroot
  exact hkeys key

theorem field (h : Grows T (.record r)) (hroot : ∀ w, ¬ T [] w)
    (hv : Fields.get? key r = some v) : Grows (T.below key) v := by
  obtain ⟨r, ⟨⟩, -, -, hbelow⟩ := h.rooted hroot
  exact hbelow key v hv

theorem get?_eq_none_iff (h : Grows T (.record r)) (hroot : ∀ w, ¬ T [] w) :
    Fields.get? key r = none ↔ ∀ path w, ¬ T (key :: path) w := by
  constructor
  · intro hnone path w hw
    obtain ⟨u, hu⟩ := Fields.mem_keys_iff.1 ((h.mem_keys_iff hroot).2 ⟨path, w, hw⟩)
    rw [hnone] at hu
    cases hu
  · intro hnone
    rw [Option.eq_none_iff_forall_ne_some]
    intro u hu
    obtain ⟨path, w, hw⟩ := (h.mem_keys_iff hroot).1 (Fields.mem_keys_iff.2 ⟨u, hu⟩)
    exact hnone path w hw

theorem at? (h : Grows T v) (htip : T path w) : v.at? path = some w := by
  induction h generalizing path with
  | leaf hT =>
    obtain ⟨rfl, rfl⟩ := (hT path w).1 htip
    rfl
  | record hroot _ hkeys _ ih =>
    cases path with
    | nil => exact absurd htip (hroot w)
    | cons key path =>
      obtain ⟨u, hu⟩ := Fields.mem_keys_iff.1 ((hkeys key).2 ⟨path, w, htip⟩)
      have hbehind := ih key u hu htip
      simpa [Value.at?, Value.field?, Value.fields?, hu] using hbehind

theorem get? (h : Grows T (.record r)) (htip : T [key] w) : Fields.get? key r = some w := by
  have hat := h.at? htip
  cases hget : Fields.get? key r with
  | none => simp [Value.at?, Value.field?, Value.fields?, hget] at hat
  | some u => simpa [Value.at?, Value.field?, Value.fields?, hget] using hat

theorem reordered (h : Grows T v) (h' : Grows T v') : v.Reordered v' := by
  induction h generalizing v' with
  | @leaf T v hT =>
    have htip : T [] v := (hT [] v).2 ⟨rfl, rfl⟩
    cases h' with
    | leaf hT' =>
      rw [((hT' [] v).1 htip).2]
      exact .same _
    | record hroot => exact absurd htip (hroot v)
  | @record T r hroot hnodup hkeys hbelow ih =>
    obtain ⟨r', rfl, hnodup', hkeys', hbelow'⟩ := h'.rooted hroot
    have hperm : (Fields.keys r).Perm (Fields.keys r') := by
      rw [List.perm_ext_iff_of_nodup hnodup hnodup']
      exact fun key => (hkeys key).trans (hkeys' key).symm
    exact .record hnodup hperm fun key v w hv hw => ih key v hv (hbelow' key w hw)

theorem ofFields (h : (Fields.keys r).Nodup) :
    Grows (fun path w => ∃ key, path = [key] ∧ Fields.get? key r = some w) (.record r) := by
  refine .record (by simp) h (fun key => ?_) fun key v hv => .leaf fun path w => ?_
  · rw [Fields.mem_keys_iff]
    simp
  · simp [Tips.below, hv, eq_comm]

theorem insert (h : Grows T (.record r)) (hroot : ∀ w, ¬ T [] w) (hroot' : ∀ w, ¬ T' [] w)
    (hsame : ∀ other ≠ key, ∀ path w, T' (other :: path) w ↔ T (other :: path) w)
    (htips : ∃ path w, T' (key :: path) w) (hv : Grows (T'.below key) v) :
    Grows T' (.record (Fields.insert key v r)) := by
  refine .record hroot' (Fields.nodup_insert (h.nodup hroot)) (fun other => ?_)
    fun other u hu => ?_
  · by_cases hother : other = key
    · subst hother
      exact iff_of_true (Fields.mem_keys_iff.2 ⟨v, Fields.get?_insert_self _ _ _⟩) htips
    · rw [Fields.mem_keys_iff, Fields.get?_insert_of_ne (Ne.symm hother), ← Fields.mem_keys_iff,
        h.mem_keys_iff hroot]
      simp only [hsame other hother]
  · by_cases hother : other = key
    · subst hother
      rw [Fields.get?_insert_self, Option.some_inj] at hu
      exact hu ▸ hv
    · rw [Fields.get?_insert_of_ne (Ne.symm hother)] at hu
      exact (h.field hroot hu).congr (hsame other hother)

theorem behind (h : Grows T (.record r)) (hroot : ∀ w, ¬ T [] w) (hkey : ∀ w, ¬ T [key] w) :
    (∃ inner, Fields.get? key r = some (.record inner) ∧ Grows (T.below key) (.record inner)) ∨
      Fields.get? key r = none ∧ Grows (T.below key) (.record []) := by
  cases hget : Fields.get? key r with
  | none =>
    have hnone := (h.get?_eq_none_iff hroot).1 hget
    refine .inr ⟨rfl, .record hkey List.nodup_nil (fun other => ?_) nofun⟩
    exact iff_of_false List.not_mem_nil fun ⟨path, w, hw⟩ => hnone (other :: path) w hw
  | some u =>
    have hu := h.field hroot hget
    obtain ⟨inner, rfl, -⟩ := hu.rooted hkey
    exact .inl ⟨inner, rfl, hu⟩

theorem plant (h : Grows T (.record r)) (hpath : path ≠ []) (hapart : T.Apart path) (v : Value) :
    Grows (T.add path v) (.record (Record.plant v path r)) := by
  -- on the path, so each record on the way grows from what is behind its key
  induction path generalizing T r with
  | nil => exact absurd rfl hpath
  | cons key rest ih =>
    have hroot : ∀ w, ¬ T [] w := fun w hw => (hapart [] w hw).1 List.nil_prefix
    have hroot' : ∀ w, ¬ T.add (key :: rest) v [] w := by simpa [Tips.add] using hroot
    have hsame : ∀ other ≠ key, ∀ path w,
        T.add (key :: rest) v (other :: path) w ↔ T (other :: path) w := by
      intro other hother path w
      simp [Tips.add, hother]
    have htips : ∃ path w, T.add (key :: rest) v (key :: path) w := ⟨rest, v, .inl ⟨rfl, rfl⟩⟩
    cases rest with
    | nil =>
      refine h.insert hroot hroot' hsame htips (.leaf fun path w => ?_)
      have hnone : ¬ T (key :: path) w := fun hw =>
        (hapart _ w hw).2 ((List.prefix_cons_inj key).2 List.nil_prefix)
      simp [Tips.below, Tips.add, hnone]
    | cons next rest =>
      have hkey : ∀ w, ¬ T [key] w := fun w hw =>
        (hapart _ w hw).1 ((List.prefix_cons_inj key).2 List.nil_prefix)
      have hbelow : (T.below key).Apart (next :: rest) := by
        intro other w hw
        have hother := hapart (key :: other) w hw
        rwa [List.prefix_cons_inj, List.prefix_cons_inj] at hother
      have hstep : ∀ base, Grows (T.below key) (.record base) →
          Grows (T.add (key :: next :: rest) v)
            (.record (Fields.insert key (.record (Record.plant v (next :: rest) base)) r)) := by
        intro base hbase
        refine h.insert hroot hroot' hsame htips ((ih hbase (by simp) hbelow).congr ?_)
        simp [Tips.below, Tips.add]
      rcases h.behind hroot hkey with ⟨inner, hget, hinner⟩ | ⟨hget, hempty⟩
      · simpa [Record.plant, hget] using hstep inner hinner
      · simpa [Record.plant, hget] using hstep [] hempty

theorem swapRemove (h : Grows T (.record r)) (hroot : ∀ w, ¬ T [] w)
    (hkey : Fields.get? key r = some v) :
    Grows (T.without key) (.record (Fields.swapRemove key r)) := by
  have hnodup := h.nodup hroot
  have hmem : ∀ other, other ∈ Fields.keys (Fields.swapRemove key r) ↔ _ :=
    fun other => Fields.mem_keys_swapRemove hnodup hkey
  refine .record (fun w hw => hroot w hw.1) (Fields.nodup_swapRemove hnodup hkey)
    (fun other => ?_) fun other u hu => ?_
  · rw [hmem, h.mem_keys_iff hroot]
    simp [Tips.without]
  · have hne : other ≠ key := ((hmem other).1 (Fields.mem_keys_iff.2 ⟨u, hu⟩)).2
    have hold : Fields.get? other r = some u :=
      Fields.get?_of_mem hnodup (Fields.mem_of_mem_swapRemove (Fields.mem_of_get? hu))
    exact (h.field hroot hold).congr (by simp [Tips.below, Tips.without, hne])

end Grows

end RecordQuery
