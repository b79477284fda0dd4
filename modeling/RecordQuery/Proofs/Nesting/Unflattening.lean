import Mathlib.Data.List.Induction
import Mathlib.Data.List.Pairwise
import RecordQuery.Proofs.Joining.Segments
import RecordQuery.Proofs.Nesting.Tree

namespace RecordQuery

namespace Path

/-- Neither path begins the other, segment by segment. -/
def Parted (a b : String) : Prop :=
  ¬ segments a <+: segments b ∧ ¬ segments b <+: segments a

instance : Std.Symm Parted := ⟨fun _ _ h => h.symm⟩

instance : DecidableRel Parted := fun a b =>
  inferInstanceAs (Decidable (¬ segments a <+: segments b ∧ ¬ segments b <+: segments a))

variable {key label : String}

theorem mem_of_isDotted (h : Handler.isDotted key = true) : '.' ∈ key.toList := by
  simpa [Handler.isDotted] using h

theorem segments_of_undotted (h : Handler.isDotted key = false) : segments key = [key] := by
  have hdot : '.' ∉ key.toList := by simpa [Handler.isDotted] using h
  simp [segments, Text.split, List.splitOn_eq_singleton hdot]

theorem segments_of_isDotted (h : Handler.isDotted label = true) :
    ∃ first second rest, segments label = first :: second :: rest := by
  cases hs : segments label with
  | nil => exact absurd hs (segments_ne_nil label)
  | cons first rest =>
    cases rest with
    | cons second rest => exact ⟨first, second, rest, rfl⟩
    | nil =>
      have hlabel : label = first := by
        rw [← intercalate_segments label, hs, String.intercalate_singleton]
      have hmem : first ∈ segments label := by simp [hs]
      exact absurd (mem_of_isDotted (hlabel ▸ h)) (not_mem_segment hmem)

theorem not_mem_segments (h : Handler.isDotted key = true) (label : String) :
    key ∉ segments label :=
  fun hmem => not_mem_segment hmem (mem_of_isDotted h)

end Path

namespace Record

open RecordQuery.Path (segments)

def Apart (r : Record) : Prop := (Fields.keys r).Pairwise Path.Parted

def coerced : Option SqlType → Value → Value
  | some τ, v => v.coerce τ
  | none, v => v

/-- Where the values of a record stand once some labels were handled. -/
def moved (types : String → Option SqlType) (labels : List String) (r : Record) : Tips :=
  fun path w =>
    (∃ key, path = [key] ∧ key ∉ labels ∧ Fields.get? key r = some w) ∨
    ∃ label ∈ labels, path = segments label ∧
      ∃ v, Fields.get? label r = some v ∧ w = coerced (types label) v

def nested (dependencies : List EntityIndex) (types : String → Option SqlType)
    (labels : List String) (r : Record) : Record :=
  Handler.applyAll dependencies (labels.map fun label => .unflatten label (types label)) r

variable {dependencies : List EntityIndex} {types : String → Option SqlType}
  {labels : List String} {r : Record} {label key : String} {path : List String} {v w : Value}

theorem nested_append (labels : List String) (label : String) (r : Record) :
    nested dependencies types (labels ++ [label]) r
      = (nested dependencies types labels r).unflatten label (types label) := by
  simp [nested, Handler.applyAll, Handler.apply]

theorem unflatten_of_some (h : Fields.get? label r = some v) (type : Option SqlType) :
    r.unflatten label type = plant (coerced type v) (segments label) (r.swapRemove label) := by
  cases type <;> simp [unflatten, h, coerced]

theorem unflatten_of_none (h : Fields.get? label r = none) (type : Option SqlType) :
    r.unflatten label type = r := by
  simp [unflatten, h]

theorem Apart.nodup (h : r.Apart) : (Fields.keys r).Nodup := by
  refine List.Pairwise.imp (fun hab => ?_) h
  rintro rfl
  exact hab.1 List.prefix_rfl

theorem Apart.of_ne {a b : String} (h : r.Apart) (ha : a ∈ Fields.keys r)
    (hb : b ∈ Fields.keys r) (hne : a ≠ b) : Path.Parted a b :=
  List.Pairwise.forall h ha hb hne

theorem not_moved_nil (w : Value) : ¬ moved types labels r [] w := by
  rintro (⟨key, hpath, -⟩ | ⟨label, -, hpath, -⟩)
  · cases hpath
  · exact Path.segments_ne_nil label hpath.symm

theorem moved_dotted (h : Handler.isDotted key = true) :
    moved types labels r (key :: path) w ↔
      path = [] ∧ key ∉ labels ∧ Fields.get? key r = some w := by
  constructor
  · rintro (⟨other, hpath, hlabels, hget⟩ | ⟨label, -, hpath, -⟩)
    · obtain ⟨rfl, rfl⟩ := List.cons_eq_cons.1 hpath
      exact ⟨rfl, hlabels, hget⟩
    · exact absurd (hpath ▸ List.mem_cons_self) (Path.not_mem_segments h label)
  · rintro ⟨rfl, hlabels, hget⟩
    exact .inl ⟨key, rfl, hlabels, hget⟩

theorem apart_moved (hr : r.Apart) (hdotted : Handler.isDotted label = true)
    (hlabel : label ∉ labels) (hget : Fields.get? label r = some v) :
    ((moved types labels r).without label).Apart (segments label) := by
  have hmem : label ∈ Fields.keys r := Fields.mem_keys_iff.2 ⟨v, hget⟩
  rintro path w ⟨⟨key, rfl, -, hkey⟩ | ⟨other, hother, rfl, u, hu, -⟩, hhead⟩
  · have hne : key ≠ label := by simpa using hhead
    cases hdot : Handler.isDotted key with
    | false =>
      rw [← Path.segments_of_undotted hdot]
      exact hr.of_ne (Fields.mem_keys_iff.2 ⟨w, hkey⟩) hmem hne
    | true =>
      obtain ⟨first, second, rest, hs⟩ := Path.segments_of_isDotted hdotted
      constructor
      · intro hbegins
        exact Path.not_mem_segments hdot label (hbegins.subset List.mem_cons_self)
      · intro hbegins
        have hlength := hbegins.length_le
        simp [hs] at hlength
  · have hne : other ≠ label := fun heq => hlabel (heq ▸ hother)
    exact hr.of_ne (Fields.mem_keys_iff.2 ⟨u, hu⟩) hmem hne

theorem moved_congr {others : List String} (h : ∀ label, label ∈ others ↔ label ∈ labels) :
    moved types others r = moved types labels r := by
  funext path w
  simp only [moved, h]

theorem moved_append_of_absent (h : label ∈ labels ∨ Fields.get? label r = none) :
    moved types (labels ++ [label]) r = moved types labels r := by
  rcases h with hlabel | hget
  · refine moved_congr fun other => ?_
    rw [List.mem_append, List.mem_singleton, or_iff_left_of_imp]
    rintro rfl
    exact hlabel
  · have hne : ∀ other u, Fields.get? other r = some u → other ≠ label := by
      rintro other u hu rfl
      rw [hget] at hu
      cases hu
    funext path w
    apply propext
    constructor
    · rintro (⟨key, rfl, hkey, hw⟩ | ⟨other, hother, rfl, u, hu, rfl⟩)
      · exact .inl ⟨key, rfl, fun hmem => hkey (List.mem_append_left _ hmem), hw⟩
      · exact .inr ⟨other, by simpa [hne other u hu] using hother, rfl, u, hu, rfl⟩
    · rintro (⟨key, rfl, hkey, hw⟩ | ⟨other, hother, rfl, u, hu, rfl⟩)
      · exact .inl ⟨key, rfl, by simp [hkey, hne key w hw], hw⟩
      · exact .inr ⟨other, List.mem_append_left _ hother, rfl, u, hu, rfl⟩

theorem moved_append (hdotted : Handler.isDotted label = true)
    (hget : Fields.get? label r = some v) :
    moved types (labels ++ [label]) r =
      ((moved types labels r).without label).add (segments label) (coerced (types label) v) := by
  funext path w
  apply propext
  constructor
  · rintro (⟨key, rfl, hkey, hw⟩ | ⟨other, hother, rfl, u, hu, rfl⟩)
    · have hkey : key ∉ labels ∧ key ≠ label := by simpa using hkey
      exact .inr ⟨.inl ⟨key, rfl, hkey.1, hw⟩, by simpa using hkey.2⟩
    · rcases List.mem_append.1 hother with hother | hother
      · refine .inr ⟨.inr ⟨other, hother, rfl, u, hu, rfl⟩, fun hhead => ?_⟩
        exact Path.not_mem_segments hdotted other (List.mem_of_head? hhead)
      · obtain rfl := List.mem_singleton.1 hother
        obtain rfl := Option.some.inj (hget.symm.trans hu)
        exact .inl ⟨rfl, rfl⟩
  · rintro (⟨rfl, rfl⟩ | ⟨⟨key, rfl, hkey, hw⟩ | ⟨other, hother, rfl, u, hu, rfl⟩, hhead⟩)
    · exact .inr ⟨label, by simp, rfl, v, hget, rfl⟩
    · have hne : key ≠ label := by simpa using hhead
      exact .inl ⟨key, rfl, by simp [hkey, hne], hw⟩
    · exact .inr ⟨other, List.mem_append_left _ hother, rfl, u, hu, rfl⟩

theorem grows_nested (hr : r.Apart) (hlabels : ∀ label ∈ labels, Handler.isDotted label = true) :
    Grows (moved types labels r) (.record (nested dependencies types labels r)) := by
  -- on the labels from the last, since each is handled in what the ones before it left
  induction labels using List.reverseRecOn with
  | nil =>
    refine (Grows.ofFields hr.nodup).congr fun path w => ?_
    simp [moved]
  | append_singleton labels label ih =>
    have hdotted : Handler.isDotted label = true := hlabels label (by simp)
    have hgrows := ih fun other hother => hlabels other (List.mem_append_left _ hother)
    rw [nested_append]
    by_cases hgone : label ∈ labels ∨ Fields.get? label r = none
    · have hnone : Fields.get? label (nested dependencies types labels r) = none := by
        refine (hgrows.get?_eq_none_iff not_moved_nil).2 fun path w hw => ?_
        obtain ⟨-, hlabel, hget⟩ := (moved_dotted hdotted).1 hw
        rcases hgone with hmem | hnone
        · exact hlabel hmem
        · rw [hnone] at hget
          cases hget
      rw [unflatten_of_none hnone, moved_append_of_absent hgone]
      exact hgrows
    · obtain ⟨hlabel, hsome⟩ := not_or.1 hgone
      obtain ⟨v, hget⟩ := Option.ne_none_iff_exists'.1 hsome
      have hfield : Fields.get? label (nested dependencies types labels r) = some v :=
        hgrows.get? ((moved_dotted hdotted).2 ⟨rfl, hlabel, hget⟩)
      rw [unflatten_of_some hfield, moved_append hdotted hget]
      exact (hgrows.swapRemove not_moved_nil hfield).plant (Path.segments_ne_nil label)
        (apart_moved hr hdotted hlabel hget) _

theorem mem_keys_nested (hr : r.Apart)
    (hlabels : ∀ label ∈ labels, Handler.isDotted label = true) :
    key ∈ Fields.keys (nested dependencies types labels r) ↔
      (key ∈ Fields.keys r ∧ key ∉ labels) ∨
        ∃ label ∈ labels, label ∈ Fields.keys r ∧ (segments label).head? = some key := by
  rw [(grows_nested hr hlabels).mem_keys_iff not_moved_nil]
  constructor
  · rintro ⟨path, w, ⟨other, hpath, hother, hw⟩ | ⟨label, hlabel, hpath, u, hu, -⟩⟩
    · obtain ⟨rfl, rfl⟩ := List.cons_eq_cons.1 hpath
      exact .inl ⟨Fields.mem_keys_iff.2 ⟨w, hw⟩, hother⟩
    · exact .inr ⟨label, hlabel, Fields.mem_keys_iff.2 ⟨u, hu⟩, by rw [← hpath, List.head?_cons]⟩
  · rintro (⟨hkey, hother⟩ | ⟨label, hlabel, hmem, hhead⟩)
    · obtain ⟨w, hw⟩ := Fields.mem_keys_iff.1 hkey
      exact ⟨[], w, .inl ⟨key, rfl, hother, hw⟩⟩
    · obtain ⟨u, hu⟩ := Fields.mem_keys_iff.1 hmem
      obtain ⟨path, hpath⟩ := List.head?_eq_some_iff.1 hhead
      exact ⟨path, _, .inr ⟨label, hlabel, hpath.symm, u, hu, rfl⟩⟩

end Record

open Record (coerced nested)

/-- Handlers of dotted labels, each with one type, move what is there to the ends of the segments of
its label, leave the other fields, and make no fields but those and the first segments. Any labels
that are the same ones, in whatever order and number, make the same record up to the order of
fields. -/
theorem unflattening_keeps_all (dependencies : List EntityIndex)
    (types : String → Option SqlType) {labels : List String} {r : Record} (hr : r.Apart)
    (hlabels : ∀ label ∈ labels, Handler.isDotted label = true) :
    (∀ label ∈ labels, ∀ v, Fields.get? label r = some v →
      (Value.record (nested dependencies types labels r)).at? (Path.segments label)
        = some (coerced (types label) v)) ∧
    (∀ key ∉ labels, ∀ v, Fields.get? key r = some v →
      Fields.get? key (nested dependencies types labels r) = some v) ∧
    (∀ key, key ∈ Fields.keys (nested dependencies types labels r) ↔
      (key ∈ Fields.keys r ∧ key ∉ labels) ∨
        ∃ label ∈ labels, label ∈ Fields.keys r ∧ (Path.segments label).head? = some key) ∧
    ∀ others : List String, (∀ label, label ∈ others ↔ label ∈ labels) →
      (Value.record (nested dependencies types labels r)).Reordered
        (.record (nested dependencies types others r)) := by
  have hgrows : Grows _ (.record (nested dependencies types labels r)) :=
    Record.grows_nested hr hlabels
  refine ⟨fun label hlabel v hv => ?_, fun key hkey v hv => ?_, fun key => ?_,
    fun others hothers => ?_⟩
  · exact hgrows.at? (.inr ⟨label, hlabel, rfl, v, hv, rfl⟩)
  · exact hgrows.get? (.inl ⟨key, rfl, hkey, hv⟩)
  · exact Record.mem_keys_nested hr hlabels
  · have hdotted : ∀ label ∈ others, Handler.isDotted label = true :=
      fun label hlabel => hlabels label ((hothers label).1 hlabel)
    have hsame : Grows _ (.record (nested dependencies types others r)) :=
      Record.grows_nested hr hdotted
    rw [Record.moved_congr hothers] at hsame
    exact hgrows.reordered hsame

namespace Author

def row : Record :=
  [("id", .int 1), ("author.name", .text "Ann"), ("author.active", .int 1),
    ("author.address.city", .text "Lisbon")]

def labels : List String :=
  ["author.address.city", "author.name", "author.gone", "author.active", "author.name"]

def types (label : String) : Option SqlType :=
  if label = "author.active" then some .boolean else none

end Author

open Author in
theorem unflattening_keeps_all_author :
    row.Apart ∧ (∀ label ∈ labels, Handler.isDotted label = true) ∧
    (Value.record (nested [] types labels row)).at? ["author", "active"] = some (.bool true) ∧
    Fields.get? "id" (nested [] types labels row) = some (.int 1) ∧
    "author.active" ∉ Fields.keys (nested [] types labels row) ∧
    (Value.record (nested [] types labels row)).Reordered
      (.record (nested [] types labels.reverse row)) := by
  have hr : row.Apart := by
    unfold Record.Apart
    decide +kernel
  have hlabels : ∀ label ∈ labels, Handler.isDotted label = true := by decide +kernel
  obtain ⟨hat, hkept, hkeys, hsame⟩ := unflattening_keeps_all [] types hr hlabels
  refine ⟨hr, hlabels, ?_, hkept "id" (by decide +kernel) _ rfl, ?_,
    hsame labels.reverse fun label => List.mem_reverse⟩
  · have hactive := hat "author.active" (by decide +kernel) (.int 1) rfl
    have hsegments : Path.segments "author.active" = ["author", "active"] := by decide +kernel
    rw [hsegments] at hactive
    rw [hactive]
    rfl
  · rw [hkeys]
    decide +kernel

end RecordQuery
