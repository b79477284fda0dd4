import Mathlib.Data.List.Forall2
import Mathlib.Data.List.Induction
import RecordQuery.Proofs.Text.Numeral
import RecordQuery.Proofs.Text.Pieces
import RecordQuery.Record.Handler

namespace RecordQuery

/-- A text that stands in a list of ids between commas. -/
structure Listed (s : String) : Prop where
  nonempty : s ≠ ""
  undivided : ',' ∉ s.toList
  bare : Text.Bare s.toList

theorem Listed.trim {s : String} (h : Listed s) : Text.trim s = s := by
  rw [Text.trim, h.bare.trimChars, String.ofList_toList]

theorem listed_numeral (m : Text.Numeral) : Listed (String.ofList m.chars) where
  nonempty h := by
    have hnil : m.chars = [] := String.ofList_injective h
    exact m.nonempty (List.append_eq_nil_iff.1 (List.append_eq_nil_iff.1 hnil).1).2
  undivided hcomma := by
    rw [String.toList_ofList] at hcomma
    rcases Text.Numeral.mem_chars hcomma with hdigit | hmark
    · cases hdigit
    · exact absurd hmark (by decide)
  bare := by
    rw [String.toList_ofList]
    exact m.bare_chars

inductive SiblingId
  | number (n : Int)
  | name (s : String) (listed : Listed s)

namespace SiblingId

def value : SiblingId → Value
  | number n => .int n
  | name s _ => .text s

def text : SiblingId → String
  | number n => toString n
  | name s _ => s

theorem listed_text : ∀ id : SiblingId, Listed id.text
  | name _ listed => listed
  | number n => by
    have htext : String.ofList (Text.Numeral.ofInt n).chars = toString n := by
      rw [Text.Numeral.chars_ofInt, String.ofList_toList]
    rw [text, ← htext]
    exact listed_numeral (.ofInt n)

theorem idText?_value : ∀ id : SiblingId, EntityIndex.idText? id.value = some id.text
  | number _ => rfl
  | name _ _ => rfl

theorem text_congr {id other : SiblingId} (h : id.value = other.value) : id.text = other.text := by
  have htext := id.idText?_value
  rw [h, other.idText?_value] at htext
  exact (Option.some.inj htext).symm

end SiblingId

/-- How a column holds ids: their texts with commas between them, a single integer as such, and no
ids as null. -/
inductive Holds : Value → List SiblingId → Prop
  | joined (ids : List SiblingId) : Holds (.text (",".intercalate (ids.map SiblingId.text))) ids
  | single (n : Int) : Holds (.int n) [.number n]
  | nothing : Holds .null []

def Record.Named (r : Record) (text : String) : Prop :=
  ∃ id : SiblingId, Fields.get? Path.idSegment r = some id.value ∧ id.text = text

/-- The last of the siblings that an id names, or null if it names none. -/
inductive Attached (siblings : List Record) (text : String) : Value → Prop
  | last (before : List Record) (r : Record) (after : List Record) :
      siblings = before ++ r :: after → r.Named text → (∀ later ∈ after, ¬ later.Named text) →
      Attached siblings text (.record r)
  | missing : (∀ r ∈ siblings, ¬ r.Named text) → Attached siblings text .null

theorem Record.named_iff {r : Record} {id : SiblingId} {text : String}
    (h : Fields.get? Path.idSegment r = some id.value) : r.Named text ↔ id.text = text := by
  constructor
  · rintro ⟨other, hother, rfl⟩
    exact SiblingId.text_congr (Option.some.inj (h.symm.trans hother))
  · intro htext
    exact ⟨id, h, htext⟩

theorem Attached.concat_of_named {siblings : List Record} {r : Record} {text : String}
    (h : r.Named text) : Attached (siblings ++ [r]) text (.record r) :=
  .last siblings r [] rfl h (by simp)

theorem Attached.concat {siblings : List Record} {r : Record} {text : String} {v : Value}
    (hv : Attached siblings text v) (h : ¬ r.Named text) : Attached (siblings ++ [r]) text v := by
  cases hv with
  | last before sibling after hsiblings hnamed hlater =>
    refine .last before sibling (after ++ [r]) (by simp [hsiblings]) hnamed fun later hmem => ?_
    rcases List.mem_append.1 hmem with hmem | hmem
    · exact hlater later hmem
    · exact List.mem_singleton.1 hmem ▸ h
  | missing hnone =>
    refine .missing fun sibling hmem => ?_
    rcases List.mem_append.1 hmem with hmem | hmem
    · exact hnone sibling hmem
    · exact List.mem_singleton.1 hmem ▸ h

namespace EntityIndex

variable {siblings : List Record} {ids : List SiblingId} {v : Value}

theorem idsOf_of_holds (h : Holds v ids) : idsOf v = ids.map SiblingId.text := by
  cases h with
  | single n => rfl
  | nothing => rfl
  | joined =>
    cases ids with
    | nil => decide +kernel
    | cons id ids =>
      have hne : (id :: ids).map SiblingId.text ≠ [] := by simp
      have hlisted : ∀ text ∈ (id :: ids).map SiblingId.text, Listed text := by
        simpa using ⟨id.listed_text, fun other _ => other.listed_text⟩
      have hcomma : ",".toList = [','] := rfl
      have hsplit := Text.split_intercalate hcomma hne
        fun text htext => (hlisted text htext).undivided
      have htrim : ((id :: ids).map SiblingId.text).map Text.trim
          = (id :: ids).map SiblingId.text :=
        (List.map_congr_left fun text htext => (hlisted text htext).trim).trans (List.map_id _)
      rw [idsOf, hsplit, htrim]
      exact List.filter_eq_self.2 fun text htext => by simpa using (hlisted text htext).nonempty

theorem entry?_eq {r : Record} {id : SiblingId} (h : Fields.get? Path.idSegment r = some id.value) :
    entry? r = some (id.text, .record r) := by
  unfold entry?
  simp [h, id.idText?_value]

theorem get?_concat {r : Record} {id : SiblingId} (h : Fields.get? Path.idSegment r = some id.value)
    (siblings : List Record) (text : String) :
    (ofRecords (siblings ++ [r])).get? text =
      if id.text = text then some (.record r) else (ofRecords siblings).get? text := by
  have hentries : (siblings ++ [r]).filterMap entry?
      = siblings.filterMap entry? ++ [(id.text, .record r)] := by
    simp [List.filterMap_append, entry?_eq h]
  unfold ofRecords ofEntries get?
  rw [hentries]
  exact Fields.get?_ofList_concat text id.text (Value.record r) _

theorem attached_ofRecords
    (hids : ∀ r ∈ siblings, ∃ id : SiblingId, Fields.get? Path.idSegment r = some id.value)
    (text : String) :
    Attached siblings text (((ofRecords siblings).get? text).getD .null) := by
  -- on the siblings from the last, since each is written over the ones before it
  induction siblings using List.reverseRecOn with
  | nil => exact .missing (by simp)
  | append_singleton siblings r ih =>
    obtain ⟨id, hid⟩ := hids r (by simp)
    have hrest := ih fun other hother => hids other (List.mem_append_left _ hother)
    rw [get?_concat hid]
    split
    · next htext => exact Attached.concat_of_named ((Record.named_iff hid).2 htext)
    · next htext => exact hrest.concat (mt (Record.named_iff hid).1 htext)

end EntityIndex

theorem Record.update_of_some {f : Value → Value} {label : String} {r : Record} {v : Value}
    (h : Fields.get? label r = some v) : r.update label f = Fields.insert label (f v) r := by
  simp [update, h]

/-- Where siblings have integers or listed texts for ids, the ids that a field holds give way, one
by one, to the last sibling that each names; an id that names none becomes null. All other fields
are kept. -/
theorem siblings_attached {siblings : List Record} {ids : List SiblingId} {v : Value} {r : Record}
    {dependencies : List EntityIndex} {label : String} {dependency : Nat}
    (hsiblings : ∀ sibling ∈ siblings, ∃ id : SiblingId,
      Fields.get? Path.idSegment sibling = some id.value)
    (hindex : dependencies[dependency]? = some (.ofRecords siblings))
    (hfield : Fields.get? label r = some v) (hids : Holds v ids) :
    ∃ items,
      List.Forall₂ (fun id item => Attached siblings id.text item) ids items ∧
      Fields.get? label (Handler.apply dependencies r (.denormalize label dependency))
        = some (.list items) ∧
      Fields.keys (Handler.apply dependencies r (.denormalize label dependency))
        = Fields.keys r ∧
      ∀ other ≠ label,
        Fields.get? other (Handler.apply dependencies r (.denormalize label dependency))
          = Fields.get? other r := by
  have hresult : Handler.apply dependencies r (.denormalize label dependency)
      = Fields.insert label ((EntityIndex.ofRecords siblings).lookup v) r := by
    rw [Handler.apply, hindex]
    exact Record.update_of_some hfield
  rw [hresult, EntityIndex.lookup, EntityIndex.idsOf_of_holds hids, List.map_map]
  refine ⟨_, ?_, Fields.get?_insert_self label _ r, Fields.keys_insert hfield,
    fun other hother => Fields.get?_insert_of_ne (Ne.symm hother) _ r⟩
  rw [List.forall₂_map_right_iff, List.forall₂_same]
  exact fun id _ => EntityIndex.attached_ofRecords hsiblings id.text

namespace Tagged

def tags : List Record :=
  [[("$id", .int 1), ("name", .text "one")], [("$id", .text "x"), ("name", .text "other")],
    [("$id", .text "1"), ("name", .text "another")]]

theorem listed_x : Listed "x" where
  nonempty := by decide
  undivided := by decide
  bare := ⟨fun _ hc => Option.some.inj hc ▸ by decide, fun _ hc => Option.some.inj hc ▸ by decide⟩

theorem listed_one : Listed "1" := (SiblingId.number 1).listed_text

def ids : List SiblingId := [.number 1, .name "x" listed_x, .number 7]

def row : Record := [("id", .int 5), ("tags", .text "1,x,7"), ("title", .text "t")]

def filled : Record := Handler.apply [.ofRecords tags] row (.denormalize "tags" 0)

def items : List Value :=
  [.record [("$id", .text "1"), ("name", .text "another")],
    .record [("$id", .text "x"), ("name", .text "other")], .null]

end Tagged

open Tagged in
theorem siblings_attached_tags :
    (∀ tag ∈ tags, ∃ id : SiblingId, Fields.get? Path.idSegment tag = some id.value) ∧
    Fields.get? "tags" row = some (.text "1,x,7") ∧ Holds (.text "1,x,7") ids ∧
    List.Forall₂ (fun id item => Attached tags id.text item) ids items ∧
    Fields.get? "tags" filled = some (.list items) ∧
    Fields.keys filled = ["id", "tags", "title"] ∧
    Fields.get? "title" filled = some (.text "t") := by
  have htags : ∀ tag ∈ tags, ∃ id : SiblingId,
      Fields.get? Path.idSegment tag = some id.value := by
    intro tag htag
    simp only [tags, List.mem_cons, List.not_mem_nil, or_false] at htag
    rcases htag with rfl | rfl | rfl
    · exact ⟨.number 1, rfl⟩
    · exact ⟨.name "x" listed_x, rfl⟩
    · exact ⟨.name "1" listed_one, rfl⟩
  have hids : Holds (.text "1,x,7") ids := .joined ids
  have hindex : [EntityIndex.ofRecords tags][0]? = some (.ofRecords tags) := rfl
  have hfield : Fields.get? "tags" row = some (.text "1,x,7") := rfl
  have hitems : Fields.get? "tags" filled = some (.list items) := rfl
  obtain ⟨found, hattached, hresult, hkeys, hothers⟩ :=
    siblings_attached htags hindex hfield hids
  obtain rfl : found = items := Value.list.inj (Option.some.inj (hresult.symm.trans hitems))
  exact ⟨htags, hfield, hids, hattached, hresult, hkeys, hothers "title" (by decide)⟩

end RecordQuery
