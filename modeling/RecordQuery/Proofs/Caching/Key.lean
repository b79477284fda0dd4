import Mathlib.Data.List.Basic
import RecordQuery.Proofs.Steps
import RecordQuery.Request

namespace RecordQuery.Request

open Text

variable {r r' : Request} {page page' : Option Page}

theorem not_mem_pageText (page : Option Page) : '|' ∉ (pageText page).toList := by
  cases page with
  | none => simp [pageText]
  | some page => simp [pageText, not_mem_toDigits]

theorem pageText_inj (h : pageText page = pageText page') : page = page' := by
  have hlist := congrArg String.toList h
  cases page with
  | none =>
    cases page' with
    | none => rfl
    | some page' => simp [pageText] at hlist
  | some page =>
    cases page' with
    | none => simp [pageText] at hlist
    | some page' =>
      simp only [pageText, String.toList_append] at hlist
      obtain ⟨number, size⟩ := page
      obtain ⟨number', size'⟩ := page'
      have hinj := append_cons_inj (x := ':') (not_mem_toDigits (by decide) size)
        (not_mem_toDigits (by decide) size') (by simpa using hlist)
      rw [toDigits_inj hinj.1, toDigits_inj hinj.2]

/-- The names of sorts can be told from each other and from the rest of a key. -/
def PlainSorts (r : Request) : Prop :=
  ∀ name ∈ r.sortNames, name ≠ "" ∧ ',' ∉ name.toList ∧ '|' ∉ name.toList

theorem intercalate_inj {names names' : List String}
    (hn : ∀ name ∈ names, name ≠ "" ∧ ',' ∉ name.toList)
    (hm : ∀ name ∈ names', name ≠ "" ∧ ',' ∉ name.toList)
    (h : ",".intercalate names = ",".intercalate names') : names = names' := by
  have hsplit := String.toList_split_intercalate (c := ',') fun name hname => (hn name hname).2
  have hsplit' := String.toList_split_intercalate (c := ',') fun name hname => (hm name hname).2
  have hsingleton : String.singleton ',' = "," := rfl
  rw [hsingleton] at hsplit hsplit'
  rw [h, hsplit'] at hsplit
  cases names with
  | nil =>
    cases names' with
    | nil => rfl
    | cons name' names' =>
      cases hsplit
      exact absurd rfl (hm "" List.mem_cons_self).1
  | cons name names =>
    cases names' with
    | nil =>
      cases hsplit
      exact absurd rfl (hn "" List.mem_cons_self).1
    | cons name' names' =>
      rw [if_neg (List.cons_ne_nil _ _), if_neg (List.cons_ne_nil _ _)] at hsplit
      exact hsplit.symm

theorem PlainSorts.not_mem_bar (h : r.PlainSorts) :
    '|' ∉ (",".intercalate r.sortNames).toList := by
  have hnames : ∀ names : List String, (∀ name ∈ names, '|' ∉ name.toList) →
      '|' ∉ (",".intercalate names).toList := by
    intro names hnames
    induction names with
    | nil => simp
    | cons name names ih =>
      have hname := hnames name List.mem_cons_self
      cases names with
      | nil => simpa using hname
      | cons name' names =>
        have hrest := ih fun name hname => hnames name (List.mem_cons_of_mem _ hname)
        rw [String.intercalate_cons_cons, String.toList_append, String.toList_append]
        simp only [List.mem_append, not_or]
        exact ⟨⟨hname, by decide⟩, hrest⟩
  exact hnames r.sortNames fun name hname => (h name hname).2.2

theorem toList_key (a b c : String) :
    ("|".intercalate [a, b, c]).toList = (a.toList ++ '|' :: b.toList) ++ '|' :: c.toList := by
  simp

theorem cacheKey_inj {default key : String} (hr : r.PlainSorts) (hr' : r'.PlainSorts)
    (h : r.cacheKey default = .ok key) (h' : r'.cacheKey default = .ok key) :
    r.projection.getD default = r'.projection.getD default ∧ r.sortNames = r'.sortNames ∧
      r.pageParams = r'.pageParams := by
  obtain ⟨page, hpage, hkey⟩ := Steps.except_map_ok h
  obtain ⟨page', hpage', rfl⟩ := Steps.except_map_ok h'
  have hkey := congrArg String.toList hkey
  rw [toList_key, toList_key] at hkey
  have houter := append_cons_inj (not_mem_pageText page) (not_mem_pageText page') hkey
  have hinner := append_cons_inj hr.not_mem_bar hr'.not_mem_bar houter.1
  have hsorts := intercalate_inj (fun name hname => ⟨(hr name hname).1, (hr name hname).2.1⟩)
    (fun name hname => ⟨(hr' name hname).1, (hr' name hname).2.1⟩) (String.toList_inj.1 hinner.2)
  rw [hpage, hpage', pageText_inj (String.toList_inj.1 houter.2)]
  exact ⟨String.toList_inj.1 hinner.1, hsorts, rfl⟩

-- A comma in a name: one sort, and two.
example : (empty.withSort "a,b").cacheKey "default" =
    ((empty.withSort "a").withSort "b").cacheKey "default" := rfl

end RecordQuery.Request
