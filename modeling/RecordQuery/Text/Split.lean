namespace RecordQuery.Text

theorem append_cons_inj {α : Type} {x : α} {a b a' b' : List α} (hb : x ∉ b) (hb' : x ∉ b')
    (h : a ++ x :: b = a' ++ x :: b') : a = a' ∧ b = b' := by
  rcases List.append_eq_append_iff.1 h with ⟨as, rfl, has⟩ | ⟨as, rfl, has⟩
  · cases as with
    | nil => exact ⟨(List.append_nil a).symm, List.tail_eq_of_cons_eq has⟩
    | cons y as =>
      rw [List.tail_eq_of_cons_eq has] at hb
      simp at hb
  · cases as with
    | nil => exact ⟨List.append_nil a', (List.tail_eq_of_cons_eq has).symm⟩
    | cons y as =>
      rw [List.tail_eq_of_cons_eq has] at hb'
      simp at hb'

def split (sep : Char) (text : String) : List String :=
  (text.toList.splitOn sep).map String.ofList

def cutFirst? (sep : Char) : List Char → Option (List Char × List Char)
  | [] => none
  | c :: rest =>
    if c = sep then some ([], rest)
    else (cutFirst? sep rest).map fun (before, after) => (c :: before, after)

theorem cutFirst?_of_not_mem {sep : Char} {cs : List Char} (h : sep ∉ cs) :
    cutFirst? sep cs = none := by
  induction cs with
  | nil => rfl
  | cons c cs ih =>
    obtain ⟨hc, hcs⟩ := not_or.1 (mt List.mem_cons.2 h)
    rw [cutFirst?, if_neg (Ne.symm hc), ih hcs]
    rfl

theorem cutFirst?_append {sep : Char} {before : List Char} (h : sep ∉ before)
    (after : List Char) : cutFirst? sep (before ++ sep :: after) = some (before, after) := by
  induction before with
  | nil => simp [cutFirst?]
  | cons c before ih =>
    obtain ⟨hc, hbefore⟩ := not_or.1 (mt List.mem_cons.2 h)
    rw [List.cons_append, cutFirst?, if_neg (Ne.symm hc), ih hbefore]
    rfl

theorem cutFirst?_cases (sep : Char) (cs : List Char) :
    (cutFirst? sep cs = none ∧ sep ∉ cs) ∨
      ∃ before after, cutFirst? sep cs = some (before, after) ∧ sep ∉ before ∧
        cs = before ++ sep :: after := by
  by_cases h : sep ∈ cs
  · obtain ⟨before, after, rfl, hbefore⟩ := List.eq_append_cons_of_mem h
    exact .inr ⟨before, after, cutFirst?_append hbefore after, hbefore, rfl⟩
  · exact .inl ⟨cutFirst?_of_not_mem h, h⟩

def cutLast? (sep : Char) (cs : List Char) : Option (List Char × List Char) :=
  (cutFirst? sep cs.reverse).map fun (after, before) => (before.reverse, after.reverse)

def isInfix (needle : List Char) : List Char → Bool
  | [] => needle.isEmpty
  | c :: rest => needle.isPrefixOf (c :: rest) || isInfix needle rest

def occurs (needle text : String) : Bool := isInfix needle.toList text.toList

end RecordQuery.Text
