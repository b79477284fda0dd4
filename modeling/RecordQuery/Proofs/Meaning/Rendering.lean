import RecordQuery.Proofs.Meaning.Grammar

namespace RecordQuery

open Reading
open Token (text)

variable {v : Atom → Truth}

namespace Connective

def keyword : Connective → Reading.Keyword
  | .and => .and
  | .or => .or

def fold : Connective → List Truth → Truth
  | .and => .all
  | .or => .any

def truth : Connective → List Truth → Truth
  | _, [] => .yes
  | op, ts => op.fold ts

theorem truth_and (ts : List Truth) : truth .and ts = .all ts := by cases ts <;> rfl

end Connective

def Comparison.lexemes : Comparison → List Lexeme
  | .eq => [.sign "="]
  | .ne => [.sign "<>"]
  | .lt => [.sign "<"]
  | .le => [.sign "<="]
  | .gt => [.sign ">"]
  | .ge => [.sign ">="]
  | .like => [.keyword .like]
  | .notLike => [.keyword .not, .keyword .like]
  | .isIn => [.keyword .isIn]
  | .notIn => [.keyword .not, .keyword .isIn]
  | .isNull => [.keyword .is, .keyword .null]
  | .isNotNull => [.keyword .is, .keyword .not, .keyword .null]

namespace Reading

variable {column : String} {ts : List Token} {ls : List Lexeme} {a : Atom}

abbrev ends : List Lexeme := [.keyword .and, .keyword .or, .closing]

/-- The text is read as one factor, which has this truth. -/
def Reads (v : Atom → Truth) (ts : List Token) (t : Truth) : Prop :=
  ∃ ls, Spells ts ls ∧ Whole v ls t

theorem operand_column {rest : List Lexeme} (h : .opening ∉ rest.head?) :
    operand (.name column :: rest) = some (.column column, rest) := by
  unfold operand
  split
  · next heq =>
    cases heq
    simp at h
  · next heq =>
    cases heq
    rfl
  all_goals simp_all

theorem tested_stops {subject o : Operand} {op : Comparison} {rest : List Lexeme}
    (h : Stops ends rest) : tested subject o op rest = (.test subject op [o], rest) := by
  unfold tested
  split
  · simpa using h _ rfl
  · rfl

theorem predicate_test {subject o : Operand} {op : Comparison}
    (hop : op ∉ [.isIn, .notIn, .isNull, .isNotNull]) {l : Lexeme} {rest : List Lexeme}
    (ho : operand (l :: rest) = some (o, rest)) (hrest : Stops ends rest) :
    predicate subject (op.lexemes ++ l :: rest) = some (.test subject op [o], rest) := by
  cases op
  case isIn | notIn | isNull | isNotNull => simp at hop
  all_goals simp [Comparison.lexemes, predicate, comparison, ho, tested_stops hrest]

theorem members_intercalate {items : List Value} (hne : items ≠ []) (rest : List Lexeme) :
    members ([.comma].intercalate (items.map fun x => [.slot x]) ++ .closing :: rest)
      = some (items.map .value, rest) := by
  induction items with
  | nil => exact absurd rfl hne
  | cons x items ih =>
    cases items with
    | nil => simp [members]
    | cons y items =>
      have h := ih (by simp)
      simp only [List.map_cons] at h ⊢
      rw [List.intercalate_cons_cons]
      simp only [List.cons_append, List.nil_append, members, h, Option.map_some]

theorem predicate_members {subject : Operand} {op : Comparison} (hop : op = .isIn ∨ op = .notIn)
    {items : List Value} (hne : items ≠ []) (rest : List Lexeme) :
    predicate subject (op.lexemes ++
        (.opening :: (([.comma].intercalate (items.map fun x => [.slot x])) ++ .closing :: rest)))
      = some (.test subject op (items.map .value), rest) := by
  rcases hop with rfl | rfl <;> simp [Comparison.lexemes, predicate, members_intercalate hne]

theorem reads_column (h : Plain column) (a : Atom) (hs : Spells (text " " ++ ts) ls)
    (hp : ∀ rest, Stops ends rest → predicate (.column column) (ls ++ rest) = some (a, rest)) :
    Reads v (text column ++ (text " " ++ ts)) (a.truth v) := by
  refine ⟨.name column :: ls, h.spells.append rfl hs, whole_atom (by simp) (by simp) ?_⟩
  intro rest hrest
  have hp := hp rest hrest
  have hopen : .opening ∉ (ls ++ rest).head? := by
    intro hmem
    obtain ⟨tail, htail⟩ := List.head?_eq_some_iff.1 hmem
    rw [htail] at hp
    cases hp
  rw [List.cons_append, atom, operand_column hopen]
  simp [hp]

theorem spells_word {ts : List Token} (ls : List Lexeme) (w : List Char)
    (h : ∀ rest, lex .idle (ts ++ rest) = ls ++ lex (.word w) rest) :
    Spells ts (ls ++ [.ofWord w]) := by
  intro rest hrest
  rw [h, lex_breaks _ hrest, List.append_assoc]
  rfl

theorem shut_slot (x : Value) : Shut [.slot x] [.slot x] := fun _ => rfl

theorem shut_opening : Shut (text "(") [.opening] := fun _ => rfl

theorem shut_closing : Shut (text ")") [.closing] := fun _ => rfl

theorem reads_null (h : Plain column) {op : Comparison} (hop : op = .isNull ∨ op = .isNotNull) :
    Reads v (text (column ++ " " ++ op.sql)) (v (.test (.column column) op [])) := by
  have hs : Spells (text " " ++ text op.sql) op.lexemes := by
    rcases hop with rfl | rfl
    · exact spells_word [.keyword .is] "NULL".toList fun _ => rfl
    · exact spells_word [.keyword .is, .keyword .not] "NULL".toList fun _ => rfl
  rw [Token.text_append, Token.text_append, List.append_assoc]
  apply reads_column h (.test (.column column) op []) hs
  intro rest _
  rcases hop with rfl | rfl <;> rfl

section Operands

variable {op : Comparison}

theorem reads_slot (h : Plain column) (hop : op ∉ [.isIn, .notIn, .isNull, .isNotNull])
    (x : Value) :
    Reads v (text (column ++ " " ++ op.sql ++ " ") ++ [.slot x])
      (v (.test (.column column) op [.value x])) := by
  have hop' : Shut (text " " ++ (text op.sql ++ (text " " ++ [.slot x])))
      (op.lexemes ++ [.slot x]) := by
    cases op <;> exact fun _ => rfl
  simp only [Token.text_append, List.append_assoc]
  apply reads_column h (.test (.column column) op [.value x]) hop'.spells
  intro rest hrest
  rw [List.append_assoc]
  exact predicate_test hop rfl hrest

theorem reads_nothing (h : Plain column) (hop : op ∉ [.isIn, .notIn, .isNull, .isNotNull]) :
    Reads v (text (column ++ " " ++ op.sql ++ " NULL"))
      (v (.test (.column column) op [.null])) := by
  have hs : Spells (text " " ++ (text op.sql ++ text " NULL")) (op.lexemes ++ [.keyword .null]) :=
    spells_word op.lexemes "NULL".toList (by cases op <;> exact fun _ => rfl)
  simp only [Token.text_append, List.append_assoc]
  apply reads_column h (.test (.column column) op [.null]) hs
  intro rest hrest
  rw [List.append_assoc]
  exact predicate_test hop rfl hrest

theorem shut_members (items : List Value) :
    Shut ((text ", ").intercalate (items.map fun x => [.slot x]))
      ([.comma].intercalate (items.map fun x => [.slot x])) := by
  induction items with
  | nil => exact fun _ => rfl
  | cons x items ih =>
    cases items with
    | nil => simpa using shut_slot x
    | cons y items =>
      simp only [List.map_cons] at ih ⊢
      rw [List.intercalate_cons_cons, List.intercalate_cons_cons]
      exact ((shut_slot x).shut fun _ => rfl).shut ih

theorem reads_members (h : Plain column) (hop : op = .isIn ∨ op = .notIn) {items : List Value}
    (hne : items ≠ []) :
    Reads v (text (column ++ " " ++ op.sql ++ " (")
        ++ (text ", ").intercalate (items.map fun x => [.slot x]) ++ text ")")
      (v (.test (.column column) op (items.map .value))) := by
  have hop' : Shut (text " " ++ (text op.sql ++ text " (")) (op.lexemes ++ [.opening]) := by
    cases op <;> exact fun _ => rfl
  have hs := (hop'.shut ((shut_members items).shut shut_closing)).spells
  simp only [Token.text_append, List.append_assoc] at hs ⊢
  apply reads_column h (.test (.column column) op (items.map .value)) hs
  intro rest _
  simpa using predicate_members hop hne rest

end Operands

theorem reads_constant (b : Bool) : Reads v (text (Condition.constantSql b)) (.ofBool b) := by
  have hs : Spells (text (Condition.constantSql b))
      ([.number 1, .sign "="] ++ [.number b.toNat]) := by
    cases b
    · exact spells_word _ ['0'] fun _ => rfl
    · exact spells_word _ ['1'] fun _ => rfl
  have hw : Whole v ([.number 1, .sign "="] ++ [.number b.toNat])
      (Atom.truth v (.test (.number 1) .eq [.number b.toNat])) := by
    apply whole_atom (by simp) (by simp)
    intro rest hrest
    have hp : predicate (.number 1) (.sign "=" :: .number b.toNat :: rest) = _ :=
      @predicate_test _ _ .eq (by decide) _ _ rfl hrest
    simp [atom, operand, hp]
  refine ⟨_, hs, ?_⟩
  cases b <;> exact hw

theorem reads_columnsEq {left right : String} (hl : Plain left) (hr : Plain right) :
    Reads v (text (left ++ " = " ++ right)) (v (.test (.column left) .eq [.column right])) := by
  have heq : Shut (text " " ++ text "= ") [.sign "="] := fun _ => rfl
  have hs := heq.append hr.spells
  rw [List.append_assoc] at hs
  rw [Token.text_append, Token.text_append, List.append_assoc]
  apply reads_column hl (.test (.column left) .eq [.column right]) hs
  intro rest hrest
  refine @predicate_test _ _ .eq (by decide) _ rest (operand_column fun hmem => ?_) hrest
  simpa using hrest _ hmem

def like (p : Value) : List Token := text " LIKE " ++ [.slot p] ++ text " ESCAPE '*'"

theorem shut_like (p : Value) :
    Shut (like p) [.keyword .like, .slot p, .keyword .escape, .literal "*"] := fun _ => rfl

theorem reads_pattern (h : Plain column) (p : Value) :
    Reads v (text column ++ like p) (v (.pattern (.column column) (.value p) "*")) :=
  reads_column h (.pattern (.column column) (.value p) "*") (shut_like p).spells fun _ _ => rfl

theorem reads_upperPattern (h : Plain column) (p : Value) :
    Reads v (text ("UPPER(" ++ column ++ ")") ++ like p)
      (v (.pattern (.call "UPPER" column) (.value p) "*")) := by
  have hupper : Shut (text "UPPER(") [.name "UPPER", .opening] := fun _ => rfl
  have hs := hupper.append (h.spells.append (by exact rfl)
    (shut_closing.append (shut_like p).spells))
  simp only [Token.text_append, List.append_assoc]
  refine ⟨_, hs, ?_⟩
  exact whole_atom (a := .pattern (.call "UPPER" column) (.value p) "*") (by simp) (by simp)
    fun _ _ => rfl

theorem reads_range (h : Plain column) (low high : Value) :
    Reads v (text (column ++ " BETWEEN ") ++ [.slot low] ++ text " AND " ++ [.slot high])
      (v (.range (.column column) (.value low) (.value high))) := by
  have hs : Shut (text " " ++ (text "BETWEEN " ++ ([.slot low] ++ (text " AND " ++ [.slot high]))))
      [.keyword .between, .slot low, .keyword .and, .slot high] := fun _ => rfl
  simp only [Token.text_append, List.append_assoc]
  exact reads_column h (.range (.column column) (.value low) (.value high)) hs.spells fun _ _ => rfl

theorem spells_chain {sep : List Token} {k : Lexeme} (hsep : Shut sep [k])
    (hb : ∀ ts, Breaks (sep ++ ts)) {tss : List (List Token)} {lss : List (List Lexeme)}
    (h : List.Forall₂ Spells tss lss) : Spells (sep.intercalate tss) ([k].intercalate lss) := by
  induction h with
  | nil => exact fun _ _ => rfl
  | @cons ts ls tss lss hts h ih =>
    cases h with
    | nil => simpa using hts
    | cons hus h =>
      rw [List.intercalate_cons_cons, List.intercalate_cons_cons, List.append_assoc,
        List.append_assoc]
      exact hts.append (hb _) (hsep.append ih)

theorem reads_chain {tss : List (List Token)} {ts : List Truth}
    (h : List.Forall₂ (Reads v) tss ts) :
    ∃ lss, List.Forall₂ Spells tss lss ∧ List.Forall₂ (Whole v) lss ts := by
  induction h with
  | nil => exact ⟨[], .nil, .nil⟩
  | cons h _ ih =>
    obtain ⟨ls, hs, hw⟩ := h
    obtain ⟨lss, hss, hws⟩ := ih
    exact ⟨ls :: lss, .cons hs hss, .cons hw hws⟩

theorem whole_chain (op : Connective) {lss : List (List Lexeme)} {ts : List Truth}
    (h : List.Forall₂ (Whole v) lss ts) (hne : lss ≠ []) :
    Whole v (.opening :: ([.keyword op.keyword].intercalate lss ++ [.closing])) (op.truth ts) := by
  have htruth : op.truth ts = op.fold ts := by
    cases h with
    | nil => exact absurd rfl hne
    | cons => rfl
  rw [htruth]
  apply whole_parentheses
  intro n rest hn hrest
  cases op with
  | or => exact disjunction_chain h hne hn hrest
  | and =>
    obtain ⟨n, rfl⟩ : ∃ m, n = m + 1 := ⟨n - 1, by omega⟩
    have hn : 3 * ([.keyword .and].intercalate lss).length + 1 ≤ n := Nat.le_of_succ_le_succ hn
    obtain ⟨f, hf, ht⟩ := conjunction_chain h hne hn (hrest.weaken (by simp))
    exact ⟨f, disjunction_conjunction hf hrest, ht⟩

theorem reads_group (op : Connective) {tss : List (List Token)} {ts : List Truth}
    (h : List.Forall₂ (Reads v) tss ts) (hne : tss ≠ []) :
    Reads v (text "(" ++ (text (" " ++ op.sql ++ " ")).intercalate tss ++ text ")")
      (op.truth ts) := by
  have hsep : Shut (text (" " ++ op.sql ++ " ")) [.keyword op.keyword] := by
    cases op <;> exact fun _ => rfl
  have hbreaks : ∀ ts, Breaks (text (" " ++ op.sql ++ " ") ++ ts) := by
    cases op <;> exact fun _ => rfl
  obtain ⟨lss, hs, hw⟩ := reads_chain h
  have hlss : lss ≠ [] := by
    rintro rfl
    cases hs
    exact hne rfl
  refine ⟨_, ?_, whole_chain op hw hlss⟩
  rw [List.append_assoc]
  exact shut_opening.append ((spells_chain hsep hbreaks hs).append rfl shut_closing.spells)

end Reading

end RecordQuery
