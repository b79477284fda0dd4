import RecordQuery.Proofs.Sql.Aligned
import RecordQuery.Store.Token

namespace RecordQuery

namespace Statement

/-- The quote that is open at the end of a text, given the one open at its start. -/
def openAfter : Option Char → List Char → Option Char
  | q, [] => q
  | some q, c :: rest => openAfter (if c = q then none else some q) rest
  | none, c :: rest => openAfter (if isQuote c then some c else none) rest

theorem openAfter_append (q : Option Char) (as bs : List Char) :
    openAfter q (as ++ bs) = openAfter (openAfter q as) bs := by
  induction as generalizing q with
  | nil => cases q <;> rfl
  | cons c as ih =>
    cases q with
    | none => simp only [List.cons_append, openAfter, ih]
    | some q => simp only [List.cons_append, openAfter, ih]

theorem place_append (δ : Dialect) (q : Option Char) (n : Nat) (as bs : List Char) :
    place δ q n (as ++ bs)
      = place δ q n as ++ place δ (openAfter q as) (n + marks q as) bs := by
  induction as generalizing q n with
  | nil => cases q <;> rfl
  | cons c as ih =>
    cases q with
    | some q => simp only [List.cons_append, place, openAfter, marks, ih]
    | none =>
      simp only [List.cons_append, place, openAfter, marks, ih]
      split
      · rfl
      · split
        · simp [Nat.add_assoc, Nat.add_comm 1]
        · rfl

theorem marks_concat (q : Option Char) (as bs : List Char) :
    marks q (as ++ bs) = marks q as + marks (openAfter q as) bs := by
  induction as generalizing q with
  | nil => cases q <;> simp [marks, openAfter]
  | cons c as ih =>
    cases q with
    | some q => simp only [List.cons_append, openAfter, marks, ih]
    | none =>
      simp only [List.cons_append, openAfter, marks, ih]
      split
      · rfl
      · split
        · rw [Nat.add_right_comm]
        · rfl

end Statement

namespace Token

open Statement (openAfter)

theorem openAfter_marked {q q' : Option Char} {ts : List Token} (h : scan q ts = some q') :
    openAfter q (marked ts) = q' := by
  induction ts generalizing q with
  | nil => cases q <;> exact Option.some.inj h
  | cons a ts ih =>
    rcases a with c | v <;> rcases q with _ | q <;> simp only [scan] at h
    · split at h
      · next hc => simp [marked, openAfter, hc, ih h]
      · split at h
        · cases h
        · next hc _ => simp [marked, openAfter, hc, ih h]
    · simp [marked, openAfter, ih h]
    · simp [marked, openAfter, Statement.isQuote, ih h]
    · cases h

end Token

namespace Dialect

theorem openAfter_quote (δ : Dialect) (identifier : String) :
    Statement.openAfter none (δ.quote identifier).toList = none := by
  simpa using Token.openAfter_marked (Token.closed_quote δ identifier)

theorem marks_quote (δ : Dialect) (identifier : String) :
    Statement.marks none (δ.quote identifier).toList = 0 := by
  simpa using Token.marks_marked (Token.closed_quote δ identifier)

theorem place_quote (δ δ' : Dialect) (identifier : String) (n : Nat) (rest : List Char) :
    Statement.place δ none n ((δ'.quote identifier).toList ++ rest)
      = (δ'.quote identifier).toList ++ Statement.place δ none n rest := by
  simpa using Token.place_marked δ (Token.closed_quote δ' identifier) n rest

end Dialect

namespace Store.Token

theorem untilQuote?_double {q : Char} {rest : List Char} (h : rest.head? ≠ some q)
    (cs : List Char) :
    untilQuote? q (Dialect.double q cs ++ q :: rest) = some (cs, rest) := by
  induction cs with
  | nil =>
    cases rest with
    | nil => simp [Dialect.double, untilQuote?]
    | cons d rest =>
      have hd : d ≠ q := by simpa using h
      simp [Dialect.double, untilQuote?, hd]
  | cons c cs ih =>
    by_cases hc : c = q
    · subst hc
      simp [Dialect.double, untilQuote?, ih]
    · cases hnext : Dialect.double q cs ++ q :: rest with
      | nil => simp at hnext
      | cons d more =>
        rw [hnext] at ih
        simp [Dialect.double, untilQuote?, hc, hnext, ih]

theorem next?_quote (δ : Dialect) (identifier : String) (index : Nat) {rest : List Char}
    (h : rest.head? ≠ some δ.quoteChar) :
    next? index ((δ.quote identifier).toList ++ rest) = some (.quoted identifier, rest) := by
  have hopen (cs : List Char) : next? index (δ.quoteChar :: cs)
      = (untilQuote? δ.quoteChar cs).map fun read => (.quoted (String.ofList read.1), read.2) := by
    cases δ <;> rfl
  rw [Dialect.toList_quote, List.cons_append, List.append_assoc, hopen]
  simp [untilQuote?_double h]

end Store.Token

open Statement (openAfter marks place)

/-- After a text that leaves no quote open, a quoted identifier is copied as it is, holds no
placeholder and leaves no quote open, so what follows it is written as if it were not there. Read as
one token, it is the identifier. -/
theorem quoted_identifiers_opaque (δ : Dialect) (identifier : String) {before : String}
    (h : openAfter none before.toList = none) :
    (∀ (after : String) (values : List Value),
      (Statement.ofFragment δ ⟨before ++ δ.quote identifier ++ after, values⟩).sql
        = (Statement.ofFragment δ ⟨before, values⟩).sql ++ δ.quote identifier
          ++ String.ofList (place δ none (marks none before.toList) after.toList)) ∧
    marks none (before ++ δ.quote identifier).toList = marks none before.toList ∧
    openAfter none (before ++ δ.quote identifier).toList = none ∧
    ∀ (index : Nat) (after : List Char), after.head? ≠ some δ.quoteChar →
      Store.Token.next? index ((δ.quote identifier).toList ++ after)
        = some (.quoted identifier, after) := by
  refine ⟨fun after values => ?_, ?_, ?_,
    fun index _ hafter => Store.Token.next?_quote δ identifier index hafter⟩
  · apply String.toList_inj.1
    simp [Statement.ofFragment, List.append_assoc, Statement.place_append δ none 0 before.toList, h,
      Dialect.place_quote]
  · rw [String.toList_append, Statement.marks_concat, h, Dialect.marks_quote, Nat.add_zero]
  · rw [String.toList_append, Statement.openAfter_append, h, Dialect.openAfter_quote]

theorem quoted_identifiers_opaque_label :
    openAfter none "SELECT t.a = ?, 'it''s' AS ".toList = none ∧
    (Statement.ofFragment .postgres
      ⟨"SELECT t.a = ?, 'it''s' AS " ++ Dialect.postgres.quote "\"?\" or '\\`" ++ ", ?", []⟩).sql
        = "SELECT t.a = $1, 'it''s' AS \"\"\"?\"\" or '\\`\", $2" ∧
    Store.Token.next? 0 ((Dialect.postgres.quote "\"?\" or '\\`").toList ++ [',', ' ', '?'])
      = some (.quoted "\"?\" or '\\`", [',', ' ', '?']) := by
  have hbefore : openAfter none "SELECT t.a = ?, 'it''s' AS ".toList = none := by decide +kernel
  obtain ⟨hcopied, -, -, hread⟩ :=
    quoted_identifiers_opaque .postgres "\"?\" or '\\`" hbefore
  refine ⟨hbefore, ?_, hread 0 [',', ' ', '?'] (by decide)⟩
  rw [hcopied]
  decide +kernel

end RecordQuery
