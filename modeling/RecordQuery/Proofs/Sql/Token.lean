import RecordQuery.Sql.Select

/-!
Statement text as tokens: characters, and slots that carry their values. Tokens are closed when
every slot, and no question mark of its own, stands outside quoted text and no quote stays open.
The placeholders that a statement gets from the text of closed tokens are then its slots, numbered
in order.
-/

namespace RecordQuery

inductive Token
  | char (c : Char)
  | slot (v : Value)

namespace Statement

def marks : Option Char → List Char → Nat
  | _, [] => 0
  | some q, c :: rest => marks (if c = q then none else some q) rest
  | none, c :: rest =>
    if isQuote c then marks (some c) rest
    else if c = '?' then marks none rest + 1
    else marks none rest

end Statement

namespace Token

open Statement (isQuote)

def text (s : String) : List Token := s.toList.map char

def marked : List Token → List Char
  | [] => []
  | char c :: ts => c :: marked ts
  | slot _ :: ts => '?' :: marked ts

def values : List Token → List Value
  | [] => []
  | char _ :: ts => values ts
  | slot v :: ts => v :: values ts

def written (δ : Dialect) : Nat → List Token → List Char
  | _, [] => []
  | n, char c :: ts => c :: written δ n ts
  | n, slot _ :: ts => (δ.placeholder (n + 1)).toList ++ written δ (n + 1) ts

/-- The quote that is open at the end, given the one open at the start; nothing if a slot stands in
quoted text or a question mark outside of it. -/
def scan : Option Char → List Token → Option (Option Char)
  | q, [] => some q
  | some q, char c :: ts => scan (if c = q then none else some q) ts
  | some _, slot _ :: _ => none
  | none, char c :: ts =>
    if isQuote c then scan (some c) ts
    else if c = '?' then none
    else scan none ts
  | none, slot _ :: ts => scan none ts

def Closed (ts : List Token) : Prop := scan none ts = some none

/-- The tokens of a text with question marks and the values for them. -/
def weave : Option Char → List Char → List Value → List Token
  | _, [], _ => []
  | some q, c :: rest, vs => char c :: weave (if c = q then none else some q) rest vs
  | none, c :: rest, vs =>
    if isQuote c then char c :: weave (some c) rest vs
    else if c = '?' then
      match vs with
      | v :: vs => slot v :: weave none rest vs
      | [] => char c :: weave none rest []
    else char c :: weave none rest vs

@[simp] theorem text_append (s t : String) : text (s ++ t) = text s ++ text t := by
  simp [text]

@[simp] theorem marked_append (as bs : List Token) :
    marked (as ++ bs) = marked as ++ marked bs := by
  induction as with
  | nil => rfl
  | cons a as ih => cases a <;> simp [marked, ih]

@[simp] theorem values_append (as bs : List Token) :
    values (as ++ bs) = values as ++ values bs := by
  induction as with
  | nil => rfl
  | cons a as ih => cases a <;> simp [values, ih]

@[simp] theorem marked_text (s : String) : marked (text s) = s.toList := by
  unfold text
  induction s.toList with
  | nil => rfl
  | cons c cs ih => simp [marked, ih]

@[simp] theorem values_text (s : String) : values (text s) = [] := by
  unfold text
  induction s.toList with
  | nil => rfl
  | cons c cs ih => simp [values, ih]

@[simp] theorem written_text (δ : Dialect) (n : Nat) (s : String) :
    written δ n (text s) = s.toList := by
  unfold text
  induction s.toList with
  | nil => rfl
  | cons c cs ih => simp [written, ih]

theorem written_append (δ : Dialect) (n : Nat) (as bs : List Token) :
    written δ n (as ++ bs) = written δ n as ++ written δ (n + (values as).length) bs := by
  induction as generalizing n with
  | nil => rfl
  | cons a as ih =>
    cases a with
    | char c => simp [written, values, ih]
    | slot v => simp [written, values, ih, Nat.add_assoc, Nat.add_comm 1]

theorem marked_intercalate (sep : List Token) (tss : List (List Token)) :
    marked (sep.intercalate tss) = (marked sep).intercalate (tss.map marked) := by
  induction tss with
  | nil => rfl
  | cons ts tss ih =>
    cases tss with
    | nil => simp
    | cons us tss =>
      rw [List.intercalate_cons_cons, marked_append, marked_append, ih]
      simp [List.intercalate_cons_cons]

theorem values_intercalate {sep : List Token} (h : values sep = []) (tss : List (List Token)) :
    values (sep.intercalate tss) = (tss.map values).flatten := by
  induction tss with
  | nil => rfl
  | cons ts tss ih =>
    cases tss with
    | nil => simp
    | cons us tss =>
      rw [List.intercalate_cons_cons, values_append, values_append, h, ih]
      simp

theorem scan_append (q : Option Char) (as bs : List Token) :
    scan q (as ++ bs) = (scan q as).bind fun q' => scan q' bs := by
  induction as generalizing q with
  | nil => rfl
  | cons a as ih =>
    rcases a with c | v <;> rcases q with _ | q <;> simp only [List.cons_append, scan]
    · split
      · exact ih _
      · split
        · rfl
        · exact ih _
    · exact ih _
    · exact ih _
    · rfl

theorem Closed.append {as bs : List Token} (ha : Closed as) (hb : Closed bs) :
    Closed (as ++ bs) := by
  unfold Closed at *
  rw [scan_append, ha]
  exact hb

theorem closed_nil : Closed [] := rfl

theorem closed_slot (v : Value) : Closed [slot v] := rfl

theorem place_marked (δ : Dialect) {q q' : Option Char} {ts : List Token}
    (h : scan q ts = some q') (n : Nat) (rest : List Char) :
    Statement.place δ q n (marked ts ++ rest)
      = written δ n ts ++ Statement.place δ q' (n + (values ts).length) rest := by
  induction ts generalizing q n with
  | nil =>
    cases h
    rfl
  | cons a ts ih =>
    rcases a with c | v <;> rcases q with _ | q <;> simp only [scan] at h
    · split at h
      · next hc => simp [marked, written, values, Statement.place, hc, ih h]
      · split at h
        · cases h
        · next hc hm => simp [marked, written, values, Statement.place, hc, hm, ih h]
    · simp [marked, written, values, Statement.place, ih h]
    · simp [marked, written, values, Statement.place, isQuote, ih h, Nat.add_assoc,
        Nat.add_comm 1]
    · cases h

theorem marks_marked {q q' : Option Char} {ts : List Token} (h : scan q ts = some q') :
    Statement.marks q (marked ts) = (values ts).length := by
  induction ts generalizing q with
  | nil => cases q <;> rfl
  | cons a ts ih =>
    rcases a with c | v <;> rcases q with _ | q <;> simp only [scan] at h
    · split at h
      · next hc => simp [marked, values, Statement.marks, hc, ih h]
      · split at h
        · cases h
        · next hc hm => simp [marked, values, Statement.marks, hc, hm, ih h]
    · simp [marked, values, Statement.marks, ih h]
    · simp [marked, values, Statement.marks, isQuote, ih h]
    · cases h

theorem written_eq_marked {δ : Dialect} (h : δ ≠ .postgres) (n : Nat) (ts : List Token) :
    written δ n ts = marked ts := by
  induction ts generalizing n with
  | nil => rfl
  | cons a ts ih =>
    cases a with
    | char c => simp [written, marked, ih]
    | slot v =>
      cases δ with
      | postgres => exact absurd rfl h
      | _ => simp [written, marked, Dialect.placeholder, ih]

theorem weave_marked {q q' : Option Char} {ts : List Token} (h : scan q ts = some q') :
    weave q (marked ts) (values ts) = ts := by
  induction ts generalizing q with
  | nil => cases q <;> rfl
  | cons a ts ih =>
    rcases a with c | v <;> rcases q with _ | q <;> simp only [scan] at h
    · split at h
      · next hc => simp [marked, values, weave, hc, ih h]
      · split at h
        · cases h
        · next hc hm => simp [marked, values, weave, hc, hm, ih h]
    · simp [marked, values, weave, ih h]
    · simp [marked, values, weave, isQuote, ih h]
    · cases h

end Token

end RecordQuery
