import RecordQuery.Proofs.Sql.Aligned

namespace RecordQuery

namespace Reading

inductive Keyword
  | and | or | not | is | null | like | escape | between | isIn
  deriving DecidableEq

def Keyword.all : List Keyword := [.and, .or, .not, .is, .null, .like, .escape, .between, .isIn]

def Keyword.text : Keyword → String
  | .and => "AND"
  | .or => "OR"
  | .not => "NOT"
  | .is => "IS"
  | .null => "NULL"
  | .like => "LIKE"
  | .escape => "ESCAPE"
  | .between => "BETWEEN"
  | .isIn => "IN"

inductive Lexeme
  | keyword (k : Keyword)
  | name (s : String)
  | number (n : Nat)
  | sign (s : String)
  | literal (s : String)
  | slot (v : Value)
  | opening
  | closing
  | comma
  | stray (c : Char)

def isWord (c : Char) : Bool := c.isAlphanum || c == '_' || c == '$' || c == '.' || 128 ≤ c.toNat

def isSign (c : Char) : Bool := c == '=' || c == '<' || c == '>' || c == '!'

def keyword? (w : List Char) : Option Keyword :=
  Keyword.all.find? fun k => k.text.toList == w.map Char.toUpper

def Lexeme.ofWord (w : List Char) : Lexeme :=
  match keyword? w with
  | some k => .keyword k
  | none =>
    if w.all Char.isDigit then .number (Nat.ofDigitChars 10 w 0) else .name (String.ofList w)

/-- What has been read of a lexeme that may go on. -/
inductive Pending
  | idle
  | word (w : List Char)
  | sign (w : List Char)
  | quoted (w : List Char)

namespace Pending

def flush : Pending → List Lexeme
  | .idle => []
  | .word w => [.ofWord w]
  | .sign w => [.sign (String.ofList w)]
  | .quoted _ => [.stray '\x27']

def start (c : Char) : List Lexeme × Pending :=
  if isWord c then ([], .word [c])
  else if isSign c then ([], .sign [c])
  else if c = '\x27' then ([], .quoted [])
  else if c = '(' then ([.opening], .idle)
  else if c = ')' then ([.closing], .idle)
  else if c = ',' then ([.comma], .idle)
  else if c = ' ' then ([], .idle)
  else ([.stray c], .idle)

def feed : Pending → Token → List Lexeme × Pending
  | p, .slot v => (p.flush ++ [.slot v], .idle)
  | .idle, .char c => start c
  | .word w, .char c =>
    if isWord c then ([], .word (w ++ [c])) else (.ofWord w :: (start c).1, (start c).2)
  | .sign w, .char c =>
    if isSign c then ([], .sign (w ++ [c]))
    else (.sign (String.ofList w) :: (start c).1, (start c).2)
  | .quoted w, .char c =>
    if c = '\x27' then ([.literal (String.ofList w)], .idle) else ([], .quoted (w ++ [c]))

end Pending

def lex : Pending → List Token → List Lexeme
  | p, [] => p.flush
  | p, t :: ts => (p.feed t).1 ++ lex (p.feed t).2 ts

structure Plain (s : String) : Prop where
  word : ∀ c ∈ s.toList, isWord c = true
  letter : (s.toList.head?.any fun c => !c.isDigit) = true
  name : keyword? s.toList = none

/-- What ends a word: the end of the text, or a character that is no part of words. -/
def Breaks : List Token → Prop
  | .char c :: _ => isWord c = false
  | _ => True

/-- The lexemes are read from the text, and reading goes on after it from the start. -/
def Spells (ts : List Token) (ls : List Lexeme) : Prop :=
  ∀ rest, Breaks rest → lex .idle (ts ++ rest) = ls ++ lex .idle rest

/-- The lexemes are read from the text, whatever comes after. -/
def Shut (ts : List Token) (ls : List Lexeme) : Prop :=
  ∀ rest, lex .idle (ts ++ rest) = ls ++ lex .idle rest

theorem isWord_unmarked {c : Char} (h : isWord c = true) :
    Statement.isQuote c = false ∧ c ≠ '?' := by
  have hmarks : ['\x27', '\x22', '\x60', '?'].all (fun d => !isWord d) = true := by decide
  have h : ∀ d ∈ ['\x27', '\x22', '\x60', '?'], c ≠ d := by
    rintro d hd rfl
    have hd := List.all_eq_true.1 hmarks c hd
    simp [h] at hd
  simp only [Statement.isQuote, Bool.or_eq_false_iff, beq_eq_false_iff_ne]
  exact ⟨⟨⟨h _ (by simp), h _ (by simp)⟩, h _ (by simp)⟩, h _ (by simp)⟩

namespace Plain

variable {s : String}

theorem unmarked (h : Plain s) : Statement.Unmarked s := fun c hc => isWord_unmarked (h.word c hc)

theorem cons (h : Plain s) : ∃ c cs, s.toList = c :: cs ∧ c.isDigit = false := by
  have hl := h.letter
  cases hs : s.toList with
  | nil => simp [hs] at hl
  | cons c cs => exact ⟨c, cs, rfl, by simpa [hs] using hl⟩

theorem ofWord (h : Plain s) : Lexeme.ofWord s.toList = .name s := by
  obtain ⟨c, cs, hs, hdigit⟩ := h.cons
  have hnumber : s.toList.all Char.isDigit = false := by simp [hs, hdigit]
  simp [Lexeme.ofWord, h.name, hnumber]

end Plain

theorem lex_word (w : List Char) {cs : List Char} (h : ∀ c ∈ cs, isWord c = true)
    (rest : List Token) :
    lex (.word w) (cs.map Token.char ++ rest) = lex (.word (w ++ cs)) rest := by
  induction cs generalizing w with
  | nil => simp
  | cons c cs ih =>
    have hc := h c List.mem_cons_self
    have hcs := ih (w ++ [c]) fun d hd => h d (List.mem_cons_of_mem c hd)
    simpa [lex, Pending.feed, hc] using hcs

theorem Plain.lex_text {s : String} (h : Plain s) (rest : List Token) :
    lex .idle (Token.text s ++ rest) = lex (.word s.toList) rest := by
  obtain ⟨c, cs, hs, -⟩ := h.cons
  have hword := h.word
  rw [hs] at hword
  have hc := hword c List.mem_cons_self
  have hcs := lex_word [c] (fun d hd => hword d (List.mem_cons_of_mem c hd)) rest
  rw [Token.text, hs]
  simpa [lex, Pending.feed, Pending.start, hc] using hcs

theorem lex_breaks (w : List Char) {rest : List Token} (h : Breaks rest) :
    lex (.word w) rest = .ofWord w :: lex .idle rest := by
  cases rest with
  | nil => rfl
  | cons t rest =>
    cases t with
    | slot v => rfl
    | char c =>
      have hc : isWord c = false := h
      simp [lex, Pending.feed, hc]

theorem Breaks.append {ts rest : List Token} (h : Breaks ts) (hrest : Breaks rest) :
    Breaks (ts ++ rest) := by
  cases ts with
  | nil => exact hrest
  | cons t ts => cases t <;> exact h

theorem Shut.append {as bs : List Token} {ls ms : List Lexeme} (ha : Shut as ls)
    (hb : Spells bs ms) : Spells (as ++ bs) (ls ++ ms) := by
  intro rest hrest
  rw [List.append_assoc, ha, hb rest hrest, List.append_assoc]

theorem Shut.shut {as bs : List Token} {ls ms : List Lexeme} (ha : Shut as ls)
    (hb : Shut bs ms) : Shut (as ++ bs) (ls ++ ms) := by
  intro rest
  rw [List.append_assoc, ha, hb, List.append_assoc]

theorem Shut.spells {ts : List Token} {ls : List Lexeme} (h : Shut ts ls) : Spells ts ls :=
  fun rest _ => h rest

theorem Spells.append {as bs : List Token} {ls ms : List Lexeme} (ha : Spells as ls)
    (hbreaks : Breaks bs) (hb : Spells bs ms) : Spells (as ++ bs) (ls ++ ms) := by
  intro rest hrest
  rw [List.append_assoc, ha _ (hbreaks.append hrest), hb rest hrest, List.append_assoc]

theorem Plain.spells {s : String} (h : Plain s) : Spells (Token.text s) [.name s] := by
  intro rest hrest
  rw [h.lex_text, lex_breaks _ hrest, h.ofWord]
  rfl

end Reading

end RecordQuery
