import RecordQuery.Proofs.Meaning.Lexeme

/-!
Conditions read with the precedence of SQL. AND binds tighter than OR, BETWEEN owns the AND behind
its lower bound, and parentheses group. Predicates have three truth values; a comparison of two
numbers has the one that the numbers give it, and any other predicate the one it is assigned.
-/

namespace RecordQuery

inductive Truth
  | no | unknown | yes
  deriving DecidableEq

namespace Truth

def ofBool (b : Bool) : Truth := if b then .yes else .no

def and : Truth → Truth → Truth
  | .no, _ | _, .no => .no
  | .yes, t | t, .yes => t
  | .unknown, .unknown => .unknown

def or : Truth → Truth → Truth
  | .yes, _ | _, .yes => .yes
  | .no, t | t, .no => t
  | .unknown, .unknown => .unknown

def all (ts : List Truth) : Truth := ts.foldr and .yes

def any (ts : List Truth) : Truth := ts.foldr or .no

@[simp] theorem all_nil : all [] = .yes := rfl

@[simp] theorem all_cons (t : Truth) (ts : List Truth) : all (t :: ts) = t.and (all ts) := rfl

@[simp] theorem any_nil : any [] = .no := rfl

@[simp] theorem any_cons (t : Truth) (ts : List Truth) : any (t :: ts) = t.or (any ts) := rfl

@[simp] theorem and_yes (t : Truth) : t.and .yes = t := by cases t <;> rfl

@[simp] theorem yes_and (t : Truth) : Truth.yes.and t = t := by cases t <;> rfl

@[simp] theorem or_no (t : Truth) : t.or .no = t := by cases t <;> rfl

theorem and_assoc (s t u : Truth) : (s.and t).and u = s.and (t.and u) := by
  cases s <;> cases t <;> cases u <;> rfl

theorem all_append (ss ts : List Truth) : all (ss ++ ts) = (all ss).and (all ts) := by
  induction ss with
  | nil => rw [List.nil_append, all_nil, yes_and]
  | cons s ss ih => rw [List.cons_append, all_cons, all_cons, ih, and_assoc]

end Truth

inductive Operand
  | column (name : String)
  | call (function argument : String)
  | value (v : Value)
  | number (n : Nat)
  | null

inductive Atom
  | test (subject : Operand) (op : Comparison) (operands : List Operand)
  | pattern (subject pattern : Operand) (escape : String)
  | range (subject low high : Operand)

inductive Formula
  | atom (a : Atom)
  | and (f g : Formula)
  | or (f g : Formula)

def Atom.truth (v : Atom → Truth) : Atom → Truth
  | .test (.number m) .eq [.number n] => .ofBool (m = n)
  | a => v a

def Formula.truth (v : Atom → Truth) : Formula → Truth
  | .atom a => a.truth v
  | .and f g => (f.truth v).and (g.truth v)
  | .or f g => (f.truth v).or (g.truth v)

namespace Reading

def operand : List Lexeme → Option (Operand × List Lexeme)
  | .name f :: .opening :: .name x :: .closing :: rest => some (.call f x, rest)
  | .name x :: rest => some (.column x, rest)
  | .slot v :: rest => some (.value v, rest)
  | .number n :: rest => some (.number n, rest)
  | .keyword .null :: rest => some (.null, rest)
  | _ => none

def comparison : List Lexeme → Option (Comparison × List Lexeme)
  | .sign "=" :: rest => some (.eq, rest)
  | .sign "<>" :: rest => some (.ne, rest)
  | .sign "<" :: rest => some (.lt, rest)
  | .sign "<=" :: rest => some (.le, rest)
  | .sign ">" :: rest => some (.gt, rest)
  | .sign ">=" :: rest => some (.ge, rest)
  | .keyword .like :: rest => some (.like, rest)
  | .keyword .not :: .keyword .like :: rest => some (.notLike, rest)
  | _ => none

def members : List Lexeme → Option (List Operand × List Lexeme)
  | .slot v :: .comma :: rest => (members rest).map fun (vs, rest) => (.value v :: vs, rest)
  | .slot v :: .closing :: rest => some ([.value v], rest)
  | _ => none

def tested (subject o : Operand) : Comparison → List Lexeme → Atom × List Lexeme
  | .like, .keyword .escape :: .literal s :: rest => (.pattern subject o s, rest)
  | op, rest => (.test subject op [o], rest)

def predicate (subject : Operand) : List Lexeme → Option (Atom × List Lexeme)
  | .keyword .is :: .keyword .null :: rest => some (.test subject .isNull [], rest)
  | .keyword .is :: .keyword .not :: .keyword .null :: rest =>
    some (.test subject .isNotNull [], rest)
  | .keyword .isIn :: .opening :: rest =>
    (members rest).map fun (vs, rest) => (.test subject .isIn vs, rest)
  | .keyword .not :: .keyword .isIn :: .opening :: rest =>
    (members rest).map fun (vs, rest) => (.test subject .notIn vs, rest)
  | .keyword .between :: rest => do
    let (low, rest) ← operand rest
    let .keyword .and :: rest := rest | none
    let (high, rest) ← operand rest
    return (.range subject low high, rest)
  | rest => do
    let (op, rest) ← comparison rest
    let (o, rest) ← operand rest
    return tested subject o op rest

def atom (ls : List Lexeme) : Option (Formula × List Lexeme) :=
  (operand ls).bind fun (subject, rest) =>
    (predicate subject rest).map fun (a, rest) => (.atom a, rest)

mutual

def disjunction : Nat → List Lexeme → Option (Formula × List Lexeme)
  | 0, _ => none
  | n + 1, ls =>
    match conjunction n ls with
    | some (f, .keyword .or :: rest) => (disjunction n rest).map fun (g, rest) => (.or f g, rest)
    | found => found

def conjunction : Nat → List Lexeme → Option (Formula × List Lexeme)
  | 0, _ => none
  | n + 1, ls =>
    match factor n ls with
    | some (f, .keyword .and :: rest) => (conjunction n rest).map fun (g, rest) => (.and f g, rest)
    | found => found

def factor : Nat → List Lexeme → Option (Formula × List Lexeme)
  | 0, _ => none
  | n + 1, .opening :: rest =>
    match disjunction n rest with
    | some (f, .closing :: rest) => some (f, rest)
    | _ => none
  | _ + 1, ls => atom ls

end

/-- The formula that all lexemes make. No lexeme takes more than three levels. -/
def formula (ls : List Lexeme) : Option Formula :=
  match disjunction (3 * ls.length + 2) ls with
  | some (f, []) => some f
  | _ => none

def Stops (ends : List Lexeme) (rest : List Lexeme) : Prop := ∀ l ∈ rest.head?, l ∈ ends

/-- The lexemes are read as one factor with this truth, whatever stops it. -/
def Whole (v : Atom → Truth) (ls : List Lexeme) (t : Truth) : Prop :=
  ∀ n rest, 3 * ls.length ≤ n → Stops [.keyword .and, .keyword .or, .closing] rest →
    ∃ f, factor n (ls ++ rest) = some (f, rest) ∧ f.truth v = t

variable {v : Atom → Truth} {ls rest : List Lexeme} {t : Truth}

theorem stops_nil (ends : List Lexeme) : Stops ends [] := by simp [Stops]

theorem stops_cons {ends : List Lexeme} {l : Lexeme} (h : l ∈ ends) (rest : List Lexeme) :
    Stops ends (l :: rest) := by
  simpa [Stops] using h

theorem Stops.weaken {ends more : List Lexeme} (h : Stops ends rest) (hsub : ends ⊆ more) :
    Stops more rest := fun l hl => hsub (h l hl)

theorem conjunction_factor {n : Nat} {f : Formula} (h : factor n ls = some (f, rest))
    (hrest : Stops [.keyword .or, .closing] rest) : conjunction (n + 1) ls = some (f, rest) := by
  rw [conjunction, h]
  split
  · next heq =>
    cases heq
    simpa using hrest _ rfl
  · rfl

theorem disjunction_conjunction {n : Nat} {f : Formula} (h : conjunction n ls = some (f, rest))
    (hrest : Stops [.closing] rest) : disjunction (n + 1) ls = some (f, rest) := by
  rw [disjunction, h]
  split
  · next heq =>
    cases heq
    simpa using hrest _ rfl
  · rfl

theorem conjunction_chain {lss : List (List Lexeme)} {ts : List Truth}
    (h : List.Forall₂ (Whole v) lss ts) (hne : lss ≠ []) {n : Nat}
    (hn : 3 * ([.keyword .and].intercalate lss).length + 1 ≤ n)
    (hrest : Stops [.keyword .or, .closing] rest) :
    ∃ f, conjunction n ([.keyword .and].intercalate lss ++ rest) = some (f, rest) ∧
      f.truth v = Truth.all ts := by
  induction h generalizing n with
  | nil => exact absurd rfl hne
  | @cons ls t lss ts hls hlss ih =>
    obtain ⟨n, rfl⟩ : ∃ m, n = m + 1 := ⟨n - 1, by omega⟩
    cases lss with
    | nil =>
      cases hlss
      rw [List.intercalate_singleton] at hn ⊢
      obtain ⟨f, hf, ht⟩ := hls n rest (by omega) (hrest.weaken (by simp))
      rw [Truth.all_cons, Truth.all_nil, Truth.and_yes]
      exact ⟨f, conjunction_factor hf hrest, ht⟩
    | cons ms lss =>
      rw [List.intercalate_cons_cons] at hn ⊢
      simp only [List.length_append, List.length_singleton] at hn
      obtain ⟨g, hg, hts⟩ := ih (by simp) (n := n) (by omega)
      obtain ⟨f, hf, ht⟩ := hls n
        (.keyword .and :: ([.keyword .and].intercalate (ms :: lss) ++ rest))
        (by omega) (stops_cons (by simp) _)
      refine ⟨.and f g, ?_, by simp [Formula.truth, ht, hts]⟩
      simp [conjunction, hf, hg]

theorem disjunction_chain {lss : List (List Lexeme)} {ts : List Truth}
    (h : List.Forall₂ (Whole v) lss ts) (hne : lss ≠ []) {n : Nat}
    (hn : 3 * ([.keyword .or].intercalate lss).length + 2 ≤ n) (hrest : Stops [.closing] rest) :
    ∃ f, disjunction n ([.keyword .or].intercalate lss ++ rest) = some (f, rest) ∧
      f.truth v = Truth.any ts := by
  induction h generalizing n with
  | nil => exact absurd rfl hne
  | @cons ls t lss ts hls hlss ih =>
    obtain ⟨n, rfl⟩ : ∃ m, n = m + 2 := ⟨n - 2, by omega⟩
    cases lss with
    | nil =>
      cases hlss
      rw [List.intercalate_singleton] at hn ⊢
      obtain ⟨f, hf, ht⟩ := hls n rest (by omega) (hrest.weaken (by simp))
      rw [Truth.any_cons, Truth.any_nil, Truth.or_no]
      exact ⟨f, disjunction_conjunction (conjunction_factor hf (hrest.weaken (by simp))) hrest, ht⟩
    | cons ms lss =>
      rw [List.intercalate_cons_cons] at hn ⊢
      simp only [List.length_append, List.length_singleton] at hn
      obtain ⟨g, hg, hts⟩ := ih (by simp) (n := n + 1) (by omega)
      obtain ⟨f, hf, ht⟩ := hls n (.keyword .or :: ([.keyword .or].intercalate (ms :: lss) ++ rest))
        (by omega) (stops_cons (by simp) _)
      have hc := conjunction_factor hf (stops_cons (by simp) _)
      refine ⟨.or f g, ?_, by simp [Formula.truth, ht, hts]⟩
      rw [List.append_assoc, List.append_assoc, List.singleton_append, disjunction, hc]
      simp [hg]

theorem whole_parentheses
    (h : ∀ n rest, 3 * ls.length + 2 ≤ n → Stops [.closing] rest →
      ∃ f, disjunction n (ls ++ rest) = some (f, rest) ∧ f.truth v = t) :
    Whole v (.opening :: (ls ++ [.closing])) t := by
  intro n rest hn _
  simp only [List.length_cons, List.length_append, List.length_nil] at hn
  obtain ⟨n, rfl⟩ : ∃ m, n = m + 1 := ⟨n - 1, by omega⟩
  obtain ⟨f, hf, ht⟩ := h n (.closing :: rest) (by omega) (stops_cons (by simp) _)
  refine ⟨f, ?_, ht⟩
  simp [factor, hf]

theorem whole_atom {a : Atom} (hne : ∀ rest, ls ≠ .opening :: rest) (hpos : ls ≠ [])
    (h : ∀ rest, Stops [.keyword .and, .keyword .or, .closing] rest →
      atom (ls ++ rest) = some (.atom a, rest)) : Whole v ls (a.truth v) := by
  intro n rest hn hrest
  cases ls with
  | nil => exact absurd rfl hpos
  | cons l ls =>
    obtain ⟨n, rfl⟩ : ∃ m, n = m + 1 := ⟨n - 1, by simp at hn; omega⟩
    refine ⟨.atom a, ?_, rfl⟩
    rw [List.cons_append, factor]
    · exact h rest hrest
    · rintro rest' heq
      cases heq
      exact hne ls rfl

theorem Whole.formula (h : Whole v ls t) : ∃ f, formula ls = some f ∧ f.truth v = t := by
  obtain ⟨f, hf, ht⟩ := h (3 * ls.length) [] (Nat.le_refl _) (stops_nil _)
  rw [List.append_nil] at hf
  have hd := disjunction_conjunction (conjunction_factor hf (stops_nil _)) (stops_nil _)
  refine ⟨f, ?_, ht⟩
  rw [Reading.formula, hd]

end Reading

end RecordQuery
