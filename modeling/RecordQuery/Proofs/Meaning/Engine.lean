import RecordQuery.Proofs.Meaning.Clause
import RecordQuery.Proofs.Meaning.Pattern
import RecordQuery.Store.Cell

namespace RecordQuery

/-- A database as predicates need it: the comparisons that hold of two values, none of them null,
the answers of its functions, the text of values that are matched with a pattern, and the character
that stands for those which LIKE does not tell apart. -/
structure Engine where
  holds : Comparison → Value → Value → Bool
  call : String → Value → Value
  written : Value → String
  fold : Char → Char

def Truth.not : Truth → Truth
  | .no => .yes
  | .unknown => .unknown
  | .yes => .no

namespace Truth

@[simp] theorem not_eq_yes {t : Truth} : t.not = .yes ↔ t = .no := by cases t <;> simp [not]

@[simp] theorem ofBool_eq_yes {b : Bool} : ofBool b = .yes ↔ b = true := by
  cases b <;> simp [ofBool]

@[simp] theorem ofBool_eq_no {b : Bool} : ofBool b = .no ↔ b = false := by
  cases b <;> simp [ofBool]

theorem or_eq_yes {s t : Truth} : s.or t = .yes ↔ s = .yes ∨ t = .yes := by
  cases s <;> cases t <;> simp [or]

theorem or_eq_no {s t : Truth} : s.or t = .no ↔ s = .no ∧ t = .no := by
  cases s <;> cases t <;> simp [or]

theorem any_eq_yes {ts : List Truth} : any ts = .yes ↔ .yes ∈ ts := by
  induction ts with
  | nil => simp
  | cons t ts ih => rw [any_cons, or_eq_yes, ih, List.mem_cons, eq_comm]

theorem any_eq_no {ts : List Truth} : any ts = .no ↔ ∀ t ∈ ts, t = .no := by
  induction ts with
  | nil => simp
  | cons t ts ih => simp [or_eq_no, ih]

end Truth

namespace Engine

def compare (e : Engine) (op : Comparison) : Value → Value → Truth
  | .null, _ | _, .null => .unknown
  | x, y => .ofBool (e.holds op x y)

def among (e : Engine) (x : Value) (ys : List Value) : Truth := .any (ys.map (e.compare .eq x))

def text (e : Engine) : Value → String
  | .text s => s
  | v => e.written v

def matched (e : Engine) (esc : Char) : Value → Value → Truth
  | .null, _ | _, .null => .unknown
  | subject, pattern =>
    match Like.like? e.fold esc (e.text pattern).toList (e.text subject).toList with
    | some b => .ofBool b
    | none => .unknown

def value (e : Engine) (row : String → Value) : Operand → Value
  | .column x => row x
  | .call f x => e.call f (row x)
  | .value v => v
  | .number n => .int n
  | .null => .null

def judge (e : Engine) (row : String → Value) : Atom → Truth
  | .test s .isNull _ => .ofBool (e.value row s).isNull
  | .test s .isNotNull _ => .ofBool !(e.value row s).isNull
  | .test s .isIn os => e.among (e.value row s) (os.map (e.value row))
  | .test s .notIn os => (e.among (e.value row s) (os.map (e.value row))).not
  | .test s op [o] => e.compare op (e.value row s) (e.value row o)
  | .test _ _ _ => .unknown
  | .pattern s p esc =>
    match esc.toList with
    | [c] => e.matched c (e.value row s) (e.value row p)
    | _ => .unknown
  | .range s low high =>
    (e.compare .ge (e.value row s) (e.value row low)).and
      (e.compare .le (e.value row s) (e.value row high))

def allows : Comparison → Ordering → Bool
  | .eq, .eq | .ne, .lt | .ne, .gt | .lt, .lt | .le, .lt | .le, .eq | .gt, .gt | .ge, .gt
  | .ge, .eq => true
  | _, _ => false

def store : Engine where
  holds op x y := allows op ((Store.Cell.ofValue x).order (Store.Cell.ofValue y))
  call
    | "UPPER", .text s => .text (s.map Char.toUpper)
    | _, x => x
  written := Value.json
  fold := Char.toLower

variable {e : Engine} {x y : Value} {ys : List Value} {op : Comparison}

@[simp] theorem compare_null (x : Value) : e.compare op x .null = .unknown := by cases x <;> rfl

theorem compare_of_ne_null (hx : x ≠ .null) (hy : y ≠ .null) :
    e.compare op x y = .ofBool (e.holds op x y) := by
  rw [compare]
  · exact hx
  · exact hy

theorem compare_eq_yes (hx : x ≠ .null) :
    e.compare op x y = .yes ↔ y ≠ .null ∧ e.holds op x y = true := by
  by_cases hy : y = .null
  · simp [hy]
  · simp [compare_of_ne_null hx hy, hy]

theorem compare_eq_no (hx : x ≠ .null) :
    e.compare op x y = .no ↔ y ≠ .null ∧ e.holds op x y = false := by
  by_cases hy : y = .null
  · simp [hy]
  · simp [compare_of_ne_null hx hy, hy]

end Engine

end RecordQuery
