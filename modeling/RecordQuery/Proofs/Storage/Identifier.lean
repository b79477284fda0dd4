import RecordQuery.Proofs.Storage.Compiling

namespace RecordQuery

def lower (name : String) : String := name.map Char.toLower

def word (text : String) : Bool :=
  match text.toList with
  | [] => false
  | c :: rest => (c.isAlpha || c == '_') && rest.all fun c => c.isAlphanum || c == '_'

namespace Dialect

def undouble (q : Char) : List Char → Option (List Char)
  | [] => none
  | [c] => if c = q then some [] else none
  | c :: d :: rest =>
    if c = q then if d = q then (undouble q rest).map (q :: ·) else none
    else (undouble q (d :: rest)).map (c :: ·)

/-- The name that an identifier stands for. What is quoted stays as it is. -/
def identifier? (δ : Dialect) (text : String) : Option String :=
  if word text then some (if δ = .postgres then lower text else text)
  else
    match text.toList with
    | [] => none
    | c :: rest => if c = δ.quoteChar then (undouble c rest).map String.ofList else none

def compared (δ : Dialect) (name : String) : String := if δ = .postgres then name else lower name

theorem undouble_pair (q : Char) (rest : List Char) :
    undouble q (q :: q :: rest) = (undouble q rest).map (q :: ·) := by
  simp [undouble]

theorem undouble_cons {q c : Char} (h : c ≠ q) (rest : List Char) :
    undouble q (c :: rest) = (undouble q rest).map (c :: ·) := by
  cases rest <;> simp [undouble, h]

theorem undouble_double (q : Char) (cs : List Char) :
    undouble q (double q cs ++ [q]) = some cs := by
  induction cs with
  | nil => simp [double, undouble]
  | cons c cs ih =>
    by_cases h : c = q
    · subst h
      have hdouble : double c (c :: cs) = c :: c :: double c cs := if_pos rfl
      rw [hdouble, List.cons_append, List.cons_append, undouble_pair, ih]
      rfl
    · have hdouble : double q (c :: cs) = c :: double q cs := if_neg h
      rw [hdouble, List.cons_append, undouble_cons h, ih]
      rfl

theorem identifier?_quote (δ : Dialect) (name : String) :
    δ.identifier? (δ.quote name) = some name := by
  have hword : word (δ.quote name) = false := by
    unfold word
    rw [toList_quote]
    cases δ <;> rfl
  unfold identifier?
  rw [hword, toList_quote]
  simp [undouble_double]

end Dialect

namespace Table

variable {δ : Dialect} {t : Table} {x : String}

/-- A column of the table, which is created with quoted names, is what the text denotes. -/
def resolves (δ : Dialect) (t : Table) (text : String) : Bool :=
  (δ.identifier? text).any fun name => t.names.any fun listed =>
    (δ.identifier? (δ.quote listed)).any fun created => δ.compared name == δ.compared created

theorem resolves_word (hw : word x = true) (hx : x ∈ t.names) :
    t.resolves δ x = true ↔ (δ = .postgres → lower x ∈ t.names) := by
  have hread : δ.identifier? x = some (if δ = .postgres then lower x else x) := if_pos hw
  unfold resolves
  rw [hread]
  simp only [Dialect.identifier?_quote, Option.any_some, List.any_eq_true, beq_iff_eq]
  by_cases hδ : δ = .postgres
  · simp [Dialect.compared, hδ]
  · simp only [Dialect.compared, hδ, if_false, false_implies, iff_true]
    exact ⟨x, hx, rfl⟩

end Table

def Denotes (δ : Dialect) (ts : List Table) (table column : String) : Prop :=
  ∃ t, ts.find? (·.name == table) = some t ∧ column ∈ t.names ∧
    (word column = true → (t.resolves δ column = true ↔ (δ = .postgres → lower column ∈ t.names)))

/-- Where the tables are created with all columns that are stored there, each column that a query of
a provider reads is listed by the table behind its alias. The text of the query denotes it on MySQL
and SQLite; on Postgres it does so just if the table lists the name in lower case. -/
theorem references_fold_on_postgres (p : Provider)
    (hnamed : ∀ e ∈ p.schema.entities, ∀ a ∈ e.associations, a.name ≠ "") (ts : List Table)
    (hts : p.schema.tables = .ok ts)
    (hcreated : ∀ table column, p.schema.Stored table column → Created ts table column) :
    p.schema.ddl p.dialect = .ok ("\n\n".intercalate (ts.map (Table.sql p.dialect))) ∧
    ∀ q, p.Serves q → q.query.source.aliases.Nodup ∧
      q.query.Reads p.dialect (Refers (Denotes p.dialect ts) q.query.source.origins) := by
  constructor
  · unfold Schema.ddl
    rw [hts]
    rfl
  · intro q hq
    obtain ⟨hreads, hnodup⟩ := Provider.reads_of_serves hnamed hq
    refine ⟨hnodup, hreads.mono fun _ => .imp fun table column hx => ?_⟩
    obtain ⟨t, hfind, hlisted⟩ := hcreated table column hx
    exact ⟨t, hfind, hlisted, fun hw => Table.resolves_word hw hlisted⟩

theorem references_fold_on_postgres_blog :
    (∀ e ∈ Blog.schema.entities, ∀ a ∈ e.associations, a.name ≠ "") ∧
    ∃ ts t q, Blog.schema.tables = .ok ts ∧
      (∀ table column, Blog.schema.Stored table column → Created ts table column) ∧
      (Blog.provider .postgres).Serves q ∧
      ("comments_2", "comments") ∈ q.query.source.origins ∧
      q.query.Reads .postgres (Refers (Denotes .postgres ts) q.query.source.origins) ∧
      ts.find? (·.name == "comments") = some t ∧
      t.resolves .postgres "deletedAt" = false ∧ t.resolves .sqlite "deletedAt" = true := by
  have hnamed : ∀ e ∈ Blog.schema.entities, ∀ a ∈ e.associations, a.name ≠ "" := by decide
  have hvalid : Blog.schema.validate = .ok () := by decide +kernel
  have hunshared : Blog.schema.Unshared := ⟨by decide, by decide, by decide⟩
  obtain ⟨storages, own, hts, hlaid⟩ := Schema.tables_ok hvalid
  have hcreated : ∀ table column, Blog.schema.Stored table column →
      Created (own ++ Schema.linkTables storages) table column :=
    fun _ _ hx => hlaid.created hunshared hx
  have hcomments : (Blog.schema.tables.toOption.bind fun ts =>
      ts.find? (·.name == "comments")).map (fun t =>
        (t.resolves .postgres "deletedAt", t.resolves .sqlite "deletedAt"))
      = some (false, true) := by
    decide +kernel
  rw [hts] at hcomments
  obtain ⟨t, hfind, hresolves⟩ := Option.map_eq_some_iff.1 hcomments
  obtain ⟨hpostgres, hsqlite⟩ := Prod.mk.inj hresolves
  obtain ⟨q, uses, hq, horigins⟩ := Steps.ok_of_toOption_map
    (m := (Blog.provider .postgres).compile "Post" Blog.request) (s := 0)
    (f := fun q => q.query.source.origins)
    (b := [("post_1", "posts"), ("comments_2", "comments"), ("author_3", "users")])
    (by decide +kernel)
  have hserves : (Blog.provider .postgres).Serves q := .request hq
  have hreads := (references_fold_on_postgres (Blog.provider .postgres) hnamed _ hts hcreated).2
    q hserves
  exact ⟨hnamed, _, t, q, hts, hcreated, hserves, by simp [horigins], hreads.2, hfind, hpostgres,
    hsqlite⟩

end RecordQuery
