import Mathlib.Data.List.Induction
import RecordQuery.Proofs.Selection.Amending

namespace RecordQuery

open Steps

section

variable {α : Type} [BEq α] [LawfulBEq α]

theorem eraseDups_concat (xs : List α) (x : α) [Decidable (x ∈ xs)] :
    (xs ++ [x]).eraseDups = if x ∈ xs then xs.eraseDups else xs.eraseDups ++ [x] := by
  rw [List.eraseDups_append]
  by_cases hx : x ∈ xs <;> simp [List.removeAll, hx, List.eraseDups_cons]

theorem eraseDups_eraseDups (xs : List α) : xs.eraseDups.eraseDups = xs.eraseDups := by
  classical
  induction xs using List.reverseRecOn with
  | nil => simp
  | append_singleton xs x ih =>
    rw [eraseDups_concat]
    split
    · exact ih
    · next hx => rw [eraseDups_concat, if_neg (by rwa [List.mem_eraseDups]), ih]

theorem nodup_eraseDups (xs : List α) : xs.eraseDups.Nodup := by
  classical
  induction xs using List.reverseRecOn with
  | nil => simp
  | append_singleton xs x ih =>
    rw [eraseDups_concat]
    split
    · exact ih
    · next hx =>
      rw [← List.concat_eq_append]
      exact ih.concat (by rwa [List.mem_eraseDups])

end

structure Pick where
  label : String
  column : String
  function : Option ColumnFunction

namespace Pick

def aggregates (p : Pick) : Bool := p.function.any ColumnFunction.isAggregate

def expression (δ : Dialect) (p : Pick) : String :=
  match p.function with
  | none => p.column
  | some f => f.sql δ p.column

def field (δ : Dialect) (p : Pick) : Field := ⟨p.expression δ, some p.label⟩

def plain (picks : List Pick) : List String :=
  (picks.filter fun p => !p.aggregates).map Pick.column

end Pick

def Leads (s : Setting) (aliases : List String) (path : String) (d : Destination) (x : String) :
    Prop :=
  s.schema.destination s.root path = .ok d ∧ ∃ a ∈ aliases, x = qualified a d.leaf.column

inductive Selects (s : Setting) (base : String) (aliases : List String) :
    List (String × Leaf) → List Pick → Prop
  | nil : Selects s base aliases [] []
  | column {path label d x rest picks} : Leads s aliases (Path.under base path) d x →
    Selects s base aliases rest picks →
    Selects s base aliases ((path, .column label) :: rest)
      (⟨label, x, if d.tail then some .groupConcat else none⟩ :: picks)
  | field {path leaf d x rest picks} : Leads s aliases (Path.under base path) d x →
    Selects s base aliases rest picks →
    Selects s base aliases ((path, .field leaf) :: rest) (⟨leaf.label, x, leaf.function⟩ :: picks)
  | list {path options inner rest picks} : Selects s base aliases rest picks →
    Selects s base aliases ((path, .list options inner) :: rest) picks

section

variable {s : Setting} {base path : String} {aliases aliases' : List String}
  {leaves leaves' : List (String × Leaf)} {picks picks' : List Pick}

theorem Leads.mono (h : aliases ⊆ aliases') {d : Destination} {x : String}
    (hl : Leads s aliases path d x) : Leads s aliases' path d x := by
  obtain ⟨hd, a, ha, hx⟩ := hl
  exact ⟨hd, a, h ha, hx⟩

theorem Selects.mono (h : aliases ⊆ aliases') (hs : Selects s base aliases leaves picks) :
    Selects s base aliases' leaves picks := by
  induction hs with
  | nil => exact .nil
  | column hl _ ih => exact .column (hl.mono h) ih
  | field hl _ ih => exact .field (hl.mono h) ih
  | list _ ih => exact .list ih

theorem Selects.append (h : Selects s base aliases leaves picks)
    (h' : Selects s base aliases leaves' picks') :
    Selects s base aliases (leaves ++ leaves') (picks ++ picks') := by
  induction h with
  | nil => exact h'
  | column hl _ ih => exact .column hl ih
  | field hl _ ih => exact .field hl ih
  | list _ ih => exact .list ih

end

namespace Compilation

variable {s : Setting} {base path label x : String} {mode : JoinMode}
  {waiting : Option ScopedPredicate} {leaves : List (String × Leaf)} {picks : List Pick}
  {p : Pick} {c c' : Compilation} {t : Planning} {r : Resolved}

/-- A compilation before its columns are grouped. -/
structure Gathered (s : Setting) (base : String) (leaves : List (String × Leaf))
    (picks : List Pick) (c : Compilation) : Prop where
  selects : Selects s base c.query.source.aliases leaves picks
  fields : c.query.fields = picks.map (Pick.field s.dialect)
  primitives : c.primitives = (Pick.plain picks).eraseDups
  groupBy : c.query.source.groupBy = []
  having : c.query.source.having = none
  grouped : c.grouped = false
  orderly : (c.planning none).Orderly

theorem Gathered.planned (h : Gathered s base leaves picks c)
    (hrun : Planning.Run s.schema s.root mode (c.planning waiting) t) :
    Gathered s base leaves picks (c.planned t) := by
  have horderly : (c.planning waiting).Orderly := h.orderly.awaiting waiting
  have hkeeps := keeps_planned hrun
  exact {
    selects := h.selects.mono hkeeps.aliases
    fields := hkeeps.fields.trans h.fields
    primitives := h.primitives
    groupBy := hkeeps.groupBy.trans h.groupBy
    having := (hkeeps.having h.grouped).trans h.having
    grouped := h.grouped
    orderly := (horderly.run hrun).awaiting none }

theorem Gathered.arrived (h : Gathered s base leaves picks c)
    (harrived : Arrived s path mode (c.planning waiting) t r) :
    ∃ d, Leads s (c.planned t).query.source.aliases path d r.column ∧ r.tail = d.tail := by
  obtain ⟨d, there, hd, hthere, rfl⟩ := harrived.column
  have hmem := (h.planned harrived.run).orderly.recorded hthere.alias_mem
  exact ⟨d, ⟨hd, there.tableAlias, hmem, rfl⟩, rfl⟩

theorem Gathered.resolved (h : Gathered s base leaves picks c)
    (harrived : Arrived s path mode (c.planning waiting) t r) :
    ∃ d tableAlias, Leads s (c.planned t).query.source.aliases path d r.column ∧
      r = d.under tableAlias := by
  obtain ⟨d, hleads, -⟩ := h.arrived harrived
  obtain ⟨d', there, hd', -, hr⟩ := harrived.column
  cases hleads.1.symm.trans hd'
  exact ⟨d, there.tableAlias, hleads, hr⟩

structure Kept (c c' : Compilation) : Prop where
  plan : c'.plan = c.plan
  query : c'.query = c.query
  primitives : c'.primitives = c.primitives
  grouped : c'.grouped = c.grouped

theorem Gathered.kept (h : Gathered s base leaves picks c) (hk : Kept c c') :
    Gathered s base leaves picks c' := by
  obtain ⟨plan, query, primitives, handlers, nested, dependencies, middlewares, grouped⟩ := c'
  obtain ⟨rfl, rfl, rfl, rfl⟩ := hk
  exact ⟨h.selects, h.fields, h.primitives, h.groupBy, h.having, h.grouped, h.orderly⟩

theorem Gathered.withMiddlewares (h : Gathered s base leaves picks c)
    (middlewares : List Middleware) :
    Gathered s base leaves picks { c with middlewares } :=
  h.kept ⟨rfl, rfl, rfl, rfl⟩

structure Picked (δ : Dialect) (p : Pick) (c c' : Compilation) : Prop where
  plan : c'.plan = c.plan
  query : c'.query = c.query.field (p.expression δ) p.label
  primitives : c'.primitives = if p.aggregates || p.column ∈ c.primitives then c.primitives
    else c.primitives ++ [p.column]
  grouped : c'.grouped = c.grouped

theorem eraseDups_plain_concat (picks : List Pick) (p : Pick) :
    (Pick.plain (picks ++ [p])).eraseDups
      = if p.aggregates || p.column ∈ (Pick.plain picks).eraseDups then (Pick.plain picks).eraseDups
        else (Pick.plain picks).eraseDups ++ [p.column] := by
  unfold Pick.plain
  rw [List.filter_append, List.map_append]
  cases hp : p.aggregates with
  | true => simp [hp]
  | false =>
    have hlast : ([p].filter fun p => !p.aggregates).map Pick.column = [p.column] := by simp [hp]
    rw [hlast, eraseDups_concat]
    simp only [Bool.false_or, decide_eq_true_eq, List.mem_eraseDups]

theorem Gathered.fields_picked (h : Gathered s base leaves picks c)
    (hp : Picked s.dialect p c c') :
    c'.query.fields = (picks ++ [p]).map (Pick.field s.dialect) := by
  rw [hp.query, List.map_append, ← h.fields]
  rfl

theorem Gathered.primitives_picked (h : Gathered s base leaves picks c)
    (hp : Picked s.dialect p c c') :
    c'.primitives = (Pick.plain (picks ++ [p])).eraseDups := by
  rw [hp.primitives, eraseDups_plain_concat, ← h.primitives]

theorem Gathered.picked (h : Gathered s base leaves picks c) (hp : Picked s.dialect p c c')
    {l : String × Leaf} (hl : Selects s base c.query.source.aliases [l] [p]) :
    Gathered s base (leaves ++ [l]) (picks ++ [p]) c' := by
  have hfields := h.fields_picked hp
  have hprimitives := h.primitives_picked hp
  have horderly := h.orderly
  obtain ⟨plan, query, primitives, handlers, nested, dependencies, middlewares, grouped⟩ := c'
  obtain ⟨rfl, rfl, -, rfl⟩ := hp
  exact ⟨h.selects.append hl, hfields, hprimitives, h.groupBy, h.having, h.grouped,
    ⟨horderly.recorded, horderly.numbered, horderly.distinct, horderly.inScope⟩⟩

theorem addPrimitive_apply (x : String) (c : Compilation) :
    addPrimitive x c = (.ok ⟨⟩, { c with
      primitives := if x ∈ c.primitives then c.primitives else c.primitives ++ [x] }) := by
  unfold addPrimitive
  rw [modify_apply]
  by_cases hx : x ∈ c.primitives
  · rw [if_pos hx, if_pos hx]
  · rw [if_neg hx, if_neg hx]

theorem picked_selectPlain {δ : Dialect} {type : Option SqlType}
    (h : selectPlain x label type c = (.ok ⟨⟩, c')) : Picked δ ⟨label, x, none⟩ c c' := by
  unfold selectPlain onQuery at h
  rw [bind_of_ok (modify_apply _ c), bind_of_ok (addPrimitive_apply x _)] at h
  cases h
  exact ⟨rfl, rfl, by simp [Pick.aggregates], rfl⟩

theorem picked_selectFunction {f : ColumnFunction}
    (h : selectFunction s label r f c = (.ok ⟨⟩, c')) :
    Picked s.dialect ⟨label, r.column, some f⟩ c c' := by
  unfold selectFunction onQuery at h
  rw [bind_of_ok (modify_apply _ c)] at h
  cases hf : f.isAggregate with
  | true =>
    rw [hf] at h
    cases h
    exact ⟨rfl, rfl, by simp [Pick.aggregates, hf], rfl⟩
  | false =>
    rw [hf] at h
    change (addPrimitive r.column >>= fun _ => _) _ = _ at h
    rw [bind_of_ok (addPrimitive_apply r.column _)] at h
    cases h
    exact ⟨rfl, rfl, by simp [Pick.aggregates, hf], rfl⟩

theorem picked_selectResolved {leaf : FieldLeaf} (h : selectResolved s leaf r c = (.ok ⟨⟩, c')) :
    Picked s.dialect ⟨leaf.label, r.column, leaf.function⟩ c c' := by
  unfold selectResolved at h
  cases hf : leaf.function with
  | none =>
    rw [hf] at h
    exact picked_selectPlain h
  | some f =>
    rw [hf] at h
    exact picked_selectFunction h

theorem kept_takeFromPool {name : String} {v : Option Value}
    (h : takeFromPool name c = (.ok v, c')) : Kept c c' := by
  cases h
  exact ⟨rfl, rfl, rfl, rfl⟩

theorem kept_dependency {entity : String} {i : Nat} (h : dependency entity c = (.ok i, c')) :
    Kept c c' := by
  unfold dependency at h
  rw [bind_of_ok (get_apply c)] at h
  cases hi : c.dependencies.idxOf? entity with
  | some i =>
    rw [hi] at h
    cases h
    exact ⟨rfl, rfl, rfl, rfl⟩
  | none =>
    rw [hi] at h
    cases h
    exact ⟨rfl, rfl, rfl, rfl⟩

theorem kept_takeScoped {leaf : FieldLeaf} {applied : Bool} {v : Option Value}
    (h : takeScoped leaf applied c = (.ok v, c')) : Kept c c' := by
  cases applied with
  | false =>
    cases h
    exact ⟨rfl, rfl, rfl, rfl⟩
  | true =>
    unfold takeScoped at h
    cases hk : leaf.criterion with
    | none =>
      rw [hk] at h
      cases h
      exact ⟨rfl, rfl, rfl, rfl⟩
    | some k =>
      rw [hk] at h
      exact kept_takeFromPool h

theorem kept_deferList {parent : String} {options : NestedOptions} {inner : Projection}
    (h : deferList path parent options inner c = (.ok ⟨⟩, c')) : Kept c c' := by
  unfold deferList at h
  obtain ⟨v, u, hu, h⟩ := bind_ok h
  have hkept : Kept c u := by
    unfold takeCriteria at hu
    cases hcriteria : options.criteria with
    | none =>
      rw [hcriteria] at hu
      cases hu
      exact ⟨rfl, rfl, rfl, rfl⟩
    | some criteria =>
      rw [hcriteria] at hu
      exact kept_takeFromPool hu
  cases h
  exact ⟨hkept.plan, hkept.query, hkept.primitives, hkept.grouped⟩

theorem picked_selectSiblings (h : selectSiblings s path label r c = (.ok ⟨⟩, c')) :
    Picked s.dialect ⟨label, r.column, some .groupConcat⟩ c c' := by
  unfold selectSiblings at h
  by_cases hcached : s.cached r.entity = true
  · rw [if_pos hcached] at h
    obtain ⟨position, u, hu, h⟩ := bind_ok h
    have hkept := kept_dependency hu
    have hpicked : Picked s.dialect ⟨label, r.column, some .groupConcat⟩ c
        { u with query := u.query.field (s.dialect.groupConcat r.column) label } :=
      ⟨hkept.plan, by rw [hkept.query]; rfl, hkept.primitives, hkept.grouped⟩
    unfold onQuery at h
    rw [bind_of_ok (modify_apply _ u)] at h
    by_cases hdotted : Handler.isDotted label = true
    · rw [if_pos hdotted] at h
      cases h
      exact ⟨hpicked.plan, hpicked.query, hpicked.primitives, hpicked.grouped⟩
    · rw [if_neg hdotted] at h
      cases h
      exact ⟨hpicked.plan, hpicked.query, hpicked.primitives, hpicked.grouped⟩
  · rw [if_neg hcached] at h
    cases h

theorem Gathered.column {b : Bool} (h : Gathered s base leaves picks c)
    (hl : selectColumn s (Path.under base path) mode label c = (.ok b, c')) :
    ∃ p, Gathered s base (leaves ++ [(path, .column label)]) (picks ++ [p]) c' ∧
      b = p.aggregates := by
  unfold selectColumn at hl
  obtain ⟨r, u, hr, hl⟩ := bind_ok hl
  obtain ⟨_, v, hv, hl⟩ := bind_ok hl
  cases hl
  obtain ⟨t, harrived, rfl⟩ := resolve_ok hr
  obtain ⟨d, hleads, htail⟩ := h.arrived harrived
  have hselects : Selects s base _ [(path, .column label)] _ := .column hleads .nil
  refine ⟨_, (h.planned harrived.run).picked ?_ hselects, ?_⟩
  · cases hr : r.tail with
    | true =>
      rw [hr] at hv htail
      rw [← htail]
      exact picked_selectSiblings hv
    | false =>
      rw [hr] at hv htail
      rw [← htail]
      exact picked_selectPlain hv
  · rw [htail]
    cases d.tail <;> rfl

theorem Gathered.field {b : Bool} {leaf : FieldLeaf} (h : Gathered s base leaves picks c)
    (hl : selectField s (Path.under base path) base mode leaf c = (.ok b, c')) :
    ∃ p, Gathered s base (leaves ++ [(path, .field leaf)]) (picks ++ [p]) c' ∧
      b = p.aggregates := by
  unfold selectField at hl
  rw [bind_of_ok (get_apply c)] at hl
  obtain ⟨⟨r, applied⟩, u, hr, hl⟩ := bind_ok hl
  obtain ⟨_, v, hv, hl⟩ := bind_ok hl
  obtain ⟨_, w, hw, hl⟩ := bind_ok hl
  cases hl
  obtain ⟨t, harrived, rfl, -⟩ := resolveScoped_ok hr
  obtain ⟨d, hleads, -⟩ := h.arrived harrived
  have hkept := kept_takeScoped hv
  have hselects : Selects s base _ [(path, .field leaf)] _ := .field hleads .nil
  rw [← hkept.query] at hselects
  exact ⟨_, ((h.planned harrived.run).kept hkept).picked (picked_selectResolved hw) hselects, rfl⟩

theorem Gathered.list {options : NestedOptions} {inner : Projection}
    (h : Gathered s base leaves picks c) (hk : Kept c c') :
    Gathered s base (leaves ++ [(path, .list options inner)]) picks c' := by
  have hkept := h.kept hk
  have hnone : Selects s base c'.query.source.aliases [(path, .list options inner)] [] := .list .nil
  have hselects := hkept.selects.append hnone
  rw [List.append_nil] at hselects
  exact { hkept with selects := hselects }

theorem Gathered.leaf {l : String × Leaf} {b : Bool} (h : Gathered s base leaves picks c)
    (hl : Compilation.leaf s base mode l c = (.ok b, c')) :
    ∃ more, Gathered s base (leaves ++ [l]) (picks ++ more) c' ∧ b = more.any Pick.aggregates := by
  obtain ⟨path, l⟩ := l
  cases l with
  | column label =>
    obtain ⟨p, hp, rfl⟩ := h.column hl
    exact ⟨[p], hp, by simp⟩
  | field leaf =>
    obtain ⟨p, hp, rfl⟩ := h.field hl
    exact ⟨[p], hp, by simp⟩
  | list options inner =>
    obtain ⟨_, u, hu, hl⟩ := bind_ok hl
    cases hl
    refine ⟨[], ?_, rfl⟩
    rw [List.append_nil]
    exact h.list (kept_deferList hu)

theorem Gathered.mapM {ls : List (String × Leaf)} {bs : List Bool}
    (h : Gathered s base leaves picks c)
    (hl : ls.mapM (Compilation.leaf s base mode) c = (.ok bs, c')) :
    ∃ more, Gathered s base (leaves ++ ls) (picks ++ more) c' ∧
      bs.any id = more.any Pick.aggregates := by
  induction ls generalizing leaves picks c bs with
  | nil =>
    cases hl
    exact ⟨[], by simpa using h, rfl⟩
  | cons l ls ih =>
    obtain ⟨b, u, bs', hb, hbs, rfl⟩ := mapM_cons_ok hl
    obtain ⟨first, hfirst, rfl⟩ := h.leaf hb
    obtain ⟨rest, hrest, hany⟩ := ih hfirst hbs
    refine ⟨first ++ rest, by simpa using hrest, ?_⟩
    rw [List.any_cons, List.any_append, hany]
    rfl

end Compilation

end RecordQuery
