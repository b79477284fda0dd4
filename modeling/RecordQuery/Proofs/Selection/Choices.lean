import RecordQuery.Proofs.Selection.Picks

namespace RecordQuery

/-- What a leaf selects, and how the answers are read. -/
structure Choice extends Pick where
  type : Option SqlType
  sibling : Option String

namespace Choice

/-- The type of a column, or of a function of it. Concatenated values have none. -/
def typeOf (column : SqlType) : Option ColumnFunction → Option SqlType
  | some .count => some .bigInt
  | some .groupConcat => none
  | none | some .sum | some (.convert _) => some column

def coercible : List SqlType := [.bigInt, .integer, .smallInt, .boolean]

def coercion? (label : String) (type : Option SqlType) : Option (String × SqlType) :=
  if Handler.isDotted label then none
  else (type.filter (· ∈ coercible)).map fun τ => (label, τ)

inductive Replacing (dependencies : List String) (label : String) :
    Option String → List Handler → Prop
  | values : Replacing dependencies label none []
  | siblings {entity i} : dependencies[i]? = some entity →
    Replacing dependencies label (some entity) [.denormalize label i]

inductive Reading (label : String) (type : Option SqlType) : List Handler → Prop
  | unflatten : Handler.isDotted label = true → Reading label type [.unflatten label type]
  | coerce {τ} : Handler.isDotted label = false → type = some τ → τ ∈ coercible →
    Reading label type [.coerce label τ]
  | plain : Handler.isDotted label = false → (∀ τ, type = some τ → τ ∉ coercible) →
    Reading label type []

inductive Handled (dependencies : List String) (x : Choice) : List Handler → Prop
  | intro {replacing reading} : Replacing dependencies x.label x.sibling replacing →
    Reading x.label x.type reading → Handled dependencies x (replacing ++ reading)

inductive Attended (dependencies : List String) : List Choice → List Handler → Prop
  | nil : Attended dependencies [] []
  | cons {x choices handlers rest} : Handled dependencies x handlers →
    Attended dependencies choices rest → Attended dependencies (x :: choices) (handlers ++ rest)

end Choice

namespace Handler

def unflattened? : Handler → Option (String × Option SqlType)
  | .unflatten label type => some (label, type)
  | _ => none

def coerced? : Handler → Option (String × SqlType)
  | .coerce label τ => some (label, τ)
  | _ => none

end Handler

theorem SqlType.needsCoercion_iff (τ : SqlType) :
    τ.needsCoercion = true ↔ τ ∈ Choice.coercible := by
  cases τ <;> decide

theorem ColumnFunction.resultType_eq (type : SqlType) (f : ColumnFunction) :
    f.resultType type = Choice.typeOf type (some f) := by
  cases f <;> rfl

namespace Choice

variable {dependencies dependencies' : List String} {label label' : String}
  {type : Option SqlType} {sibling : Option String} {x : Choice} {choices choices' : List Choice}
  {handlers handlers' replacing reading : List Handler} {i : Nat}

theorem reading_forColumn (label : String) (type : Option SqlType) :
    Reading label type (Handler.forColumn? label type).toList := by
  unfold Handler.forColumn?
  cases hdotted : Handler.isDotted label with
  | true => exact .unflatten hdotted
  | false =>
    cases type with
    | none => exact .plain hdotted nofun
    | some τ =>
      rw [if_neg Bool.false_ne_true]
      cases hτ : τ.needsCoercion with
      | true =>
        rw [Option.filter_some_pos hτ]
        exact .coerce hdotted rfl (τ.needsCoercion_iff.1 hτ)
      | false =>
        rw [Option.filter_some_neg (by simp [hτ])]
        have hnot : τ ∉ coercible := by simp [← τ.needsCoercion_iff, hτ]
        exact .plain hdotted fun _ hsame => Option.some.inj hsame ▸ hnot

section

variable (hpre : dependencies <+: dependencies')
include hpre

theorem Replacing.mono (h : Replacing dependencies label sibling handlers) :
    Replacing dependencies' label sibling handlers := by
  cases h with
  | values => exact .values
  | siblings hi =>
    obtain ⟨hlt, rfl⟩ := List.getElem?_eq_some_iff.1 hi
    exact .siblings (List.prefix_iff_getElem?.1 hpre _ hlt)

theorem Attended.mono (h : Attended dependencies choices handlers) :
    Attended dependencies' choices handlers := by
  induction h with
  | nil => exact .nil
  | cons hx _ ih =>
    obtain ⟨hreplacing, hreading⟩ := hx
    exact .cons ⟨hreplacing.mono hpre, hreading⟩ ih

end

theorem Attended.append (h : Attended dependencies choices handlers)
    (h' : Attended dependencies choices' handlers') :
    Attended dependencies (choices ++ choices') (handlers ++ handlers') := by
  induction h with
  | nil => exact h'
  | cons hx _ ih =>
    rw [List.append_assoc]
    exact .cons hx ih

theorem Replacing.denormalize (h : Replacing dependencies label' sibling replacing)
    (hi : .denormalize label i ∈ replacing) :
    label' = label ∧ ∃ entity, sibling = some entity ∧ dependencies[i]? = some entity := by
  cases h with
  | values => cases hi
  | @siblings entity _ hentity =>
    cases List.mem_singleton.1 hi
    exact ⟨rfl, entity, rfl, hentity⟩

theorem Replacing.filterMap (h : Replacing dependencies label sibling replacing) :
    replacing.filterMap Handler.unflattened? = [] ∧ replacing.filterMap Handler.coerced? = [] := by
  cases h <;> exact ⟨rfl, rfl⟩

theorem Reading.not_denormalize (h : Reading label' type reading) :
    .denormalize label i ∉ reading := by
  cases h <;> simp

theorem Reading.unflattened (h : Reading label type reading) :
    reading.filterMap Handler.unflattened?
      = if Handler.isDotted label then [(label, type)] else [] := by
  cases h with
  | unflatten hdotted => rw [if_pos hdotted]; rfl
  | coerce hdotted | plain hdotted => rw [hdotted]; rfl

theorem Reading.coerced (h : Reading label type reading) :
    reading.filterMap Handler.coerced? = (coercion? label type).toList := by
  unfold coercion?
  cases h with
  | unflatten hdotted => rw [if_pos hdotted]; rfl
  | coerce hdotted htype hτ =>
    rw [hdotted, htype, if_neg Bool.false_ne_true, Option.filter_some_pos (by simpa using hτ)]
    rfl
  | plain hdotted hτ =>
    rw [hdotted, if_neg Bool.false_ne_true, Option.filter_eq_none_iff.2 (by simpa using hτ)]
    rfl

theorem Handled.denormalize (h : Handled dependencies x handlers)
    (hi : .denormalize label i ∈ handlers) : x.label = label ∧
      ∃ entity, x.sibling = some entity ∧ dependencies[i]? = some entity := by
  obtain ⟨hreplacing, hreading⟩ := h
  refine hreplacing.denormalize ((List.mem_append.1 hi).resolve_right ?_)
  exact hreading.not_denormalize

theorem Handled.unflattened (h : Handled dependencies x handlers) :
    handlers.filterMap Handler.unflattened?
      = if Handler.isDotted x.label then [(x.label, x.type)] else [] := by
  obtain ⟨hreplacing, hreading⟩ := h
  rw [List.filterMap_append, hreplacing.filterMap.1, hreading.unflattened, List.nil_append]

theorem Handled.coerced (h : Handled dependencies x handlers) :
    handlers.filterMap Handler.coerced? = (coercion? x.label x.type).toList := by
  obtain ⟨hreplacing, hreading⟩ := h
  rw [List.filterMap_append, hreplacing.filterMap.2, hreading.coerced, List.nil_append]

theorem Attended.denormalize (h : Attended dependencies choices handlers)
    (hi : .denormalize label i ∈ handlers) :
    ∃ x ∈ choices, x.label = label ∧
      ∃ entity, x.sibling = some entity ∧ dependencies[i]? = some entity := by
  induction h with
  | nil => cases hi
  | @cons x choices _ _ hx _ ih =>
    rcases List.mem_append.1 hi with hi | hi
    · exact ⟨x, List.mem_cons_self, hx.denormalize hi⟩
    · obtain ⟨y, hy, hentity⟩ := ih hi
      exact ⟨y, List.mem_cons_of_mem x hy, hentity⟩

theorem Attended.unflattened (h : Attended dependencies choices handlers) :
    handlers.filterMap Handler.unflattened?
      = (choices.filter fun x => Handler.isDotted x.label).map fun x => (x.label, x.type) := by
  induction h with
  | nil => rfl
  | @cons x _ _ _ hx _ ih =>
    rw [List.filterMap_append, hx.unflattened, ih, List.filter_cons]
    split <;> rfl

theorem Attended.coerced (h : Attended dependencies choices handlers) :
    handlers.filterMap Handler.coerced?
      = choices.filterMap fun x => coercion? x.label x.type := by
  induction h with
  | nil => rfl
  | @cons x _ _ _ hx _ ih =>
    rw [List.filterMap_append, hx.coerced, ih, List.filterMap_cons]
    cases coercion? x.label x.type <;> rfl

end Choice

/-- What leaves choose. A column whose path ends in an association is concatenated, if the entity
there has a cached list. -/
inductive Chooses (s : Setting) (base : String) (aliases : List String) :
    List (String × Leaf) → List Choice → Prop
  | nil : Chooses s base aliases [] []
  | column {path label d x rest choices} : Leads s aliases (Path.under base path) d x →
    d.tail = false → Chooses s base aliases rest choices →
    Chooses s base aliases ((path, .column label) :: rest)
      (⟨⟨label, x, none⟩, Choice.typeOf d.leaf.type none, none⟩ :: choices)
  | siblings {path label d x rest choices} : Leads s aliases (Path.under base path) d x →
    d.tail = true → s.cached d.entity.name = true → Chooses s base aliases rest choices →
    Chooses s base aliases ((path, .column label) :: rest)
      (⟨⟨label, x, some .groupConcat⟩, none, some d.entity.name⟩ :: choices)
  | field {path leaf d x rest choices} : Leads s aliases (Path.under base path) d x →
    Chooses s base aliases rest choices →
    Chooses s base aliases ((path, .field leaf) :: rest)
      (⟨⟨leaf.label, x, leaf.function⟩, Choice.typeOf d.leaf.type leaf.function, none⟩ :: choices)
  | list {path options inner rest choices} : Chooses s base aliases rest choices →
    Chooses s base aliases ((path, .list options inner) :: rest) choices

section

variable {s : Setting} {base : String} {aliases aliases' : List String}
  {leaves leaves' : List (String × Leaf)} {choices choices' : List Choice} {x : Choice}
  {entity : String}

theorem Chooses.mono (h : aliases ⊆ aliases') (hc : Chooses s base aliases leaves choices) :
    Chooses s base aliases' leaves choices := by
  induction hc with
  | nil => exact .nil
  | column hl htail _ ih => exact .column (hl.mono h) htail ih
  | siblings hl htail hcached _ ih => exact .siblings (hl.mono h) htail hcached ih
  | field hl _ ih => exact .field (hl.mono h) ih
  | list _ ih => exact .list ih

theorem Chooses.append (h : Chooses s base aliases leaves choices)
    (h' : Chooses s base aliases leaves' choices') :
    Chooses s base aliases (leaves ++ leaves') (choices ++ choices') := by
  induction h with
  | nil => exact h'
  | column hl htail _ ih => exact .column hl htail ih
  | siblings hl htail hcached _ ih => exact .siblings hl htail hcached ih
  | field hl _ ih => exact .field hl ih
  | list _ ih => exact .list ih

theorem Chooses.selects (h : Chooses s base aliases leaves choices) :
    Selects s base aliases leaves (choices.map Choice.toPick) := by
  induction h with
  | nil => exact .nil
  | column hl htail _ ih => simpa [htail] using Selects.column hl ih
  | siblings hl htail _ _ ih => simpa [htail] using Selects.column hl ih
  | field hl _ ih => exact .field hl ih
  | list _ ih => exact .list ih

theorem Chooses.of_mem (h : Chooses s base aliases leaves choices) (hx : x ∈ choices) :
    ∃ l ∈ leaves, Chooses s base aliases [l] [x] := by
  have hmore : ∀ {l : String × Leaf} {rest : List (String × Leaf)},
      (∃ l' ∈ rest, Chooses s base aliases [l'] [x]) →
        ∃ l' ∈ l :: rest, Chooses s base aliases [l'] [x] :=
    fun ⟨l', hl', hone⟩ => ⟨l', List.mem_cons_of_mem _ hl', hone⟩
  induction h with
  | nil => cases hx
  | column hl htail _ ih =>
    rcases List.mem_cons.1 hx with rfl | hx
    · exact ⟨_, List.mem_cons_self, .column hl htail .nil⟩
    · exact hmore (ih hx)
  | siblings hl htail hcached _ ih =>
    rcases List.mem_cons.1 hx with rfl | hx
    · exact ⟨_, List.mem_cons_self, .siblings hl htail hcached .nil⟩
    · exact hmore (ih hx)
  | field hl _ ih =>
    rcases List.mem_cons.1 hx with rfl | hx
    · exact ⟨_, List.mem_cons_self, .field hl .nil⟩
    · exact hmore (ih hx)
  | list _ ih => exact hmore (ih hx)

theorem Chooses.sibling (h : Chooses s base aliases leaves choices) (hx : x ∈ choices)
    (hentity : x.sibling = some entity) : s.cached entity = true ∧
      ∃ path d, (path, .column x.label) ∈ leaves ∧
        s.schema.destination s.root (Path.under base path) = .ok d ∧ d.tail = true ∧
        d.entity.name = entity := by
  obtain ⟨l, hmem, hone⟩ := h.of_mem hx
  cases hone with
  | column | field => cases hentity
  | siblings hl htail hcached =>
    cases hentity
    exact ⟨hcached, _, _, hmem, hl.1, htail, rfl⟩
  | list hnil => cases hnil

end

end RecordQuery
