import Mathlib.Data.List.Nodup
import RecordQuery.Proofs.Joining.Destination
import RecordQuery.Schema.Tables

namespace RecordQuery

open Steps

def Relation.link? : Relation → Option LinkTable
  | .manyToMany l => some l
  | .belongsTo | .hasOne | .hasMany => none

namespace Table

def names (t : Table) : List String := t.columns.map Column.name

variable {columns extra : List Column} {c : Column} {x : String}

theorem mem_addColumn :
    x ∈ (addColumn columns c).map Column.name ↔ x ∈ columns.map Column.name ∨ x = c.name := by
  unfold addColumn
  split
  · next h =>
    have hmem : c.name ∈ columns.map Column.name := by simpa using h
    refine ⟨.inl, ?_⟩
    rintro (hx | rfl)
    · exact hx
    · exact hmem
  · simp

theorem nodup_addColumn :
    ((addColumn columns c).map Column.name).Nodup ↔ (columns.map Column.name).Nodup := by
  unfold addColumn
  split
  · exact Iff.rfl
  · next h =>
    have hnot : c.name ∉ columns.map Column.name := by simpa using h
    rw [List.map_append, List.map_singleton, List.nodup_append]
    refine ⟨And.left, fun hnodup => ⟨hnodup, by simp, ?_⟩⟩
    rintro a ha b hb rfl
    exact hnot (List.mem_singleton.1 hb ▸ ha)

theorem mem_foldl_addColumn : x ∈ (extra.foldl addColumn columns).map Column.name ↔
    x ∈ columns.map Column.name ∨ x ∈ extra.map Column.name := by
  induction extra generalizing columns with
  | nil => simp
  | cons c extra ih =>
    rw [List.foldl_cons, ih, mem_addColumn, List.map_cons, List.mem_cons, or_assoc]

theorem nodup_foldl_addColumn :
    ((extra.foldl addColumn columns).map Column.name).Nodup ↔ (columns.map Column.name).Nodup := by
  induction extra generalizing columns with
  | nil => exact Iff.rfl
  | cons c extra ih => rw [List.foldl_cons, ih, nodup_addColumn]

end Table

def Created (ts : List Table) (table column : String) : Prop :=
  ∃ t, ts.find? (·.name == table) = some t ∧ column ∈ t.names

theorem Table.find_of_name {ts : List Table} {name : String} (h : name ∈ ts.map Table.name) :
    ∃ t ∈ ts, ts.find? (·.name == name) = some t ∧ t.name = name := by
  obtain ⟨t, ht, rfl⟩ := List.mem_map.1 h
  have hsome : (ts.find? (·.name == t.name)).isSome := List.find?_isSome.2 ⟨t, ht, by simp⟩
  obtain ⟨t', ht'⟩ := Option.isSome_iff_exists.1 hsome
  exact ⟨t', List.mem_of_find?_eq_some ht', ht', by simpa using List.find?_some ht'⟩

theorem Table.find_of_nodup {ts : List Table} {t : Table} (h : (ts.map Table.name).Nodup)
    (ht : t ∈ ts) : ts.find? (·.name == t.name) = some t := by
  obtain ⟨t', ht', hfind, hname⟩ := find_of_name (List.mem_map_of_mem ht)
  rw [hfind, List.inj_on_of_nodup_map h ht' ht hname]

namespace Schema

variable {σ : Schema} {e owner : Entity} {a : Association} {l : LinkTable} {st : Storage}
  {storages : List Storage} {own : List Table} {t : Table} {x : String}

inductive Keeps (σ : Schema) (e : Entity) (a : Association) : Entity → Prop
  | source : a.relation = .belongsTo → Keeps σ e a e
  | target {owner : Entity} : a.relation = .hasOne ∨ a.relation = .hasMany →
    σ.entity a.target = .ok owner → Keeps σ e a owner

def links (σ : Schema) : List LinkTable :=
  σ.entities.flatMap fun e => e.associations.filterMap (·.relation.link?)

theorem mem_links :
    l ∈ σ.links ↔ ∃ e ∈ σ.entities, ∃ a ∈ e.associations, a.relation = .manyToMany l := by
  have hlink : ∀ r : Relation, r.link? = some l ↔ r = .manyToMany l := by
    intro r
    cases r <;> simp [Relation.link?]
  simp only [links, List.mem_flatMap, List.mem_filterMap, hlink]

/-- A column that the entities and associations of a schema put into a table. -/
inductive Stored (σ : Schema) : String → String → Prop
  | own {e : Entity} {a : Attribute} : e ∈ σ.entities → a ∈ e.attributes →
    Stored σ e.table a.column
  | deleted {e : Entity} {column : String} : e ∈ σ.entities → e.softDelete = some column →
    Stored σ e.table column
  | foreign {e owner : Entity} {a : Association} : e ∈ σ.entities → a ∈ e.associations →
    σ.Keeps e a owner → Stored σ owner.table a.foreignKey
  | linkSource {l : LinkTable} : l ∈ σ.links → Stored σ l.table l.sourceColumn
  | linkTarget {l : LinkTable} : l ∈ σ.links → Stored σ l.table l.targetColumn

inductive Asks (σ : Schema) (e : Entity) (a : Association) : Storage → Prop
  | column {owner : Entity} {c : Column} : σ.Keeps e a owner → c.name = a.foreignKey →
    Asks σ e a (.column owner.name c)
  | link {l : LinkTable} {t : Table} : a.relation = .manyToMany l → t.name = l.table →
    t.names = [l.sourceColumn, l.targetColumn] → Asks σ e a (.link t)

theorem asks_of_storage (h : σ.storage e a = .ok st) : σ.Asks e a st := by
  unfold storage at h
  obtain ⟨target, ht, h⟩ := except_bind_ok h
  cases hr : a.relation with
  | belongsTo =>
    rw [hr] at h
    obtain ⟨key, -, h⟩ := except_bind_ok h
    cases h
    exact .column (.source hr) rfl
  | hasOne =>
    rw [hr] at h
    obtain ⟨key, -, h⟩ := except_bind_ok h
    cases h
    exact .column (.target (.inl hr) ht) rfl
  | hasMany =>
    rw [hr] at h
    obtain ⟨key, -, h⟩ := except_bind_ok h
    cases h
    exact .column (.target (.inr hr) ht) rfl
  | manyToMany l =>
    rw [hr] at h
    obtain ⟨source, -, h⟩ := except_bind_ok h
    obtain ⟨destination, -, h⟩ := except_bind_ok h
    cases h
    exact .link hr rfl rfl

theorem Keyed.storage {target : Entity} (h : σ.Keyed e a target) :
    ∃ st, σ.storage e a = .ok st := by
  obtain ⟨source, hsource⟩ := h.source
  obtain ⟨destination, hdestination⟩ := h.destination
  unfold Schema.storage
  rw [h.entity]
  cases hr : a.relation with
  | belongsTo =>
    change ∃ st, (target.key a.targetKey >>= fun key => _) = Except.ok st
    rw [hdestination]
    exact ⟨_, rfl⟩
  | hasOne | hasMany =>
    change ∃ st, (e.key a.sourceKey >>= fun key => _) = Except.ok st
    rw [hsource]
    exact ⟨_, rfl⟩
  | manyToMany l =>
    change ∃ st, (e.key a.sourceKey >>= fun source =>
      target.key a.targetKey >>= fun destination => _) = Except.ok st
    rw [hsource, hdestination]
    exact ⟨_, rfl⟩

structure Gathered (σ : Schema) (storages : List Storage) : Prop where
  asked : ∀ e ∈ σ.entities, ∀ a ∈ e.associations, ∃ st ∈ storages, σ.Asks e a st
  asking : ∀ st ∈ storages, ∃ e ∈ σ.entities, ∃ a ∈ e.associations, σ.Asks e a st

theorem storages_ok (hσ : σ.validate = .ok ()) :
    ∃ storages, σ.storages = .ok storages ∧ σ.Gathered storages := by
  have hentity : ∀ e ∈ σ.entities, ∃ sts, e.associations.mapM (σ.storage e) = .ok sts ∧
      e.associations.map (σ.storage e) = sts.map .ok := by
    intro e he
    apply except_mapM_ok
    intro a ha
    obtain ⟨target, hkeyed⟩ := keyed_of_validate hσ he ha
    exact hkeyed.storage
  obtain ⟨nested, hnested, hmap⟩ := except_mapM_ok fun e he => (hentity e he).imp fun _ h => h.1
  refine ⟨nested.flatten, ?_, ?_, ?_⟩
  · unfold storages
    rw [hnested]
    rfl
  · intro e he a ha
    obtain ⟨sts, hsts, hok⟩ := ok_of_mem hmap he
    obtain ⟨_, hok', hasked⟩ := hentity e he
    cases hok.symm.trans hok'
    obtain ⟨st, hst, hstorage⟩ := ok_of_mem hasked ha
    exact ⟨st, List.mem_flatten_of_mem hsts hst, asks_of_storage hstorage⟩
  · intro st hst
    obtain ⟨sts, hsts, hst⟩ := List.mem_flatten.1 hst
    obtain ⟨e, he, hok⟩ := mem_of_ok hmap hsts
    obtain ⟨_, hok', hasked⟩ := hentity e he
    cases hok.symm.trans hok'
    obtain ⟨a, ha, hstorage⟩ := mem_of_ok hasked hst
    exact ⟨e, he, a, ha, asks_of_storage hstorage⟩

theorem Keeps.unique {owner' : Entity} (h : σ.Keeps e a owner) (h' : σ.Keeps e a owner') :
    owner' = owner := by
  cases h with
  | source hr =>
    cases h' with
    | source => rfl
    | target hr' =>
      rw [hr] at hr'
      rcases hr' with hr' | hr' <;> cases hr'
  | target hr ht =>
    cases h' with
    | source hr' =>
      rw [hr'] at hr
      rcases hr with hr | hr <;> cases hr
    | target _ ht' => exact Except.ok.inj (ht'.symm.trans ht)

theorem Keeps.not_link (h : σ.Keeps e a owner) (l : LinkTable) : a.relation ≠ .manyToMany l := by
  intro hl
  cases h with
  | source hr => cases hl.symm.trans hr
  | target hr =>
    rw [hl] at hr
    rcases hr with hr | hr <;> cases hr

theorem mem_of_keeps (he : e ∈ σ.entities) (h : σ.Keeps e a owner) : owner ∈ σ.entities := by
  cases h with
  | source => exact he
  | target _ ht => exact mem_of_entity ht

theorem mem_foreignColumns (h : σ.Gathered storages) (he : e ∈ σ.entities)
    (ha : a ∈ e.associations) (hk : σ.Keeps e a owner) :
    a.foreignKey ∈ (foreignColumns owner.name storages).map Column.name := by
  obtain ⟨st, hst, hasks⟩ := h.asked e he a ha
  cases hasks with
  | @column owner' c hk' hc =>
    cases hk.unique hk'
    exact List.mem_map.2 ⟨c, List.mem_filterMap.2 ⟨_, hst, if_pos rfl⟩, hc⟩
  | link hr => exact absurd hr (hk.not_link _)

def addLink (tables : List Table) : Storage → List Table
  | .link t => if tables.any (·.name == t.name) then tables else tables ++ [t]
  | .column _ _ => tables

theorem linkTables_eq (storages : List Storage) : linkTables storages = storages.foldl addLink [] :=
  rfl

theorem mem_foldl_addLink {tables : List Table} (h : t ∈ storages.foldl addLink tables) :
    t ∈ tables ∨ .link t ∈ storages := by
  induction storages generalizing tables with
  | nil => exact .inl h
  | cons st storages ih =>
    rcases ih h with h | h
    · cases st with
      | column => exact .inl h
      | link t' =>
        dsimp only [addLink] at h
        split at h
        · exact .inl h
        · rcases List.mem_append.1 h with h | h
          · exact .inl h
          · rw [List.mem_singleton.1 h]
            exact .inr List.mem_cons_self
    · exact .inr (List.mem_cons_of_mem st h)

theorem names_addLink {tables : List Table} : x ∈ (addLink tables st).map Table.name ↔
    x ∈ tables.map Table.name ∨ ∃ t, .link t = st ∧ t.name = x := by
  cases st with
  | column => simp [addLink]
  | link t =>
    dsimp only [addLink]
    split
    · next h =>
      have hmem : t.name ∈ tables.map Table.name := by simpa using h
      simp only [Storage.link.injEq, exists_eq_left, iff_self_or]
      rintro rfl
      exact hmem
    · simp [eq_comm]

theorem names_foldl_addLink {tables : List Table} :
    x ∈ (storages.foldl addLink tables).map Table.name ↔
      x ∈ tables.map Table.name ∨ ∃ t, .link t ∈ storages ∧ t.name = x := by
  induction storages generalizing tables with
  | nil => simp
  | cons st storages ih =>
    rw [List.foldl_cons, ih, names_addLink, or_assoc]
    simp only [List.mem_cons, or_and_right, exists_or]

theorem mem_linkTables (h : t ∈ linkTables storages) : .link t ∈ storages := by
  rw [linkTables_eq] at h
  exact (mem_foldl_addLink h).resolve_left List.not_mem_nil

theorem names_linkTables : x ∈ (linkTables storages).map Table.name ↔
    ∃ t, .link t ∈ storages ∧ t.name = x := by
  rw [linkTables_eq, names_foldl_addLink, List.map_nil, or_iff_right List.not_mem_nil]

structure Holds (storages : List Storage) (e : Entity) (t : Table) : Prop where
  name : t.name = e.table
  names : ∀ x, x ∈ t.names ↔ (x ∈ e.attributes.map Attribute.column ∨
    x ∈ (foreignColumns e.name storages).map Column.name) ∨ e.softDelete = some x
  nodup : t.names.Nodup ↔ (e.attributes.map Attribute.column).Nodup

theorem holds_of_entityTable (h : entityTable storages e = .ok t) : Holds storages e t := by
  unfold entityTable at h
  obtain ⟨key, -, h⟩ := except_bind_ok h
  have hown : (e.attributes.map fun a => (⟨a.column, a.type, a.name == key.name⟩ : Column)).map
      Column.name = e.attributes.map Attribute.column := by
    rw [List.map_map]
    rfl
  generalize e.attributes.map (fun a => (⟨a.column, a.type, a.name == key.name⟩ : Column)) = own
    at h hown
  cases h
  cases hd : e.softDelete with
  | none =>
    refine ⟨rfl, fun x => ?_, ?_⟩
    · rw [Table.names, Table.mem_foldl_addColumn, hown]
      simp [hd]
    · rw [← hown]
      exact Table.nodup_foldl_addColumn
  | some column =>
    refine ⟨rfl, fun x => ?_, ?_⟩
    · rw [Table.names, Table.mem_addColumn, Table.mem_foldl_addColumn, hown, hd, Option.some.injEq]
      exact or_congr_right eq_comm
    · rw [← hown]
      exact Table.nodup_addColumn.trans Table.nodup_foldl_addColumn

structure Laid (σ : Schema) (storages : List Storage) (own : List Table) : Prop where
  gathered : σ.Gathered storages
  own : σ.entities.map (entityTable storages) = own.map .ok

theorem tables_ok (hσ : σ.validate = .ok ()) :
    ∃ storages own, σ.tables = .ok (own ++ linkTables storages) ∧ σ.Laid storages own := by
  obtain ⟨storages, hstorages, hgathered⟩ := storages_ok hσ
  have hentity : ∀ e ∈ σ.entities, ∃ t, entityTable storages e = .ok t := by
    intro e he
    obtain ⟨key, hkey⟩ := primary_of_mem he
    unfold entityTable
    rw [hkey]
    exact ⟨_, rfl⟩
  obtain ⟨own, hown, hmap⟩ := except_mapM_ok hentity
  refine ⟨storages, own, ?_, hgathered, hmap⟩
  unfold tables
  rw [hstorages]
  change (σ.entities.mapM (entityTable storages) >>= fun own => _) = _
  rw [hown]
  rfl

/-- No two entities share a table, no link has the table of an entity, and links that share a table
have the same columns. -/
structure Unshared (σ : Schema) : Prop where
  tables : (σ.entities.map Entity.table).Nodup
  links : ∀ l ∈ σ.links, l.table ∉ σ.entities.map Entity.table
  columns : ∀ l ∈ σ.links, ∀ l' ∈ σ.links, l'.table = l.table →
    l.sourceColumn ∈ [l'.sourceColumn, l'.targetColumn] ∧
      l.targetColumn ∈ [l'.sourceColumn, l'.targetColumn]

theorem Laid.names (h : σ.Laid storages own) :
    own.map Table.name = σ.entities.map Entity.table :=
  map_of_ok h.own fun _ _ ht => (holds_of_entityTable ht).name

theorem Laid.created_own (h : σ.Laid storages own) (hu : σ.Unshared) (he : e ∈ σ.entities)
    (hx : (x ∈ e.attributes.map Attribute.column ∨
      x ∈ (foreignColumns e.name storages).map Column.name) ∨ e.softDelete = some x) :
    Created (own ++ linkTables storages) e.table x := by
  obtain ⟨t, ht, hok⟩ := ok_of_mem h.own he
  have hholds := holds_of_entityTable hok
  have hfirst : own.find? (·.name == t.name) = some t := by
    apply Table.find_of_nodup _ ht
    rw [h.names]
    exact hu.tables
  refine ⟨t, ?_, (hholds.names x).2 hx⟩
  rw [← hholds.name, List.find?_append, hfirst]
  rfl

theorem Laid.link (h : σ.Laid storages own) (ht : t ∈ linkTables storages) :
    ∃ l ∈ σ.links, t.name = l.table ∧ t.names = [l.sourceColumn, l.targetColumn] := by
  obtain ⟨e, he, a, ha, hasks⟩ := h.gathered.asking _ (mem_linkTables ht)
  cases hasks with
  | link hr hname hnames => exact ⟨_, mem_links.2 ⟨e, he, a, ha, hr⟩, hname, hnames⟩

theorem Laid.created_link (h : σ.Laid storages own) (hu : σ.Unshared) (hl : l ∈ σ.links)
    (hx : x ∈ [l.sourceColumn, l.targetColumn]) :
    Created (own ++ linkTables storages) l.table x := by
  obtain ⟨e, he, a, ha, hr⟩ := mem_links.1 hl
  obtain ⟨st, hst, hasks⟩ := h.gathered.asked e he a ha
  cases hasks with
  | column hk => exact absurd hr (hk.not_link l)
  | @link l' t hr' hname =>
    cases hr.symm.trans hr'
    have hmem : l.table ∈ (linkTables storages).map Table.name :=
      names_linkTables.2 ⟨t, hst, hname⟩
    obtain ⟨first, hfirst, hfind, hsame⟩ := Table.find_of_name hmem
    obtain ⟨l', hl', hname', hnames⟩ := h.link hfirst
    obtain ⟨hsource, htarget⟩ := hu.columns l hl l' hl' (hname'.symm.trans hsame)
    have hown : own.find? (·.name == l.table) = none := by
      have hnot := hu.links l hl
      rw [← h.names] at hnot
      rw [List.find?_eq_none]
      intro t' ht' hsame
      exact hnot (List.mem_map.2 ⟨t', ht', by simpa using hsame⟩)
    refine ⟨first, ?_, ?_⟩
    · rw [List.find?_append, hown, hfind]
      rfl
    · rw [hnames]
      rcases List.mem_pair.1 hx with rfl | rfl
      · exact hsource
      · exact htarget

theorem Laid.created (h : σ.Laid storages own) (hu : σ.Unshared) {table : String}
    (hx : σ.Stored table x) : Created (own ++ linkTables storages) table x := by
  cases hx with
  | own he ha => exact h.created_own hu he (.inl (.inl (List.mem_map_of_mem ha)))
  | deleted he hd => exact h.created_own hu he (.inr hd)
  | foreign he ha hk =>
    have hforeign := mem_foreignColumns h.gathered he ha hk
    exact h.created_own hu (mem_of_keeps he hk) (.inl (.inr hforeign))
  | linkSource hl => exact h.created_link hu hl List.mem_cons_self
  | linkTarget hl => exact h.created_link hu hl (List.mem_cons_of_mem _ List.mem_cons_self)

theorem Laid.nodup (h : σ.Laid storages own)
    (hlinks : ∀ l ∈ σ.links, l.sourceColumn ≠ l.targetColumn) :
    (∀ t ∈ own ++ linkTables storages, t.names.Nodup) ↔
      ∀ e ∈ σ.entities, (e.attributes.map Attribute.column).Nodup := by
  constructor
  · intro hnodup e he
    obtain ⟨t, ht, hok⟩ := ok_of_mem h.own he
    exact (holds_of_entityTable hok).nodup.1 (hnodup t (List.mem_append_left _ ht))
  · intro hnodup t ht
    rcases List.mem_append.1 ht with ht | ht
    · obtain ⟨e, he, hok⟩ := mem_of_ok h.own ht
      exact (holds_of_entityTable hok).nodup.2 (hnodup e he)
    · obtain ⟨l, hl, -, hnames⟩ := h.link ht
      rw [hnames]
      simpa using hlinks l hl

end Schema

end RecordQuery
