import RecordQuery.Proofs.Joining.Step

namespace RecordQuery

open Steps

namespace Schema

variable {σ : Schema} {e : Entity} {path : String}

theorem astray_of_follow (hσ : σ.validate = .ok ()) {names : List String} {toMany : Bool}
    {err : Error} (he : e ∈ σ.entities) (h : σ.follow path names e toMany = .error err) :
    Astray path err := by
  induction names generalizing e toMany with
  | nil =>
    cases h
    exact .column _ _
  | cons name rest ih =>
    cases ha : e.association? name with
    | none =>
      cases rest with
      | nil =>
        rw [follow_column ha] at h
        cases hending : e.ending name with
        | error err' =>
          rw [hending] at h
          cases h
          exact astray_of_ending he hending
        | ok leaf =>
          rw [hending] at h
          cases h
      | cons next rest =>
        rw [follow_unknown ha] at h
        cases h
        exact .association _ _
    | some a =>
      -- targets and their keys exist in a valid schema
      obtain ⟨target, ht, -, -⟩ := keyed_of_validate hσ he (List.mem_of_find?_eq_some ha)
      have htarget : target ∈ σ.entities := mem_of_entity ht
      rw [follow_association path rest toMany ha] at h
      split at h
      · cases h
        exact .whole
      rw [ht] at h
      change (if rest.isEmpty then _ else _) = Except.error err at h
      split at h
      · obtain ⟨key, hkey⟩ := primary_of_mem htarget
        rw [hkey] at h
        cases h
      · exact ih htarget h

end Schema

namespace Planning

variable {σ : Schema} {root : Entity} {path : String} {mode : JoinMode} {s t : Planning}

theorem Step.unscoped (h : Step σ root path mode s t) (hs : s.waiting = none) :
    t.waiting = none := by
  obtain ⟨_, ⟨-, -, -, -, -, -, hjoining⟩⟩ := h
  cases hjoining with
  | unkeyed => exact hs
  | refused _ _ hw =>
    rw [hs] at hw
    cases hw
  | joined _ _ htaken =>
    rw [hs] at htaken
    cases htaken
    rfl

theorem Trail.unscoped (h : Trail σ root path mode s t) (hs : s.waiting = none) :
    t.waiting = none := by
  induction h with
  | refl => exact hs
  | tail _ hstep ih => exact hstep.unscoped ih

theorem not_attempt_error (hσ : σ.validate = .ok ()) (hroot : root ∈ σ.entities)
    (hs : s.waiting = none) {e : Error} : ¬ Attempt σ root path mode s (.error e) t := by
  rintro ⟨-, -, hlocated, ha, ht, -, hjoining⟩
  have hregistered := List.cons_subset.2 ⟨hroot, List.Subset.refl _⟩ hlocated.crosses.mem
  obtain ⟨target, ht', ⟨source, hsource⟩, ⟨destination, hdestination⟩⟩ :=
    Schema.keyed_of_validate hσ hregistered (List.mem_of_find?_eq_some ha)
  rw [ht] at ht'
  cases ht'
  cases hjoining with
  | unkeyed h =>
    rcases h with h | ⟨-, h⟩
    · rw [hsource] at h
      cases h
    · rw [hdestination] at h
      cases h
  | refused _ _ hw =>
    rw [hs] at hw
    cases hw

end Planning

def Planning.awaiting (s : Planning) (waiting : Option ScopedPredicate) : Planning :=
  { s with waiting }

open Planning in
/-- In a valid schema, and with no predicate to place, a path is resolved as the schema alone says,
after whatever was planned before: it fails with the same error, which names what is wrong with the
path, or ends in the same column of the same entity, under an alias of the plan. -/
theorem resolve_follows_schema (σ : Schema) (hσ : σ.validate = .ok ()) (root : Entity)
    (hroot : root ∈ σ.entities) (path : String) (mode : JoinMode) (s : Planning) :
    (∀ e, σ.destination root path = .error e → Schema.Astray path e) ∧
    Both (fun r d =>
        ∃ a ∈ (resolve σ root path mode (s.awaiting none)).2.plan.aliases, r = d.under a)
      (resolve σ root path mode (s.awaiting none)).1 (σ.destination root path) := by
  refine ⟨fun e he => Schema.astray_of_follow hσ hroot he, ?_⟩
  have hwalked := walked_resolve σ root path mode (s.awaiting none)
  generalize resolve σ root path mode (s.awaiting none) = outcome at hwalked ⊢
  generalize σ.destination root path = d at hwalked ⊢
  obtain ⟨x, t⟩ := outcome
  cases hwalked with
  | arrived _ hthere => exact ⟨_, hthere.alias_mem, rfl⟩
  | astray => exact rfl
  | stuck htrail hattempt =>
    exact absurd hattempt (not_attempt_error hσ hroot (Trail.unscoped htrail rfl))

namespace Shelf

def author : Entity :=
  (((Entity.ofTable "Author" "authors").withPrimaryKey ⟨"id", "id", .bigInt⟩).withAttribute
    ⟨"name", "author_name", .text⟩).withSoftDelete Entity.defaultDeletedColumn

def book : Entity :=
  ((((Entity.ofTable "Book" "books").withPrimaryKey ⟨"id", "id", .bigInt⟩).withAttribute
    ⟨"title", "title", .text⟩).withAssociation
    ⟨"Authors", .manyToMany ⟨"writings", "book_id", "author_id"⟩, "Author", "", none, none⟩
    ).withAssociation ⟨"editor", .belongsTo, "Author", "editor_id", none, none⟩

def schema : Schema where
  entities := [author, book]
  distinct := by decide
  keyed := by decide

def start : Planning :=
  ⟨.ofRoot book, .ofTable book.table (JoinPlan.ofRoot book).rootAlias, none⟩

end Shelf

open Planning in
theorem resolve_follows_schema_shelf :
    Shelf.schema.validate = .ok () ∧ Shelf.book ∈ Shelf.schema.entities ∧
    ∃ s t r d, (resolve Shelf.schema Shelf.book "editor.name" .left Shelf.start).2 = s ∧
      s.plan.aliases = ["book_1", "editor_2"] ∧
      Shelf.schema.destination Shelf.book "Authors?.name" = .ok d ∧
      (d.entity.name, d.leaf.column, d.toMany, d.tail) = ("Author", "author_name", true, false) ∧
      resolve Shelf.schema Shelf.book "Authors?.name" .inner (s.awaiting none) = (.ok r, t) ∧
      ∃ a ∈ t.plan.aliases, r = d.under a := by
  have hvalid : Shelf.schema.validate = .ok () := by decide +kernel
  obtain ⟨d, hd, hdestination⟩ := except_ok_of_toOption_map
    (x := Shelf.schema.destination Shelf.book "Authors?.name")
    (f := fun d => (d.entity.name, d.leaf.column, d.toMany, d.tail))
    (b := ("Author", "author_name", true, false)) (by decide +kernel)
  have haliases : (resolve Shelf.schema Shelf.book "editor.name" .left Shelf.start).2.plan.aliases
      = ["book_1", "editor_2"] := by
    decide +kernel
  generalize hs : (resolve Shelf.schema Shelf.book "editor.name" .left Shelf.start).2 = s
    at haliases
  have h := (resolve_follows_schema Shelf.schema hvalid Shelf.book (by decide) "Authors?.name"
    .inner s).2
  rw [hd] at h
  rcases hr : resolve Shelf.schema Shelf.book "Authors?.name" .inner (s.awaiting none) with ⟨x, t⟩
  rw [hr] at h
  cases x with
  | error e => exact h.elim
  | ok r => exact ⟨hvalid, by decide, s, t, r, d, rfl, haliases, hd, hdestination, hr, h⟩

end RecordQuery
