import RecordQuery.Proofs.Storage.Origin

namespace RecordQuery

open Planning in
/-- The tables of a valid schema can be created. If no table is shared, each column that joins and
resolved paths mention is listed by the table created first for the one behind its alias. If the two
columns of links differ, no table lists a name twice just if the attributes of each entity have
columns of their own. -/
theorem tables_cover_references (σ : Schema) (hσ : σ.validate = .ok ()) :
    ∃ ts, σ.tables = .ok ts ∧ (∀ δ, σ.ddl δ = .ok ("\n\n".intercalate (ts.map (Table.sql δ)))) ∧
      (σ.Unshared → ∀ root ∈ σ.entities, σ.Named root → ∀ s, Reachable σ root s →
        s.query.source.aliases.Nodup ∧
        (∀ j ∈ s.query.source.joins, j.on.Over (Refers (Created ts) s.query.source.origins)) ∧
        ∀ path mode waiting r, (resolve σ root path mode (s.awaiting waiting)).1 = .ok r →
          Refers (Created ts) (resolve σ root path mode (s.awaiting waiting)).2.query.source.origins
            r.column) ∧
      ((∀ l ∈ σ.links, l.sourceColumn ≠ l.targetColumn) →
        ((∀ t ∈ ts, t.names.Nodup) ↔
          ∀ e ∈ σ.entities, (e.attributes.map Attribute.column).Nodup)) := by
  obtain ⟨storages, own, htables, hlaid⟩ := Schema.tables_ok hσ
  refine ⟨own ++ Schema.linkTables storages, htables, ?_, ?_, hlaid.nodup⟩
  · intro δ
    unfold Schema.ddl
    rw [htables]
    rfl
  · intro hunshared root hroot hnamed s hs
    have hcreated : ∀ table column, σ.Stored table column →
        Created (own ++ Schema.linkTables storages) table column :=
      fun _ _ hx => hlaid.created hunshared hx
    have htraced := hs.traced hroot hnamed
    refine ⟨htraced.orderly.distinct, ?_, ?_⟩
    · exact fun j hj => (htraced.joins j hj).mono fun _ hx => hx.imp hcreated
    · intro path mode waiting r hr
      have hwalked := walked_resolve σ root path mode (s.awaiting waiting)
      have hresolved := ((htraced.awaiting waiting).walked hroot hnamed hwalked).2.2 r hr
      exact hresolved.imp hcreated

open Planning in
theorem tables_cover_references_shelf :
    Shelf.schema.validate = .ok () ∧ Shelf.schema.Unshared ∧
    Shelf.book ∈ Shelf.schema.entities ∧ Shelf.schema.Named Shelf.book ∧
    ∃ s ts, Reachable Shelf.schema Shelf.book s ∧ Shelf.schema.tables = .ok ts ∧
      s.query.source.origins
        = [("book_1", "books"), ("book_1_authors_2", "writings"), ("authors_2", "authors")] ∧
      (∀ j ∈ s.query.source.joins, j.on.Over (Refers (Created ts) s.query.source.origins)) ∧
      ∀ t ∈ ts, t.names.Nodup := by
  have hvalid : Shelf.schema.validate = .ok () := by decide +kernel
  have hunshared : Shelf.schema.Unshared := ⟨by decide, by decide, by decide⟩
  have hbook : Shelf.book ∈ Shelf.schema.entities := by decide
  have hnamed : Shelf.schema.Named Shelf.book := by
    unfold Schema.Named
    decide
  have hstart : Reachable Shelf.schema Shelf.book Shelf.start := .start
  have hs := hstart.next "Authors.name" .left none
  obtain ⟨ts, hts, -, hcover, hnodup⟩ := tables_cover_references Shelf.schema hvalid
  refine ⟨hvalid, hunshared, hbook, hnamed, _, ts, hs, hts, by decide +kernel, ?_, ?_⟩
  · exact (hcover hunshared Shelf.book hbook hnamed _ hs).2.1
  · exact (hnodup (by decide)).2 (by decide)

example : Schema.entityTable [] ((Shelf.author.withAttribute ⟨"alias", "author_name", .text⟩)) =
    .ok ⟨"authors", [⟨"id", .bigInt, true⟩, ⟨"author_name", .text, false⟩,
      ⟨"author_name", .text, false⟩, ⟨"deletedAt", .timestamp, false⟩], ["id"]⟩ := by
  decide

end RecordQuery
