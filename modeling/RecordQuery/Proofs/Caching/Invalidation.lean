import RecordQuery.Proofs.Caching.Safety

namespace RecordQuery

variable {p : Provider} {model : String} {uses : Nat} {past : List Event} {t : Traffic}
  {i j : Nat} {r : Request} {stage : Stage}

theorem not_mem_tail_of_after {steps : List Event} (h : stage.After j steps) :
    .lookup j ∉ steps.tail := by
  cases h <;> simp

theorem ownSteps_around (h : History p model uses past t) (hj : t.calls[j]? = some (r, stage))
    {before after : List Event} (hpast : past = before ++ .lookup j :: after) :
    ownSteps j past = .lookup j :: ownSteps j after ∧ .lookup j ∉ after := by
  obtain ⟨hafter, -⟩ := h.traced.stages j r stage hj
  have hown : ownSteps j past = ownSteps j before ++ .lookup j :: ownSteps j after := by
    rw [hpast, ownSteps_append]
    simp [ownSteps, Event.caller?]
  have htail := not_mem_tail_of_after hafter
  rw [hown] at htail
  cases hsteps : ownSteps j before with
  | nil =>
    rw [hsteps] at hown htail
    refine ⟨hown, fun hmem => htail ?_⟩
    exact List.mem_filter.2 ⟨hmem, by simp [Event.caller?]⟩
  | cons step steps =>
    rw [hsteps] at htail
    simp at htail

theorem replaced_after {xs middle before after : List Event}
    (h : xs ++ .invalidate :: middle = before ++ .replace i :: after)
    (hlast : ∀ event ∈ after, event.rewrites = false) :
    ∃ front, before = xs ++ .invalidate :: front ∧ middle = front ++ .replace i :: after := by
  rcases List.append_eq_append_iff.1 h with ⟨ys, rfl, hys⟩ | ⟨ys, rfl, hys⟩
  · cases ys with
    | nil => cases hys
    | cons y ys =>
      cases hys
      exact ⟨ys, rfl, rfl⟩
  · cases ys with
    | nil => cases hys
    | cons y ys =>
      cases hys
      cases hlast .invalidate (by simp)

/-- The call put its list into the cache between an invalidation and a lookup, less than the timeout
before the lookup, and no other came over it. -/
structure Refilled (p : Provider) (model : String) (middle : List Event) (i : Nat)
    (front back : List Event) : Prop where
  replaced : middle = front ++ .replace i :: back
  last : ∀ event ∈ back, event.rewrites = false
  young : ∃ m timeout, p.models.get? model = some m ∧ m.cacheTimeout = some timeout ∧
    elapsed back < timeout

theorem refilled_of_served {list : Loaded} {u : Traffic} {e : CacheEntry Loaded}
    {before middle after : List Event}
    (h : Served p model uses past j r list (before ++ .invalidate :: middle) after u e) :
    ∃ i front back, Refilled p model middle i front back ∧
      (.execute i (.ok list.rows) ∈ front ∨ .execute i (.ok list.rows) ∈ before) := by
  obtain ⟨i, xs, back, hstored⟩ := h.history.traced.entry e h.entry
  obtain ⟨front, rfl, rfl⟩ := replaced_after hstored.replaced hstored.last
  refine ⟨i, front, back, ⟨rfl, hstored.last, ?_⟩, ?_⟩
  · obtain ⟨m, timeout, hm, htimeout, hyoung⟩ := h.young
    refine ⟨m, timeout, hm, htimeout, ?_⟩
    rw [hstored.replaced, hstored.stamp, elapsed_append] at hyoung
    have hback : elapsed (.replace i :: back) = elapsed back := by
      simp [elapsed, Event.span]
    omega
  · have hread := List.mem_append.1 hstored.read
    rw [h.rows] at hread
    simpa [or_comm] using hread

/-- A call that looks up after an invalidation is answered with rows that it reads itself, or that
another call put into the cache after the invalidation and young enough. Only if that call was in
flight at the invalidation were they read before. -/
theorem reread_unless_in_flight (p : Provider) (model : String) (uses : Nat)
    (before middle after : List Event) (t : Traffic) (j : Nat) (r : Request) (list : Loaded)
    (h : History p model uses (before ++ .invalidate :: middle ++ .lookup j :: after) t)
    (hj : t.calls[j]? = some (r, .over (.ok list))) :
    .execute j (.ok list.rows) ∈ after ∨ ∃ i front back, Refilled p model middle i front back ∧
      (.execute i (.ok list.rows) ∈ front ∨ .execute i (.ok list.rows) ∈ before) := by
  obtain ⟨hown, honce⟩ := ownSteps_around h hj rfl
  obtain hhit | hread := answered_cases h hj
  · obtain ⟨xs, ys, u, e, hserved⟩ := h.traced.hits j r list hj hhit
    have honce' := (ownSteps_around h hj hserved.looked).2
    obtain ⟨rfl, rfl⟩ := Text.append_cons_inj honce honce' hserved.looked
    exact .inr (refilled_of_served hserved)
  · have hmem : .execute j (.ok list.rows) ∈ ownSteps j
        (before ++ .invalidate :: middle ++ .lookup j :: after) :=
      List.mem_filter.2 ⟨hread, by simp [Event.caller?]⟩
    rw [hown] at hmem
    have hafter : .execute j (.ok list.rows) ∈ ownSteps j after := by simpa using hmem
    exact .inl (List.mem_of_mem_filter hafter)

theorem executed_of_answer (h : History p model uses past t) {list : Loaded}
    (hj : t.calls[j]? = some (r, .over (.ok list))) : ∃ i, .execute i (.ok list.rows) ∈ past := by
  obtain hhit | hread := answered_cases h hj
  · obtain ⟨xs, ys, u, e, hserved⟩ := h.traced.hits j r list hj hhit
    obtain ⟨i, before, after, hstored⟩ := hserved.history.traced.entry e hserved.entry
    have hread := hstored.read
    rw [hserved.rows] at hread
    refine ⟨i, ?_⟩
    rw [hserved.looked, hstored.replaced]
    simp [hread]
  · exact ⟨j, hread⟩

namespace Blog

def outdated : List Record := [[("body", .text "old")]]

def updated : List Record := [[("body", .text "new")]]

end Blog

theorem reread_unless_in_flight_blog :
    ∃ t r list, History Blog.cachedProvider "Post" 0
        ([.call .empty, .lookup 0, .execute 0 (.ok Blog.outdated), .replace 0] ++ .invalidate ::
          [.call .empty] ++ .lookup 1 :: [.execute 1 (.ok Blog.updated), .replace 1]) t ∧
      t.calls[1]? = some (r, .over (.ok list)) ∧ list.rows = Blog.updated := by
  have hserial : ((Traffic.run? Blog.cachedProvider "Post" 0
      ([.call .empty, .lookup 0, .execute 0 (.ok Blog.outdated), .replace 0] ++ .invalidate ::
        [.call .empty] ++ .lookup 1 :: [.execute 1 (.ok Blog.updated), .replace 1])).bind
      fun t => (t.answer? 1).map fun answer => answer.2.serial) = some 1 := by
    decide +kernel
  obtain ⟨t, r, list, hhistory, hcall⟩ := exists_answer hserial
  refine ⟨t, r, list, hhistory, hcall, ?_⟩
  rcases reread_unless_in_flight Blog.cachedProvider "Post" 0 _ _ _ t 1 r list hhistory hcall with
    hread | ⟨i, front, back, hrefilled, -⟩
  · simpa using hread
  · have hreplace : Event.replace i ∈ [Event.call .empty] := by
      rw [hrefilled.replaced]
      simp
    simp at hreplace

/-- The rows of a call in flight at an invalidation are served to a later call. -/
theorem outdated_rows_served :
    ∃ t r list, History Blog.cachedProvider "Post" 0
        ([.call .empty, .lookup 0, .execute 0 (.ok Blog.outdated)] ++ .invalidate ::
          [.replace 0, .call .empty] ++ .lookup 1 :: []) t ∧
      t.calls[1]? = some (r, .over (.ok list)) ∧ list.rows = Blog.outdated := by
  have hserial : ((Traffic.run? Blog.cachedProvider "Post" 0
      ([.call .empty, .lookup 0, .execute 0 (.ok Blog.outdated)] ++ .invalidate ::
        [.replace 0, .call .empty] ++ .lookup 1 :: [])).bind
      fun t => (t.answer? 1).map fun answer => answer.2.serial) = some 0 := by
    decide +kernel
  obtain ⟨t, r, list, hhistory, hcall⟩ := exists_answer hserial
  obtain ⟨i, hread⟩ := executed_of_answer hhistory hcall
  refine ⟨t, r, list, hhistory, hcall, ?_⟩
  have hrows : i = 0 ∧ list.rows = Blog.outdated := by simpa using hread
  exact hrows.2

end RecordQuery
