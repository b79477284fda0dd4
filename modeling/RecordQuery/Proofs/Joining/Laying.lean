import Mathlib.Logic.Function.Basic
import RecordQuery.Proofs.Joining.Outer

namespace RecordQuery

open Steps

/-- Which paths are joined, and whether by LEFT joins. -/
abbrev Layout := String → Option Bool

namespace Schema

/-- Segments cross the associations from an entity on: where they lead to, these are joined. -/
def lay (σ : Schema) (mode : JoinMode) : List String → Entity → String → Bool → Layout → Layout
  | [], _, _, _, T => T
  | segment :: rest, e, path, left, T =>
    match e.association? (Path.bare segment) with
    | none => T
    | some a =>
      match σ.entity a.target with
      | .error _ => T
      | .ok target =>
        let next := Path.under path (Path.bare segment)
        let hop := (T next).getD
          (Planning.hopIsLeft mode (Path.isOptional segment) ⟨e, "", path, false, left⟩ a)
        σ.lay mode rest target next hop (Function.update T next (some hop))

def layPath (σ : Schema) (root : Entity) (mode : JoinMode) (path : String) (T : Layout) : Layout :=
  σ.lay mode (Path.segments path) root "" false T

variable {σ : Schema} {root e e' : Entity} {mode : JoinMode} {path p : String} {left b : Bool}
  {segments behind ahead : List String} {T C : Layout}

def Leads (σ : Schema) (e : Entity) (segment : String) : Prop :=
  ∃ a target, e.association? (Path.bare segment) = some a ∧ σ.entity a.target = .ok target

theorem lay_stays {segment : String} (h : ¬ σ.Leads e segment) :
    σ.lay mode (segment :: ahead) e path left T = T := by
  cases ha : e.association? (Path.bare segment) with
  | none => simp only [lay, ha]
  | some a =>
    cases ht : σ.entity a.target with
    | error _ => simp only [lay, ha, ht]
    | ok target => exact absurd ⟨a, target, ha, ht⟩ h

theorem lay_hop {segment : String} {a : Association} {target : Entity} (mode : JoinMode)
    (left : Bool) (ahead : List String) (ha : e.association? (Path.bare segment) = some a)
    (ht : σ.entity a.target = .ok target) (hpath : Path.under path (Path.bare segment) = p) :
    σ.lay mode (segment :: ahead) e path left T
      = σ.lay mode ahead target p
          ((T p).getD
            (Planning.hopIsLeft mode (Path.isOptional segment) ⟨e, "", path, false, left⟩ a))
          (Function.update T p (some ((T p).getD (Planning.hopIsLeft mode (Path.isOptional segment)
            ⟨e, "", path, false, left⟩ a)))) := by
  subst hpath
  simp only [lay, ha, ht]

theorem lay_joined (h : T p = some b) : σ.lay mode ahead e path left T p = some b := by
  induction ahead generalizing e path left T with
  | nil => exact h
  | cons segment ahead ih =>
    by_cases hleads : σ.Leads e segment
    · obtain ⟨a, target, ha, ht⟩ := hleads
      rw [lay_hop mode left ahead ha ht rfl]
      apply ih
      by_cases hp : p = Path.under path (Path.bare segment)
      · rw [← hp, Function.update_self, h]
        rfl
      · rw [Function.update_of_ne hp]
        exact h
    · rw [lay_stays hleads]
      exact h

theorem Crosses.leads {segment : String} {more : List String}
    (h : σ.Crosses root (behind ++ segment :: more) e') (he : σ.Crosses root behind e) :
    σ.Leads e segment := by
  have hfront : σ.Crosses root ((behind ++ [segment]) ++ more) e' := by simpa using h
  obtain ⟨target, htarget⟩ := hfront.of_append
  generalize hsame : behind ++ [segment] = zs at htarget
  cases htarget with
  | start => simp at hsame
  | hop hcrosses ha ht =>
    obtain ⟨rfl, hsegment⟩ := List.append_inj' hsame rfl
    cases hsegment
    cases hcrosses.unique he
    exact ⟨_, _, ha, ht⟩

def PassesBehind (σ : Schema) (root : Entity) (behind ahead : List String) (p : String) : Prop :=
  ∃ more rest e, ahead = more ++ rest ∧ more ≠ [] ∧ σ.Crosses root (behind ++ more) e ∧
    p = Path.along (behind ++ more)

def Passes (σ : Schema) (root : Entity) (path p : String) : Prop :=
  σ.PassesBehind root [] (Path.segments path) p

theorem passesBehind_nil : ¬ σ.PassesBehind root behind [] p := by
  rintro ⟨more, rest, -, hsplit, hne, -⟩
  exact hne (List.append_eq_nil_iff.1 hsplit.symm).1

theorem passesBehind_cons {segment : String} {a : Association} {target : Entity}
    (he : σ.Crosses root behind e) (ha : e.association? (Path.bare segment) = some a)
    (ht : σ.entity a.target = .ok target) :
    σ.PassesBehind root behind (segment :: ahead) p ↔
      p = Path.along (behind ++ [segment]) ∨ σ.PassesBehind root (behind ++ [segment]) ahead p := by
  constructor
  · rintro ⟨more, rest, e', hsplit, hne, hcrosses, rfl⟩
    obtain ⟨name, more, rfl⟩ := List.exists_cons_of_ne_nil hne
    obtain ⟨rfl, rfl⟩ := List.cons.inj hsplit
    cases more with
    | nil => exact .inl rfl
    | cons next more => exact .inr ⟨next :: more, rest, e', rfl, by simp, by simpa using hcrosses,
        by simp⟩
  · rintro (rfl | ⟨more, rest, e', rfl, -, hcrosses, rfl⟩)
    · exact ⟨[segment], ahead, target, rfl, by simp, .hop he ha ht, rfl⟩
    · exact ⟨segment :: more, rest, e', rfl, by simp, by simpa using hcrosses, by simp⟩

theorem not_passesBehind {segment : String} (he : σ.Crosses root behind e)
    (h : ¬ σ.Leads e segment) : ¬ σ.PassesBehind root behind (segment :: ahead) p := by
  rintro ⟨more, rest, e', hsplit, hne, hcrosses, -⟩
  obtain ⟨name, more, rfl⟩ := List.exists_cons_of_ne_nil hne
  obtain ⟨rfl, rfl⟩ := List.cons.inj hsplit
  exact h (hcrosses.leads he)

theorem lay_isSome (he : σ.Crosses root behind e) :
    (σ.lay mode ahead e (Path.along behind) left T p).isSome ↔
      (T p).isSome ∨ σ.PassesBehind root behind ahead p := by
  induction ahead generalizing behind e left T with
  | nil => exact ⟨.inl, fun h => h.resolve_right passesBehind_nil⟩
  | cons segment ahead ih =>
    by_cases hleads : σ.Leads e segment
    · obtain ⟨a, target, ha, ht⟩ := hleads
      rw [lay_hop mode left ahead ha ht (Path.along_concat behind segment).symm,
        ih (.hop he ha ht), passesBehind_cons he ha ht, ← or_assoc]
      apply or_congr_left
      by_cases hp : p = Path.along (behind ++ [segment])
      · rw [hp, Function.update_self]
        simp
      · rw [Function.update_of_ne hp]
        simp only [hp, or_false]
    · rw [lay_stays hleads]
      exact ⟨.inl, fun h => h.resolve_right (not_passesBehind he hleads)⟩

theorem layPath_isSome :
    (σ.layPath root mode path T p).isSome ↔ (T p).isSome ∨ σ.Passes root path p :=
  lay_isSome .start

theorem lay_absorb (hC : ∀ p b, C p = some b → T p = some b)
    (hT : ∀ p b b', T p = some b → σ.lay mode ahead e path left C p = some b' → b = b') :
    σ.lay mode ahead e path left T p = (T p).or (σ.lay mode ahead e path left C p) := by
  -- each segment adds one path to `T` and to `C` alike, so both vary
  induction ahead generalizing e path left C T with
  | nil =>
    change T p = (T p).or (C p)
    cases hc : C p with
    | none => simp
    | some b => simp [hC p b hc]
  | cons segment ahead ih =>
    by_cases hleads : σ.Leads e segment
    · obtain ⟨a, target, ha, ht⟩ := hleads
      generalize hnext : Path.under path (Path.bare segment) = next
      rw [lay_hop mode left ahead ha ht hnext] at hT ⊢
      rw [lay_hop mode left ahead ha ht hnext]
      generalize Planning.hopIsLeft mode (Path.isOptional segment) ⟨e, "", path, false, left⟩ a
        = hop at hT ⊢
      have hjoined : σ.lay mode ahead target next ((C next).getD hop)
          (Function.update C next (some ((C next).getD hop))) next
            = some ((C next).getD hop) := lay_joined (Function.update_self _ _ _)
      -- both walks go on from joins of one kind
      have hsame : (T next).getD hop = (C next).getD hop := by
        cases hn : T next with
        | some b => exact hT next b _ hn hjoined
        | none =>
          cases hc : C next with
          | none => rfl
          | some b =>
            rw [hC next b hc] at hn
            cases hn
      rw [hsame]
      generalize (C next).getD hop = b₀ at hT hjoined hsame ⊢
      rw [ih (C := Function.update C next (some b₀))]
      -- the walks meet at `next` only; every other path is a matter of what is ahead
      · by_cases hp : p = next
        · subst hp
          rw [Function.update_self, hjoined]
          cases hn : T p with
          | none => rfl
          | some b => rw [hT p b b₀ hn hjoined, Option.some_or]
        · rw [Function.update_of_ne hp]
      · intro q b hq
        by_cases hp : q = next
        · subst hp
          rw [Function.update_self] at hq ⊢
          exact hq
        · rw [Function.update_of_ne hp] at hq ⊢
          exact hC q b hq
      · intro q b b' hq hq'
        by_cases hp : q = next
        · subst hp
          rw [Function.update_self] at hq
          rw [hjoined] at hq'
          exact Option.some.inj (hq.symm.trans hq')
        · rw [Function.update_of_ne hp] at hq
          exact hT q b b' hq hq'
    · rw [lay_stays hleads, lay_stays hleads]
      cases hc : C p with
      | none => simp
      | some b => simp [hC p b hc]

end Schema

def JoinPlan.layout (plan : JoinPlan) : Layout :=
  fun path => (plan.joined.get? path).map JoinedPath.left

namespace Planning

variable {σ : Schema} {root : Entity} {path segment : String} {mode : JoinMode}
  {here next : Position} {a : Association} {target : Entity} {joined : JoinedPath} {r : Resolved}
  {ahead : List String} {s t : Planning}

theorem layout_insert (plan : JoinPlan) (path : String) (joined : JoinedPath) :
    JoinPlan.layout { plan with joined := plan.joined.insert path joined }
      = Function.update plan.layout path (some joined.left) := by
  funext p
  unfold JoinPlan.layout
  by_cases hp : p = path
  · rw [hp, Function.update_self, Fields.get?_insert_self]
    rfl
  · rw [Function.update_of_ne hp, Fields.get?_insert_of_ne (Ne.symm hp)]

theorem hop_layout (h : hop mode segment here a target s = (.ok next, t)) :
    next.entity = target ∧ next.path = Path.under here.path (Path.bare segment) ∧
      next.left = (s.plan.layout next.path).getD (hopIsLeft mode (Path.isOptional segment) here a) ∧
      t.plan.layout = Function.update s.plan.layout next.path (some next.left) := by
  unfold hop at h
  obtain ⟨joined, u, hjoinAt, h⟩ := bind_ok h
  cases h
  refine ⟨rfl, rfl, ?_⟩
  dsimp only
  unfold joinAt at hjoinAt
  rw [bind_of_ok (get_apply s)] at hjoinAt
  generalize Path.under here.path (Path.bare segment) = p at hjoinAt ⊢
  -- a joined path is read, any other is entered
  cases hj : s.plan.joined.get? p with
  | some found =>
    rw [hj] at hjoinAt
    cases hjoinAt
    have hsame : s.plan.layout p = some joined.left := by
      unfold JoinPlan.layout
      rw [hj]
      rfl
    rw [hsame]
    exact ⟨rfl, (Function.update_eq_self_iff.2 hsame.symm).symm⟩
  | none =>
    rw [hj] at hjoinAt
    have hnone : s.plan.layout p = none := by
      unfold JoinPlan.layout
      rw [hj]
      rfl
    have hjoining := joining_joinNew here a target p
      (hopIsLeft mode (Path.isOptional segment) here a) s
    dsimp only at hjoinAt
    rw [hjoinAt] at hjoining
    cases hjoining with
    | joined => exact ⟨by rw [hnone]; rfl, layout_insert _ _ _⟩

theorem endAt_ok {name : String} {rest : List String} (h : endAt here name rest s = (.ok r, t)) :
    t = s := by
  unfold endAt at h
  split at h
  · obtain ⟨leaf, -, h⟩ := lift_bind_ok h
    cases h
    rfl
  · cases h

theorem walk_layout (h : walk σ path mode ahead here s = (.ok r, t)) :
    t.plan.layout = σ.lay mode ahead here.entity here.path here.left s.plan.layout := by
  induction ahead generalizing here s with
  | nil => cases h
  | cons segment ahead ih =>
    unfold walk at h
    cases ha : here.entity.association? (Path.bare segment) with
    | none =>
      rw [ha] at h
      rw [endAt_ok h]
      refine (Schema.lay_stays ?_).symm
      rintro ⟨a, target, ha', -⟩
      rw [ha] at ha'
      cases ha'
    | some a =>
      rw [ha] at h
      dsimp only at h
      split at h
      · cases h
      obtain ⟨target, ht, h⟩ := lift_bind_ok h
      obtain ⟨next, u, hhop, hrest⟩ := bind_ok h
      clear h
      obtain ⟨rfl, hpath, hleft, hlayout⟩ := hop_layout hhop
      rw [Schema.lay_hop mode here.left ahead ha ht hpath.symm]
      -- the alias of a position has no say in the type of a join
      have hsame : hopIsLeft mode (Path.isOptional segment)
          ⟨here.entity, "", here.path, false, here.left⟩ a
            = hopIsLeft mode (Path.isOptional segment) here a := rfl
      rw [hsame, ← hleft, ← hlayout]
      split at hrest
      · next hlast =>
        rw [List.isEmpty_iff.1 hlast]
        obtain ⟨key, -, hkey⟩ := lift_bind_ok hrest
        cases hkey
        rfl
      · exact ih hrest

theorem resolve_layout (h : resolve σ root path mode s = (.ok r, t)) :
    t.plan.layout = σ.layPath root mode path s.plan.layout := by
  unfold resolve at h
  rw [bind_of_ok (get_apply s)] at h
  exact walk_layout h

end Planning

end RecordQuery
