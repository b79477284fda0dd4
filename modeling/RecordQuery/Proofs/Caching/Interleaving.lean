import RecordQuery.Proofs.Caching.Refill

/-!
List calls on one model that run at the same time. A call looks into the cache, loads its rows if
they are not there, and puts them there. Between these steps come steps of other calls, steps that
are not about the model, invalidations, and time.
-/

namespace RecordQuery

open Steps

/-- What a call has to load itself, and the key to keep it under, if it may be kept. -/
structure Errand where
  key : Option String
  query : CompiledQuery
  statement : Statement

inductive Stage
  | called
  | missed (errand : Errand)
  | loaded (key : String) (list : Loaded)
  | over (result : Except Error Loaded)

structure Traffic where
  session : Session
  calls : List (Request × Stage)

/-- A call is named by how many were made before it. -/
inductive Event
  | call (r : Request)
  | lookup (i : Nat)
  | execute (i : Nat) (rows : Except Error (List Record))
  | replace (i : Nat)
  | elsewhere
  | invalidate
  | advance (ms : Nat)

namespace Provider

def errand (p : Provider) (m : Model) (r : Request) (q : CompiledQuery) : Except Error Errand := do
  let statement ← q.query.rowStatement p.dialect
  if p.usesCache m r then
    let key ← r.cacheKey p.config.defaultProjection
    return ⟨some key, q, statement⟩
  else return ⟨none, q, statement⟩

def found (model : String) (s : Session) (errand : Errand) : Loaded ⊕ Errand :=
  match errand.key.bind fun key => lookup? model key s with
  | some list => .inl list
  | none => .inr errand

def look (p : Provider) (model : String) (r : Request) : Steps Session (Loaded ⊕ Errand) := do
  let m ← p.model model
  let compiled ← p.compiling model r
  let errand ← p.errand m r compiled
  return found model (← get) errand

def keep (model : String) (list : Loaded) : Option String → Steps Session Unit
  | some key => store model key list
  | none => pure ()

def fulfil (execute : Execute) (model : String) (errand : Errand) : Steps Session Loaded := do
  let list ← load execute errand.query errand.statement
  keep model list errand.key
  return list

def receive (rows : Except Error (List Record)) : Steps Session Loaded := do
  loaded (← rows)

end Provider

namespace Stage

def afterLook : Except Error (Loaded ⊕ Errand) → Stage
  | .ok (.inl list) => .over (.ok list)
  | .ok (.inr errand) => .missed errand
  | .error e => .over (.error e)

def afterLoad (key : Option String) : Except Error Loaded → Stage
  | .ok list =>
    match key with
    | some key => .loaded key list
    | none => .over (.ok list)
  | .error e => .over (.error e)

end Stage

namespace Traffic

def proceed (t : Traffic) (i : Nat) (r : Request) (stage : Stage) (s : Session) : Traffic :=
  ⟨s, t.calls.set i (r, stage)⟩

def entry? (t : Traffic) (model : String) : Option (CacheEntry Loaded) :=
  (t.session.caches.get? model).bind ListCache.entry

end Traffic

/-- Sessions that differ beside the clock and the cache of the model: in the statements sent, the
computed values and lists counted, and other caches. -/
structure Session.Beside (model : String) (s t : Session) : Prop where
  cache : t.caches.get? model = s.caches.get? model
  clock : t.clock = s.clock

/-- One step of a call on the model, or something else that goes on meanwhile. -/
inductive Happens (p : Provider) (model : String) : Traffic → Event → Traffic → Prop
  | call (t : Traffic) (r : Request) :
    Happens p model t (.call r) ⟨t.session, t.calls ++ [(r, .called)]⟩
  | lookup {t : Traffic} {i : Nat} {r : Request} : t.calls[i]? = some (r, .called) →
    Happens p model t (.lookup i) (t.proceed i r (.afterLook (p.look model r t.session).1)
      (p.look model r t.session).2)
  | execute {t : Traffic} {i : Nat} {r : Request} {errand : Errand}
    (rows : Except Error (List Record)) : t.calls[i]? = some (r, .missed errand) →
    Happens p model t (.execute i rows)
      (t.proceed i r (.afterLoad errand.key (Provider.receive rows t.session).1)
        (Provider.receive rows t.session).2)
  | replace {t : Traffic} {i : Nat} {r : Request} {key : String} {list : Loaded} :
    t.calls[i]? = some (r, .loaded key list) →
    Happens p model t (.replace i)
      (t.proceed i r (.over (.ok list)) (Provider.store model key list t.session).2)
  | elsewhere {t : Traffic} {s : Session} : t.session.Beside model s →
    Happens p model t .elsewhere ⟨s, t.calls⟩
  | invalidate (t : Traffic) :
    Happens p model t .invalidate ⟨(p.invalidate model t.session).2, t.calls⟩
  | advance (t : Traffic) (ms : Nat) :
    Happens p model t (.advance ms) ⟨(Provider.advance ms t.session).2, t.calls⟩

inductive History (p : Provider) (model : String) (uses : Nat) : List Event → Traffic → Prop
  | start : History p model uses [] ⟨p.session uses, []⟩
  | next {past : List Event} {t t' : Traffic} {event : Event} : History p model uses past t →
    Happens p model t event t' → History p model uses (past ++ [event]) t'

namespace Traffic

def take? (p : Provider) (model : String) (t : Traffic) : Event → Option Traffic
  | .call r => some ⟨t.session, t.calls ++ [(r, .called)]⟩
  | .lookup i =>
    match t.calls[i]? with
    | some (r, .called) =>
      some (t.proceed i r (.afterLook (p.look model r t.session).1) (p.look model r t.session).2)
    | _ => none
  | .execute i rows =>
    match t.calls[i]? with
    | some (r, .missed errand) =>
      some (t.proceed i r (.afterLoad errand.key (Provider.receive rows t.session).1)
        (Provider.receive rows t.session).2)
    | _ => none
  | .replace i =>
    match t.calls[i]? with
    | some (r, .loaded key list) =>
      some (t.proceed i r (.over (.ok list)) (Provider.store model key list t.session).2)
    | _ => none
  | .elsewhere => some t
  | .invalidate => some ⟨(p.invalidate model t.session).2, t.calls⟩
  | .advance ms => some ⟨(Provider.advance ms t.session).2, t.calls⟩

def run? (p : Provider) (model : String) (uses : Nat) (events : List Event) : Option Traffic :=
  events.foldlM (take? p model) ⟨p.session uses, []⟩

def answer? (t : Traffic) (i : Nat) : Option (Request × Loaded) :=
  match t.calls[i]? with
  | some (r, .over (.ok list)) => some (r, list)
  | _ => none

theorem calls_of_answer? {t : Traffic} {i : Nat} {r : Request} {list : Loaded}
    (h : t.answer? i = some (r, list)) : t.calls[i]? = some (r, .over (.ok list)) := by
  unfold answer? at h
  split at h
  · next hi =>
    cases h
    exact hi
  · cases h

end Traffic

namespace Event

def caller? : Event → Option Nat
  | .lookup i | .execute i _ | .replace i => some i
  | _ => none

def rewrites : Event → Bool
  | .replace _ | .invalidate => true
  | _ => false

def span : Event → Nat
  | .advance ms => ms
  | _ => 0

end Event

def elapsed : List Event → Nat
  | [] => 0
  | event :: rest => event.span + elapsed rest

def ownSteps (i : Nat) (events : List Event) : List Event :=
  events.filter fun event => event.caller? = some i

@[simp] theorem elapsed_append (before after : List Event) :
    elapsed (before ++ after) = elapsed before + elapsed after := by
  induction before with
  | nil => simp [elapsed]
  | cons event rest ih => rw [List.cons_append, elapsed, elapsed, ih, Nat.add_assoc]

@[simp] theorem ownSteps_append (i : Nat) (before after : List Event) :
    ownSteps i (before ++ after) = ownSteps i before ++ ownSteps i after :=
  List.filter_append ..

section Run

variable {p : Provider} {model : String} {uses : Nat} {past events : List Event} {t t' : Traffic}
  {event : Event}

theorem happens_of_take? (h : t.take? p model event = some t') : Happens p model t event t' := by
  cases event with
  | call r =>
    cases h
    exact .call t r
  | lookup i =>
    simp only [Traffic.take?] at h
    split at h
    · next hi =>
      cases h
      exact .lookup hi
    · cases h
  | execute i rows =>
    simp only [Traffic.take?] at h
    split at h
    · next hi =>
      cases h
      exact .execute rows hi
    · cases h
  | replace i =>
    simp only [Traffic.take?] at h
    split at h
    · next hi =>
      cases h
      exact .replace hi
    · cases h
  | elsewhere =>
    cases h
    exact .elsewhere ⟨rfl, rfl⟩
  | invalidate =>
    cases h
    exact .invalidate t
  | advance ms =>
    cases h
    exact .advance t ms

theorem history_foldlM (hpast : History p model uses past t)
    (h : events.foldlM (Traffic.take? p model) t = some t') :
    History p model uses (past ++ events) t' := by
  induction events generalizing past t with
  | nil =>
    cases h
    rwa [List.append_nil]
  | cons event events ih =>
    obtain ⟨u, hu, hrest⟩ := Option.bind_eq_some_iff.1 h
    have hnext := ih (hpast.next (happens_of_take? hu)) hrest
    rwa [List.append_assoc] at hnext

theorem history_of_run? (h : Traffic.run? p model uses events = some t) :
    History p model uses events t :=
  history_foldlM .start h

theorem exists_answer {β : Type} {f : Request × Loaded → β} {i : Nat} {b : β}
    (h : (Traffic.run? p model uses events).bind (fun t => (t.answer? i).map f) = some b) :
    ∃ t r list, History p model uses events t ∧ t.calls[i]? = some (r, .over (.ok list)) := by
  obtain ⟨t, hrun, hanswer⟩ := Option.bind_eq_some_iff.1 h
  obtain ⟨⟨r, list⟩, hanswer, -⟩ := Option.map_eq_some_iff.1 hanswer
  exact ⟨t, r, list, history_of_run? hrun, Traffic.calls_of_answer? hanswer⟩

end Run

namespace Provider

variable {p : Provider} {model : String} {r : Request} {s : Session} {execute : Execute}

theorem load_apply (q : CompiledQuery) (statement : Statement) :
    load execute q statement s
      = receive (execute q statement s).1 (execute q statement s).2 := by
  unfold load receive
  rw [bind_apply, bind_apply]
  rcases execute q statement s with ⟨x, t⟩
  cases x <;> rfl

theorem listWith_eq (execute : Execute) (model : String) (r : Request) :
    p.listWith execute model r = (do
      match ← p.look model r with
      | .inl list => return list
      | .inr errand => fulfil execute model errand) := by
  unfold listWith look errand
  simp only [bind_assoc]
  congr! 4 with m q
  cases q.query.rowStatement p.dialect with
  | error e => rfl
  | ok statement =>
    cases p.usesCache m r with
    | false =>
      change load execute q statement = fulfil execute model ⟨none, q, statement⟩
      simp [fulfil, keep]
    | true =>
      cases r.cacheKey p.config.defaultProjection with
      | error e => rfl
      | ok key =>
        -- whether the cache has the key depends on the session
        funext s
        change cachedList execute model key q statement s
          = (match found model s ⟨some key, q, statement⟩ with
            | .inl list => pure list
            | .inr errand => fulfil execute model errand : Steps Session Loaded) s
        unfold found
        cases hlookup : lookup? model key s with
        | some list =>
          rw [cachedList_hit hlookup, Option.bind_some, hlookup]
          rfl
        | none =>
          rw [cachedList_miss hlookup, Option.bind_some, hlookup]
          rfl

end Provider

end RecordQuery
