import GenropyAsgi.GlobalStore.Dates

/-!
# Threads on one dictionary

Any number of threads, of any number of workers, on the commander's dictionary. Of the core it is
assumed that one exclusive FIFO lock covers `get`, `set`, `delete` and the whole life of a
`for_update` turn. A thread that asks for an operation resolves its road (`Call.road`): inside its
block the private dictionary, without the lock; outside, a plain call, a keyed turn or a turn on the
whole dictionary, for which it waits in the queue. `log` has what each thread was answered.

The lock makes every run a serial one: the operations and the blocks, in the order in which they
gave the lock back, answer and leave what they did in the run (`global_store_serializable`).
-/

namespace GenropyAsgi.GlobalStore

open Library

variable {A : Type}

/-! ## The roads outside a block -/

/-- An operation that holds the lock, with what it took with it. -/
inductive Road (A : Type) where
  /-- A `get`: what the core answered, the path inside it and the default. -/
  | get (value : Option (Value A)) (rest : String) (default : Value A)
  /-- A `set`. -/
  | set (key : String) (value : Value A)
  /-- A `delete`. -/
  | delete (key : String)
  /-- The keyed turn of a write. -/
  | keyedSet (keyed : KeyedTurn A) (rest : String) (value : Value A)
  /-- The keyed turn of a delete. -/
  | keyedDelete (keyed : KeyedTurn A) (rest : String)
  /-- The turn of the whole-store reader. -/
  | whole (content : Content A)

section

variable (zone : ℤ)

/-- The road of an operation outside a block, as the lock is taken; a write or a delete without a
path is refused before. -/
def Call.road (master : Master A) : Call A → Except GlobalError (Road A)
  | .get path default =>
    match splitGlobalPath path with
    | (none, _) => .ok (.whole (master.forUpdate zone))
    | (some key, rest) => .ok (.get (master.get zone key) rest default)
  | .set path value =>
    match splitGlobalPath (some path) with
    | (none, _) => .error writeNeedsPath
    | (some key, rest) =>
      if rest = "" then .ok (.set key (wireValue zone value))
      else .ok (.keyedSet (KeyedTurn.enter zone master key) rest value)
  | .delete path =>
    match splitGlobalPath (some path) with
    | (none, _) => .error deleteNeedsPath
    | (some key, rest) =>
      if rest = "" then .ok (.delete key)
      else .ok (.keyedDelete (KeyedTurn.enter zone master key) rest)
  | .storeBag => .ok (.whole (master.forUpdate zone))

/-- The end of an operation, as the lock is given back: the reader and a delete of nothing abort
their turns. -/
def Road.finish (master : Master A) : Road A → Master A × Answer A
  | .get value rest default =>
    (master, .value (match value with
      | none => default
      | some value => legacyRead zone value rest default))
  | .set key value => (master.set zone key value, .done)
  | .delete key => (master.delete key, .done)
  | .keyedSet keyed rest value => ((keyed.write rest value).exit zone master, .done)
  | .keyedDelete keyed rest =>
    match keyed.delete rest with
    | none => (master, .done)
    | some keyed => (keyed.exit zone master, .done)
  | .whole content => (master, .value (asLegacyBag zone content))

/-- The site of a thread outside any block. -/
def alone (master : Master A) : Site A := ⟨some master, none, .bag []⟩

/-- The site of a thread inside a block. -/
def inside (master : Master A) (content : Content A) : Site A :=
  ⟨some master, some content, .bag []⟩

/-- An operation that takes its road and comes to its end on the same dictionary does what it does
alone, and one that is refused changes nothing. -/
theorem call_alone (master : Master A) (c : Call A) :
    (alone master).call zone c =
      match c.road zone master with
      | .error error => (alone master, .raised error)
      | .ok road => (alone (road.finish zone master).1, (road.finish zone master).2) := by
  cases c with
  | get path default =>
    rw [Call.road, Site.call, Site.getGlobalItem]
    cases splitGlobalPath path with
    | mk key rest =>
      cases key with
      | none => rfl
      | some key => rfl
  | storeBag => rfl
  | set path value =>
    rw [Call.road, Site.call, Site.setGlobalItem]
    cases splitGlobalPath (some path) with
    | mk key rest =>
      cases key with
      | none => rfl
      | some key =>
        dsimp only [alone]
        split_ifs
        · rfl
        · rfl
  | delete path =>
    rw [Call.road, Site.call, Site.deleteGlobalItem]
    cases splitGlobalPath (some path) with
    | mk key rest =>
      cases key with
      | none => rfl
      | some key =>
        dsimp only [alone]
        split_ifs
        · rfl
        · -- A delete of nothing aborts its turn.
          dsimp only
          rw [Road.finish]
          cases (KeyedTurn.enter zone master key).delete rest with
          | none => rfl
          | some keyed => rfl

/-- An operation inside a block works on the private dictionary alone. -/
theorem call_inside (master : Master A) (content : Content A) (c : Call A) :
    ∃ content', ((inside master content).call zone c).1 = inside master content' := by
  cases c with
  | get path default => exact ⟨content, rfl⟩
  | storeBag => exact ⟨content, rfl⟩
  | set path value =>
    rw [Site.call, Site.setGlobalItem]
    cases splitGlobalPath (some path) with
    | mk key rest =>
      cases key with
      | none => exact ⟨content, rfl⟩
      | some key => exact ⟨writeInto zone content key rest value, rfl⟩
  | delete path =>
    rw [Site.call, Site.deleteGlobalItem]
    cases splitGlobalPath (some path) with
    | mk key rest =>
      cases key with
      | none => exact ⟨content, rfl⟩
      | some key => exact ⟨deleteFrom content key rest, rfl⟩

end

/-! ## What a serial order does -/

/-- What a thread does inside a block: an operation, or the enter of a nested block. -/
inductive Ask (A : Type) where
  /-- An operation. -/
  | call (c : Call A)
  /-- The enter of a block. -/
  | enter

/-- A thread's step inside a block, with its answer. -/
def Site.ask (zone : ℤ) (site : Site A) : Ask A → Site A × Answer A
  | .call c => site.call zone c
  | .enter => site.settle (site.openTurn zone)

/-- One step of a serial order. -/
inductive Job (A : Type) where
  /-- An operation outside any block. -/
  | single (c : Call A)
  /-- A block: what it does, and whether its body raised. -/
  | block (asks : List (Ask A)) (raised : Bool)

/-- A job done alone: what it leaves of the dictionary, and what it answers. -/
def Job.run (zone : ℤ) (master : Master A) : Job A → Master A × List (Answer A)
  | .single c =>
    let done := (alone master).call zone c
    (done.1.master.getD master, [done.2])
  | .block asks raised =>
    match (alone master).openTurn zone with
    | .error error => (master, [.raised error])
    | .ok site =>
      let body := serve (Site.ask zone) site asks
      ((body.1.closeTurn zone raised).master.getD master, body.2)

/-- A thread is told this. -/
inductive Told (A : Type) where
  /-- The answer of an operation outside any block. -/
  | answered (c : Call A) (answer : Answer A)
  /-- Its block has the dictionary. -/
  | entered
  /-- The answer of a step inside its block. -/
  | said (ask : Ask A) (answer : Answer A)
  /-- Its block is left. -/
  | exited (raised : Bool)

/-- What a thread is told of a job. -/
def Job.told : Job A → List (Answer A) → List (Told A)
  | .single c, answers => answers.map (Told.answered c)
  | .block asks raised, answers =>
    .entered :: List.zipWith Told.said asks answers ++ [.exited raised]

/-- A job of a thread with its answers, as it stands in a serial order. -/
structure Served (T A : Type) where
  /-- The thread. -/
  thread : T
  /-- Its job. -/
  job : Job A
  /-- What was answered. -/
  answers : List (Answer A)

/-! ## Threads under one lock -/

/-- What a thread is at. -/
inductive Doing (A : Type) where
  /-- Nothing with the store. -/
  | idle
  /-- It waits for the lock, for an operation or to enter a block. -/
  | waiting (call : Option (Call A))
  /-- It holds the lock for an operation. -/
  | holding (c : Call A) (road : Road A)
  /-- It is inside its block: `active_turn`, with the private dictionary. -/
  | turn (content : Content A)

/-- `active_turn` of a thread. -/
def Doing.activeTurn : Doing A → Option (Content A)
  | .turn content => some content
  | .idle => none
  | .waiting _ => none
  | .holding _ _ => none

/-- The threads and the commander. -/
structure Lane (T A : Type) where
  /-- The commander's dictionary. -/
  master : Master A
  /-- The thread that holds the lock. -/
  holder : Option T
  /-- The threads that wait for it, the first one first. -/
  queue : List T
  /-- What each thread is at. -/
  doing : T → Doing A
  /-- What the threads were told, in order. -/
  log : List (T × Told A)

/-- What happens next. -/
inductive Action (T A : Type) where
  /-- A thread calls an operation, or enters a block. -/
  | ask (t : T) (ask : Ask A)
  /-- The lock is given to the first thread of the queue. -/
  | grant
  /-- A thread's operation comes to its end. -/
  | finish (t : T)
  /-- A thread leaves its block. -/
  | exit (t : T) (raised : Bool)

section

variable {T : Type} [DecidableEq T]

/-- The commander with its dictionary, before any thread asks. -/
def Lane.start (master : Master A) : Lane T A := ⟨master, none, [], fun _ => .idle, []⟩

/-- One step of the threads, `none` where the action is not enabled. -/
def Lane.step (zone : ℤ) (s : Lane T A) : Action T A → Option (Lane T A)
  | .ask t ask =>
    match s.doing t with
    -- Outside its block a thread takes the lock first, unless it is refused before.
    | .idle =>
      match ask with
      | .enter => some { s with
          queue := s.queue ++ [t]
          doing := Function.update s.doing t (.waiting none) }
      | .call c =>
        match c.road zone s.master with
        | .error error => some { s with log := s.log ++ [(t, .answered c (.raised error))] }
        | .ok _ => some { s with
            queue := s.queue ++ [t]
            doing := Function.update s.doing t (.waiting (some c)) }
    -- Inside its block it has the private dictionary, and the lock already.
    | .turn content =>
      let said := (inside s.master content).ask zone ask
      some { s with
        doing := Function.update s.doing t (.turn (said.1.turn.getD content))
        log := s.log ++ [(t, .said ask said.2)] }
    | .waiting _ => none
    | .holding _ _ => none
  | .grant =>
    match s.holder, s.queue with
    | none, t :: queue =>
      match s.doing t with
      | .waiting none => some { s with
          holder := some t
          queue := queue
          doing := Function.update s.doing t (.turn (s.master.forUpdate zone))
          log := s.log ++ [(t, .entered)] }
      | .waiting (some c) =>
        match c.road zone s.master with
        -- What a path refuses does not depend on the dictionary, so that no refused thread waits.
        | .error _ => none
        | .ok road => some { s with
            holder := some t
            queue := queue
            doing := Function.update s.doing t (.holding c road) }
      | .idle => none
      | .holding _ _ => none
      | .turn _ => none
    | none, [] => none
    | some _, _ => none
  | .finish t =>
    match s.doing t with
    | .holding c road =>
      let done := road.finish zone s.master
      some { s with
        master := done.1
        holder := none
        doing := Function.update s.doing t .idle
        log := s.log ++ [(t, .answered c done.2)] }
    | .idle => none
    | .waiting _ => none
    | .turn _ => none
  | .exit t raised =>
    match s.doing t with
    | .turn content => some { s with
        master := ((inside s.master content).closeTurn zone raised).master.getD s.master
        holder := none
        doing := Function.update s.doing t .idle
        log := s.log ++ [(t, .exited raised)] }
    | .idle => none
    | .waiting _ => none
    | .holding _ _ => none

/-! ## What one step does -/

/-- What a thread that is at nothing can ask: a block or an operation, for which it waits, or an
operation that is refused. A thread inside its block is answered at once. -/
theorem step_ask_cases {zone : ℤ} {s s' : Lane T A} {t : T} {ask : Ask A}
    (hs : s.step zone (.ask t ask) = some s') :
    (∃ call, s.doing t = .idle ∧ s' = { s with
      queue := s.queue ++ [t], doing := Function.update s.doing t (.waiting call) }) ∨
    (∃ c error, s.doing t = .idle ∧ c.road zone s.master = .error error ∧
      s' = { s with log := s.log ++ [(t, .answered c (.raised error))] }) ∨
    ∃ content, s.doing t = .turn content ∧ s' = { s with
      doing := Function.update s.doing t
        (.turn (((inside s.master content).ask zone ask).1.turn.getD content))
      log := s.log ++ [(t, .said ask ((inside s.master content).ask zone ask).2)] } := by
  unfold Lane.step at hs
  dsimp only at hs
  cases hdoing : s.doing t with
  | idle =>
    rw [hdoing] at hs
    cases ask with
    | enter => exact Or.inl ⟨none, rfl, (Option.some.inj hs).symm⟩
    | call c =>
      dsimp only at hs
      cases hroad : c.road zone s.master with
      | error error =>
        rw [hroad] at hs
        exact Or.inr (Or.inl ⟨c, error, rfl, hroad, (Option.some.inj hs).symm⟩)
      | ok road =>
        rw [hroad] at hs
        exact Or.inl ⟨some c, rfl, (Option.some.inj hs).symm⟩
  | turn content =>
    rw [hdoing] at hs
    exact Or.inr (Or.inr ⟨content, rfl, (Option.some.inj hs).symm⟩)
  | waiting call =>
    rw [hdoing] at hs
    cases hs
  | holding c road =>
    rw [hdoing] at hs
    cases hs

/-- The lock is free, and it is given to the first of the queue: for its block, with the private
copy, or for its operation. -/
theorem step_grant_cases {zone : ℤ} {s s' : Lane T A} (hs : s.step zone .grant = some s') :
    ∃ t queue, s.holder = none ∧
      ((s.doing t = .waiting none ∧ s' = { s with
        holder := some t
        queue := queue
        doing := Function.update s.doing t (.turn (s.master.forUpdate zone))
        log := s.log ++ [(t, .entered)] }) ∨
      ∃ c road, s.doing t = .waiting (some c) ∧ c.road zone s.master = .ok road ∧ s' = { s with
        holder := some t
        queue := queue
        doing := Function.update s.doing t (.holding c road) }) := by
  unfold Lane.step at hs
  dsimp only at hs
  cases hholder : s.holder with
  | some u =>
    rw [hholder] at hs
    cases hs
  | none =>
    cases hqueue : s.queue with
    | nil =>
      rw [hholder, hqueue] at hs
      cases hs
    | cons t queue =>
      rw [hholder, hqueue] at hs
      dsimp only at hs
      refine ⟨t, queue, rfl, ?_⟩
      cases hdoing : s.doing t with
      | waiting call =>
        rw [hdoing] at hs
        cases call with
        | none => exact Or.inl ⟨rfl, (Option.some.inj hs).symm⟩
        | some c =>
          dsimp only at hs
          cases hroad : c.road zone s.master with
          | error error =>
            rw [hroad] at hs
            cases hs
          | ok road =>
            rw [hroad] at hs
            exact Or.inr ⟨c, road, rfl, hroad, (Option.some.inj hs).symm⟩
      | idle =>
        rw [hdoing] at hs
        cases hs
      | holding c road =>
        rw [hdoing] at hs
        cases hs
      | turn content =>
        rw [hdoing] at hs
        cases hs

/-- A thread that holds the lock for an operation ends it. -/
theorem step_finish_eq {zone : ℤ} {s s' : Lane T A} {t : T}
    (hs : s.step zone (.finish t) = some s') :
    ∃ c road, s.doing t = .holding c road ∧ s' = { s with
      master := (road.finish zone s.master).1
      holder := none
      doing := Function.update s.doing t .idle
      log := s.log ++ [(t, .answered c (road.finish zone s.master).2)] } := by
  unfold Lane.step at hs
  dsimp only at hs
  cases hdoing : s.doing t with
  | holding c road =>
    rw [hdoing] at hs
    exact ⟨c, road, rfl, (Option.some.inj hs).symm⟩
  | idle =>
    rw [hdoing] at hs
    cases hs
  | waiting call =>
    rw [hdoing] at hs
    cases hs
  | turn content =>
    rw [hdoing] at hs
    cases hs

/-- A thread inside its block leaves it, and is at nothing. -/
theorem step_exit_eq {zone : ℤ} {s s' : Lane T A} {t : T} {raised : Bool}
    (hs : s.step zone (.exit t raised) = some s') :
    ∃ content, s.doing t = .turn content ∧ s' = { s with
      master := ((inside s.master content).closeTurn zone raised).master.getD s.master
      holder := none
      doing := Function.update s.doing t .idle
      log := s.log ++ [(t, .exited raised)] } := by
  unfold Lane.step at hs
  dsimp only at hs
  cases hdoing : s.doing t with
  | turn content =>
    rw [hdoing] at hs
    exact ⟨content, rfl, (Option.some.inj hs).symm⟩
  | idle =>
    rw [hdoing] at hs
    cases hs
  | waiting call =>
    rw [hdoing] at hs
    cases hs
  | holding c road =>
    rw [hdoing] at hs
    cases hs

/-- After any exit the thread has no active turn and the lock is free. -/
theorem step_exit {zone : ℤ} {s s' : Lane T A} {t : T} {raised : Bool}
    (hs : s.step zone (.exit t raised) = some s') :
    (s'.doing t).activeTurn = none ∧ s'.holder = none := by
  obtain ⟨content, -, rfl⟩ := step_exit_eq hs
  dsimp only
  rw [Function.update_self]
  exact ⟨rfl, rfl⟩

/-! ## What one thread was told -/

/-- What one thread was told. -/
def own (t : T) (log : List (T × Told A)) : List (Told A) :=
  log.filterMap fun entry => if entry.1 = t then some entry.2 else none

/-- What one thread was told in a serial order. -/
def ownServed (t : T) (order : List (Served T A)) : List (Told A) :=
  (order.filter fun served => served.thread = t).flatMap fun served =>
    served.job.told served.answers

/-- One entry more. -/
theorem own_concat (t u : T) (log : List (T × Told A)) (told : Told A) :
    own t (log ++ [(u, told)]) = own t log ++ if u = t then [told] else [] := by
  unfold own
  rw [List.filterMap_append]
  split_ifs with h
  · simp [h]
  · simp [h]

/-- One job more. -/
theorem ownServed_concat (t : T) (order : List (Served T A)) (served : Served T A) :
    ownServed t (order ++ [served]) = ownServed t order ++
      if served.thread = t then served.job.told served.answers else [] := by
  unfold ownServed
  rw [List.filter_append, List.flatMap_append]
  split_ifs with h
  · simp [h]
  · simp [h]

/-! ## Every run is a serial one -/

/-- Where a thread stands between what it was told and what it was served in the order: outside a
block they are the same, and the dictionary has not changed since its operation took the lock;
inside its block it was told, since, what the block says on the dictionary as it is. -/
def InStep (zone : ℤ) (master : Master A) (holder : Option T) (t : T)
    (told served : List (Told A)) : Doing A → Prop
  | .idle => told = served
  | .waiting _ => told = served
  | .holding c road => told = served ∧ holder = some t ∧ c.road zone master = .ok road
  | .turn content => holder = some t ∧ ∃ said : List (Ask A × Answer A),
      told = served ++ .entered :: said.map (fun step => Told.said step.1 step.2) ∧
        serve (Site.ask zone) (inside master (master.forUpdate zone)) (said.map Prod.fst) =
          (inside master content, said.map Prod.snd)

omit [DecidableEq T] in
/-- Where a thread without the lock stands does not depend on the dictionary and its holder. -/
theorem InStep.of_not_holder {zone : ℤ} {master : Master A} {holder : Option T} {t : T}
    {told served : List (Told A)} {doing : Doing A}
    (h : InStep zone master holder t told served doing) (hholder : holder ≠ some t)
    (master' : Master A) (holder' : Option T) :
    InStep zone master' holder' t told served doing := by
  cases doing with
  | idle => exact h
  | waiting call => exact h
  | holding c road => exact absurd h.2.1 hholder
  | turn content => exact absurd h.1 hholder

omit [DecidableEq T] in
/-- A thread outside any block was told what it was served in the order. -/
theorem InStep.outside {zone : ℤ} {master : Master A} {holder : Option T} {t : T}
    {told served : List (Told A)} {doing : Doing A}
    (h : InStep zone master holder t told served doing) (hnone : doing.activeTurn = none) :
    told = served := by
  cases doing with
  | idle => exact h
  | waiting call => exact h
  | holding c road => exact h.1
  | turn content => cases hnone

omit [DecidableEq T] in
/-- A thread inside its block was told, since, what the block says on the dictionary as it is. -/
theorem InStep.within {zone : ℤ} {master : Master A} {holder : Option T} {t : T}
    {told served : List (Told A)} {doing : Doing A} {content : Content A}
    (h : InStep zone master holder t told served doing) (hsome : doing.activeTurn = some content) :
    ∃ said : List (Ask A × Answer A),
      told = served ++ .entered :: said.map (fun step => Told.said step.1 step.2) ∧
        serve (Site.ask zone) (inside master (master.forUpdate zone)) (said.map Prod.fst) =
          (inside master content, said.map Prod.snd) := by
  cases doing with
  | turn other =>
    cases hsome
    exact h.2
  | idle => cases hsome
  | waiting call => cases hsome
  | holding c road => cases hsome

/-- The run so far is a serial one: the jobs of the order, done one after the other on the
dictionary `start`, leave the dictionary and answer what the threads were told. -/
structure Serialized (zone : ℤ) (start : Master A) (s : Lane T A) (order : List (Served T A)) :
    Prop where
  /-- The jobs of the order leave the dictionary, with their answers. -/
  replay : serve (Job.run zone) start (order.map Served.job) =
    (s.master, order.map Served.answers)
  /-- Every thread is in step with it. -/
  threads : ∀ t, InStep zone s.master s.holder t (own t s.log) (ownServed t order) (s.doing t)

namespace Serialized

variable {zone : ℤ} {start : Master A} {s : Lane T A} {order : List (Served T A)}

omit [DecidableEq T] in
/-- While the lock is free no other thread has it. -/
theorem not_held {holder : Option T} (hfree : holder = none) (t : T) :
    ∀ u, u ≠ t → holder ≠ some u := by
  intro u _ hu
  rw [hfree] at hu
  cases hu

/-- A move of one thread keeps the others in step, when it touches neither the dictionary nor the
lock, or none of them has the lock. -/
theorem move (h : Serialized zone start s order) {s' : Lane T A} {t : T} {doing : Doing A}
    {order' : List (Served T A)} (hdoing : s'.doing = Function.update s.doing t doing)
    (hreplay : serve (Job.run zone) start (order'.map Served.job) =
      (s'.master, order'.map Served.answers))
    (hself : InStep zone s'.master s'.holder t (own t s'.log) (ownServed t order') doing)
    (htold : ∀ u, u ≠ t → own u s'.log = own u s.log ∧ ownServed u order' = ownServed u order)
    (hlock : (s'.master = s.master ∧ s'.holder = s.holder) ∨ ∀ u, u ≠ t → s.holder ≠ some u) :
    Serialized zone start s' order' where
  replay := hreplay
  threads u := by
    rw [hdoing]
    by_cases hut : u = t
    · subst hut
      rw [Function.update_self]
      exact hself
    · rw [Function.update_of_ne hut, (htold u hut).1, (htold u hut).2]
      rcases hlock with ⟨hmaster, hholder⟩ | hfree
      · rw [hmaster, hholder]
        exact h.threads u
      · exact (h.threads u).of_not_holder (hfree u hut) _ _

/-- A thread that was told something alone. -/
theorem own_of_ne {t u : T} (hut : u ≠ t) (log : List (T × Told A)) (told : Told A) :
    own u (log ++ [(t, told)]) = own u log := by
  rw [own_concat, if_neg (Ne.symm hut), List.append_nil]

/-- What the thread itself was told. -/
theorem own_self (t : T) (log : List (T × Told A)) (told : Told A) :
    own t (log ++ [(t, told)]) = own t log ++ [told] := by rw [own_concat, if_pos rfl]

/-- A job of a thread is none of another one's. -/
theorem ownServed_of_ne {t u : T} (hut : u ≠ t) (job : Job A) (answers : List (Answer A)) :
    ownServed u (order ++ [⟨t, job, answers⟩]) = ownServed u order := by
  rw [ownServed_concat, if_neg (Ne.symm hut), List.append_nil]

/-- What a thread is told of its own jobs. -/
theorem ownServed_self (t : T) (job : Job A) (answers : List (Answer A)) :
    ownServed t (order ++ [⟨t, job, answers⟩]) = ownServed t order ++ job.told answers := by
  rw [ownServed_concat, if_pos rfl]

/-- One job more at the end of the order. -/
theorem replay_concat (h : Serialized zone start s order) (t : T) {job : Job A}
    {master : Master A} {answers : List (Answer A)}
    (hjob : job.run zone s.master = (master, answers)) :
    serve (Job.run zone) start ((order ++ [(⟨t, job, answers⟩ : Served T A)]).map Served.job) =
      (master, (order ++ [(⟨t, job, answers⟩ : Served T A)]).map Served.answers) := by
  rw [List.map_append, List.map_append, List.map_singleton, List.map_singleton, serve_concat,
    h.replay, hjob]

/-- A thread begins to wait. -/
theorem wait (h : Serialized zone start s order) {t : T} (hidle : s.doing t = .idle)
    (call : Option (Call A)) (queue : List T) :
    Serialized zone start
      { s with queue := queue, doing := Function.update s.doing t (.waiting call) } order := by
  have hself := h.threads t
  rw [hidle] at hself
  exact h.move rfl h.replay hself (fun u _ => ⟨rfl, rfl⟩) (Or.inl ⟨rfl, rfl⟩)

/-- An operation is refused without the lock: a job that changes nothing. -/
theorem refuse (h : Serialized zone start s order) {t : T} (hidle : s.doing t = .idle)
    {c : Call A} {error : GlobalError} (hroad : c.road zone s.master = .error error) :
    Serialized zone start { s with log := s.log ++ [(t, .answered c (.raised error))] }
      (order ++ [⟨t, .single c, [.raised error]⟩]) := by
  have hself := h.threads t
  rw [hidle] at hself
  have hjob : (Job.single c).run zone s.master = (s.master, [.raised error]) := by
    rw [Job.run, call_alone, hroad]
    rfl
  have hdoing : s.doing = Function.update s.doing t .idle := by
    rw [← hidle, Function.update_eq_self]
  refine h.move hdoing (h.replay_concat t hjob) ?_ ?_ (Or.inl ⟨rfl, rfl⟩)
  · show own t (s.log ++ [(t, .answered c (.raised error))]) = _
    rw [own_self, ownServed_self, hself]
    rfl
  · exact fun u hut => ⟨own_of_ne hut _ _, ownServed_of_ne hut _ _⟩

/-- A step inside a block. -/
theorem speak (h : Serialized zone start s order) {t : T} {content : Content A}
    (hturn : s.doing t = .turn content) (ask : Ask A) :
    Serialized zone start
      { s with
        doing := Function.update s.doing t
          (.turn (((inside s.master content).ask zone ask).1.turn.getD content))
        log := s.log ++ [(t, .said ask ((inside s.master content).ask zone ask).2)] } order := by
  have hself := h.threads t
  rw [hturn] at hself
  obtain ⟨hholder, said, htold, hbody⟩ := hself
  refine h.move rfl h.replay ?_ (fun u hut => ⟨own_of_ne hut _ _, rfl⟩) (Or.inl ⟨rfl, rfl⟩)
  -- What the thread said in its block grows by one; no job is done yet.
  refine ⟨hholder, said ++ [(ask, ((inside s.master content).ask zone ask).2)], ?_, ?_⟩
  · rw [own_self, htold]
    simp
  · rw [List.map_append, List.map_append, List.map_singleton, List.map_singleton, serve_concat,
      hbody]
    -- The step stays inside: an operation works on the private dictionary, and a nested enter is
    -- refused.
    have hstays : ∃ content', ((inside s.master content).ask zone ask).1 =
        inside s.master content' := by
      cases ask with
      | call c => exact call_inside zone s.master content c
      | enter => exact ⟨content, rfl⟩
    obtain ⟨content', hcontent'⟩ := hstays
    dsimp only
    rw [hcontent']
    rfl

/-- A block is given the lock and the private copy of the dictionary. -/
theorem enter (h : Serialized zone start s order) {t : T} (hwaits : s.doing t = .waiting none)
    (hfree : s.holder = none) (queue : List T) :
    Serialized zone start
      { s with
        holder := some t
        queue := queue
        doing := Function.update s.doing t (.turn (s.master.forUpdate zone))
        log := s.log ++ [(t, .entered)] } order := by
  have hself := h.threads t
  rw [hwaits] at hself
  refine h.move rfl h.replay ?_ (fun u hut => ⟨own_of_ne hut _ _, rfl⟩)
    (Or.inr (not_held hfree t))
  refine ⟨rfl, [], ?_, rfl⟩
  rw [own_self, hself]
  rfl

/-- An operation is given the lock. -/
theorem take (h : Serialized zone start s order) {t : T} {c : Call A}
    (hwaits : s.doing t = .waiting (some c)) (hfree : s.holder = none) {road : Road A}
    (hroad : c.road zone s.master = .ok road) (queue : List T) :
    Serialized zone start
      { s with
        holder := some t
        queue := queue
        doing := Function.update s.doing t (.holding c road) } order := by
  have hself := h.threads t
  rw [hwaits] at hself
  exact h.move rfl h.replay ⟨hself, rfl, hroad⟩ (fun u _ => ⟨rfl, rfl⟩)
    (Or.inr (not_held hfree t))

/-- An operation comes to its end: a job of the order. -/
theorem finish (h : Serialized zone start s order) {t : T} {c : Call A} {road : Road A}
    (hholds : s.doing t = .holding c road) :
    Serialized zone start
      { s with
        master := (road.finish zone s.master).1
        holder := none
        doing := Function.update s.doing t .idle
        log := s.log ++ [(t, .answered c (road.finish zone s.master).2)] }
      (order ++ [⟨t, .single c, [(road.finish zone s.master).2]⟩]) := by
  have hself := h.threads t
  rw [hholds] at hself
  obtain ⟨htold, hholder, hroad⟩ := hself
  have hjob : (Job.single c).run zone s.master =
      ((road.finish zone s.master).1, [(road.finish zone s.master).2]) := by
    rw [Job.run, call_alone, hroad]
    rfl
  have hothers : ∀ u, u ≠ t → s.holder ≠ some u := by
    intro u hut hu
    rw [hholder] at hu
    exact hut (Option.some.inj hu).symm
  refine h.move rfl (h.replay_concat t hjob) ?_ ?_ (Or.inr hothers)
  · show own t (s.log ++ [(t, .answered c (road.finish zone s.master).2)]) = _
    rw [own_self, ownServed_self, htold]
    rfl
  · exact fun u hut => ⟨own_of_ne hut _ _, ownServed_of_ne hut _ _⟩

/-- A block is left: a job of the order. -/
theorem exit (h : Serialized zone start s order) {t : T} {content : Content A}
    (hturn : s.doing t = .turn content) (raised : Bool) :
    ∃ order', Serialized zone start
      { s with
        master := ((inside s.master content).closeTurn zone raised).master.getD s.master
        holder := none
        doing := Function.update s.doing t .idle
        log := s.log ++ [(t, .exited raised)] } order' := by
  have hself := h.threads t
  rw [hturn] at hself
  obtain ⟨hholder, said, htold, hbody⟩ := hself
  -- The block as a job, on the dictionary that nobody else has touched since it was entered.
  have hjob : (Job.block (said.map Prod.fst) raised).run zone s.master =
      (((inside s.master content).closeTurn zone raised).master.getD s.master,
        said.map Prod.snd) := by
    have hopen : (alone s.master).openTurn zone =
        .ok (inside s.master (s.master.forUpdate zone)) := rfl
    rw [Job.run, hopen]
    dsimp only
    rw [hbody]
  have hothers : ∀ u, u ≠ t → s.holder ≠ some u := by
    intro u hut hu
    rw [hholder] at hu
    exact hut (Option.some.inj hu).symm
  refine ⟨_, h.move rfl (h.replay_concat t hjob) ?_ ?_ (Or.inr hothers)⟩
  · show own t (s.log ++ [(t, .exited raised)]) = _
    have hzip : List.zipWith Told.said (said.map Prod.fst) (said.map Prod.snd) =
        said.map fun step => Told.said step.1 step.2 := by
      rw [List.zipWith_map, List.zipWith_self]
    rw [own_self, ownServed_self, htold, Job.told, hzip]
    simp
  · exact fun u hut => ⟨own_of_ne hut _ _, ownServed_of_ne hut _ _⟩

/-- Every step of the threads goes on with a serial order. -/
theorem step (h : Serialized zone start s order) {action : Action T A} {s' : Lane T A}
    (hs : s.step zone action = some s') : ∃ order', Serialized zone start s' order' := by
  cases action with
  | ask t ask =>
    rcases step_ask_cases hs with ⟨call, hidle, rfl⟩ | ⟨c, error, hidle, hroad, rfl⟩ |
      ⟨content, hturn, rfl⟩
    · exact ⟨order, h.wait hidle call _⟩
    · exact ⟨_, h.refuse hidle hroad⟩
    · exact ⟨order, h.speak hturn ask⟩
  | grant =>
    obtain ⟨t, queue, hfree, ⟨hwaits, rfl⟩ | ⟨c, road, hwaits, hroad, rfl⟩⟩ := step_grant_cases hs
    · exact ⟨order, h.enter hwaits hfree queue⟩
    · exact ⟨order, h.take hwaits hfree hroad queue⟩
  | finish t =>
    obtain ⟨c, road, hholds, rfl⟩ := step_finish_eq hs
    exact ⟨_, h.finish hholds⟩
  | exit t raised =>
    obtain ⟨content, hturn, rfl⟩ := step_exit_eq hs
    exact h.exit hturn raised

end Serialized

end

/-! ## What one job leaves alone -/

/-- The steps of a block that leave a path alone. -/
def Ask.LeavesAlone (path : String) : Ask A → Prop
  | .call c => (Act.call c).LeavesAlone path
  | .enter => True

/-- The jobs that leave a path alone: their writes and deletes go to paths that part from it. -/
def Job.LeavesAlone (path : String) : Job A → Prop
  | .single c => (Act.call c).LeavesAlone path
  | .block asks _ => ∀ ask ∈ asks, ask.LeavesAlone path

section

variable (zone : ℤ)

/-- The whole body of a block works on the private dictionary, and keeps there what it leaves
alone. -/
theorem body_frame (master : Master A) {path : String} {asks : List (Ask A)}
    (hasks : ∀ ask ∈ asks, ask.LeavesAlone path) (content : Content A) :
    ∃ content', (serve (Site.ask zone) (inside master content) asks).1 = inside master content' ∧
      PathTree.lookup (Value.bag content'.items) (labels path) =
        PathTree.lookup (Value.bag content.items) (labels path) := by
  have hstep : ∀ (site : Site A) (ask : Ask A),
      (∃ content', site = inside master content' ∧
        PathTree.lookup (Value.bag content'.items) (labels path) =
          PathTree.lookup (Value.bag content.items) (labels path)) →
      ask.LeavesAlone path →
      ∃ content', (site.ask zone ask).1 = inside master content' ∧
        PathTree.lookup (Value.bag content'.items) (labels path) =
          PathTree.lookup (Value.bag content.items) (labels path) := by
    rintro site ask ⟨content', rfl, hsame⟩ hask
    cases ask with
    | call c =>
      have hturn : (inside master content').turn = some content' := rfl
      obtain ⟨content'', hcall, hsame'⟩ := call_frame_turn zone hturn hask
      exact ⟨content'', hcall, hsame'.trans hsame⟩
    | enter => exact ⟨content', rfl, hsame⟩
  exact serve_invariant hstep ⟨content, rfl, rfl⟩ hasks

/-- The whole body of a block works on the private dictionary. -/
theorem body_inside (master : Master A) (asks : List (Ask A)) (content : Content A) :
    ∃ content', (serve (Site.ask zone) (inside master content) asks).1 =
      inside master content' := by
  have hstep : ∀ (site : Site A) (ask : Ask A), (∃ content', site = inside master content') →
      True → ∃ content', (site.ask zone ask).1 = inside master content' := by
    rintro site ask ⟨content', rfl⟩ -
    cases ask with
    | call c => exact call_inside zone master content' c
    | enter => exact ⟨content', rfl⟩
  exact serve_invariant hstep ⟨content, rfl⟩ fun _ _ => trivial

/-- A block that raised changes nothing. -/
theorem Job.run_raised (master : Master A) (asks : List (Ask A)) :
    ((Job.block asks true).run zone master).1 = master := by
  obtain ⟨content', hbody⟩ := body_inside zone master asks (master.forUpdate zone)
  have hopen : (alone master).openTurn zone = .ok (inside master (master.forUpdate zone)) := rfl
  rw [Job.run, hopen]
  dsimp only
  rw [hbody]
  rfl

/-- What a path leads to in the dictionary came off the wire. -/
theorem Master.isAware_of_lookup {master : Master A} {path : List String} {w : Value A}
    (h : PathTree.lookup (Value.bag master.content.items) path = some w) : w.IsAware := by
  have hbag : (Value.bag master.content.items).IsAware :=
    (Value.hereditary_isAware master.content.items).2 fun item hitem =>
      master.aware item.1 item.2 (OrderedDict.get_of_mem hitem)
  exact Value.hereditary_isAware.lookup hbag h

/-- A job keeps what it leaves alone. -/
theorem Job.run_frame (master : Master A) {job : Job A} {path : String} (hpath : Dotted path)
    (hjob : job.LeavesAlone path) :
    PathTree.lookup (Value.bag (job.run zone master).1.content.items) (labels path) =
      PathTree.lookup (Value.bag master.content.items) (labels path) := by
  cases job with
  | single c =>
    have hturn : (alone master).turn = none := rfl
    have hmaster : (alone master).master = some master := rfl
    obtain ⟨master', hcall, hsame⟩ := call_frame_master zone hturn hmaster hjob
    rw [Job.run]
    dsimp only
    rw [hcall]
    exact hsame
  | block asks raised =>
    cases raised with
    | true => rw [Job.run_raised]
    | false =>
      obtain ⟨content', hbody, hsame⟩ := body_frame zone master hjob (master.forUpdate zone)
      have hopen : (alone master).openTurn zone = .ok (inside master (master.forUpdate zone)) := rfl
      rw [Job.run, hopen]
      dsimp only
      rw [hbody]
      obtain ⟨key, rest, hparts⟩ := hpath.parts
      have hpublish := lookup_publish zone hparts content'
      rw [hsame, Master.forUpdate_eq] at hpublish
      refine Eq.trans hpublish ?_
      cases hlookup : PathTree.lookup (Value.bag master.content.items) (labels path) with
      | none => rfl
      | some w =>
        rw [Option.map_some, stored_of_isAware zone rest (Master.isAware_of_lookup hlookup)]

end

section

variable {T : Type} [DecidableEq T]

/-- Every run of any number of threads is a serial one. In some order of operations and blocks, each
one step, the dictionary is what they leave one after the other and every answer is what they
answer; a thread still inside its block was answered what the block answers on the dictionary as it
is. A block that raised changes nothing, what a job leaves alone is kept, and a thread that left its
block has no active turn, and the lock is free. -/
theorem global_store_serializable (zone : ℤ) (start : Master A) {actions : List (Action T A)}
    {s : Lane T A} (hrun : run (Lane.step zone) (Lane.start start) actions = some s) :
    (∃ order : List (Served T A),
      serve (Job.run zone) start (order.map Served.job) =
        (s.master, order.map Served.answers) ∧
      (∀ t, (s.doing t).activeTurn = none → own t s.log = ownServed t order) ∧
      ∀ t content, (s.doing t).activeTurn = some content →
        ∃ said : List (Ask A × Answer A),
          own t s.log = ownServed t order ++
            .entered :: said.map (fun step => Told.said step.1 step.2) ∧
          serve (Site.ask zone) (inside s.master (s.master.forUpdate zone)) (said.map Prod.fst) =
            (inside s.master content, said.map Prod.snd)) ∧
    (∀ (master : Master A) (asks : List (Ask A)),
      ((Job.block asks true).run zone master).1 = master) ∧
    (∀ (master : Master A) (job : Job A) (path : String), Dotted path → job.LeavesAlone path →
      PathTree.lookup (Value.bag (job.run zone master).1.content.items) (labels path) =
        PathTree.lookup (Value.bag master.content.items) (labels path)) ∧
    ∀ t raised s', s.step zone (.exit t raised) = some s' →
      (s'.doing t).activeTurn = none ∧ s'.holder = none := by
  refine ⟨?_, Job.run_raised zone, fun master job path hpath hjob =>
    Job.run_frame zone master hpath hjob, fun t raised s' hs => step_exit hs⟩
  have hstart : ∃ order, Serialized zone start (Lane.start start : Lane T A) order :=
    ⟨[], rfl, fun t => rfl⟩
  have hstep : ∀ (s : Lane T A) (action : Action T A) (s' : Lane T A),
      (∃ order, Serialized zone start s order) → s.step zone action = some s' →
      ∃ order, Serialized zone start s' order := by
    rintro s action s' ⟨order, horder⟩ hs
    exact horder.step hs
  obtain ⟨order, horder⟩ := run_invariant' hstep hstart hrun
  exact ⟨order, horder.replay, fun t hnone => (horder.threads t).outside hnone,
    fun t content hsome => (horder.threads t).within hsome⟩

/-- Two threads write two leaves of one key, the second one while the first is inside its block:
both are there at the end, as some serial order leaves them. -/
theorem global_store_serializable_two_threads :
    ∃ s : Lane Bool ℤ,
      (PathTree.lookup (Value.bag s.master.content.items) ["CACHE_TS", "invoices"]).isSome ∧
      (PathTree.lookup (Value.bag s.master.content.items) ["CACHE_TS", "customers"]).isSome ∧
      ∃ order : List (Served Bool ℤ), serve (Job.run 7200) Master.empty (order.map Served.job) =
        (s.master, order.map Served.answers) := by
  have hrun : (run (Lane.step 7200) (Lane.start Master.empty : Lane Bool ℤ)
      [.ask true .enter, .grant, .ask false (.call (.set "CACHE_TS.customers" (.scalar 2))),
        .ask true (.call (.set "CACHE_TS.invoices" (.scalar 1))), .exit true false, .grant,
        .finish false]).any (fun s =>
          (PathTree.lookup (Value.bag s.master.content.items) ["CACHE_TS", "invoices"]).isSome &&
          (PathTree.lookup (Value.bag s.master.content.items) ["CACHE_TS", "customers"]).isSome) =
      true := by decide +kernel
  obtain ⟨s, hs, hleaves⟩ := (Option.any_eq_true _ _).1 hrun
  obtain ⟨hinvoices, hcustomers⟩ := Bool.and_eq_true_iff.1 hleaves
  exact ⟨s, hinvoices, hcustomers,
    (global_store_serializable 7200 Master.empty hs).1.imp fun _ h => h.1⟩

end

end GenropyAsgi.GlobalStore
