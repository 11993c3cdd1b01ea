import GenropyAsgi.Library.Feed
import GenropyAsgi.Commander
import GenropyAsgi.TableEvents
import GenropyAsgi.Delivery.Machine

/-!
# The subscriptions as a machine

The commander, its workers, and what travels between them: the subscribe CALLs and their replies,
the events of the pages that go, and on each worker's wire the table sets that were pushed. Each
critical section of a worker is one action, and so is each step on the commander's one loop,
whatever the order in which the messages arrive; a wire alone is served in order.

The last fields of the state are history: which workers have been presented and which pages dropped
at the vertex, which subscriptions the rows and the desk have taken, and which calls have returned.
No action reads them.
-/

namespace GenropyAsgi.Subscriptions

open Library
open Worker (SubscribeCall)

variable {V B : Type}

/-- The event of a drop on a worker, on its way to the vertex. -/
inductive Departure where
  /-- The event of `drop_page`. -/
  | page (page_id : PageId)
  /-- The event of `drop_connection`. -/
  | connection (cid : ConnectionId)

/-- The pages that the vertex drops with an event. -/
def Departure.pages (population : Population) : Departure → Finset PageId
  | .page page_id => {page_id}
  | .connection cid => population.pagesOf cid

/-- The vertex after it has folded the event. -/
def Departure.fold (core : CoreCommander) (commander : Commander V) : Departure → Commander V
  | .page page_id => commander.dropPage core page_id
  | .connection cid => commander.dropConnection core cid

/-- The state of the machine. -/
structure State (V B : Type) where
  /-- The commander. -/
  commander : Commander V
  /-- The workers, by name. -/
  workers : WorkerName → Worker V B
  /-- The wires to the workers, with the table sets pushed on them. -/
  wires : WorkerName → Feed (List Table)
  /-- The subscribe CALLs placed and not served yet, each with the worker that placed it. -/
  calls : List (WorkerName × SubscribeCall)
  /-- The replies that have not reached their worker yet. -/
  replies : List (WorkerName × SubscribeCall)
  /-- The events of the drops that the vertex has not folded yet. -/
  departures : List Departure
  /-- The workers presented since their launch. -/
  presented : Finset WorkerName
  /-- The pages dropped at the vertex and not announced since. -/
  gone : Finset PageId
  /-- The subscriptions that the rows have taken so far, the oldest first. -/
  taken : List SubscribeCall
  /-- The subscriptions that the desk has filed so far, the oldest first. -/
  filed : List SubscribeCall
  /-- The calls that have returned so far. -/
  returned : List (WorkerName × SubscribeCall)

/-- The actions. -/
inductive Act (V B : Type) where
  /-- `subscribeTable` on a worker, up to its CALL. -/
  | subscribe (worker : WorkerName) (table : Table) (page_id : PageId) (subscribe : Bool)
  /-- The desk serves a subscribe CALL. -/
  | serve (k : ℕ)
  /-- A subscribe CALL is answered with an error: its verb raises. -/
  | refuse (k : ℕ)
  /-- A reply reaches its worker: its verb returns. -/
  | answer (k : ℕ)
  /-- The vertex folds the birth or the wake of a page. -/
  | announce (page_id : PageId) (cid : ConnectionId) (table_subscriptions : List Table)
  /-- `drop_page` on a worker. -/
  | dropPage (worker : WorkerName) (page_id : PageId) (cascade : Bool)
  /-- `drop_connection` on a worker. -/
  | dropConnection (worker : WorkerName) (connection_id : ConnectionId)
  /-- The vertex folds the event of a drop. -/
  | fold (k : ℕ)
  /-- The vertex drops a user whose connections are gone. -/
  | dropUser (user : User)
  /-- The desk serves an addressed write. -/
  | onDatachange (message : Message V) (now : Instant)
  /-- The desk serves an exchange. -/
  | exchange (page_id : PageId) (user : User) (dbevents : List (DbEvent V × Instant))
  /-- The desk serves a deposit. -/
  | deposit (dbevents : List (DbEvent V × Instant))
  /-- A worker is born into a group, with an empty source filter. -/
  | launch (group : String) (worker : WorkerName) (process : Worker V B)
  /-- A living worker is presented. -/
  | present (worker : WorkerName)
  /-- A worker dies. -/
  | die (worker : WorkerName)
  /-- A push task runs: it reads the table set and puts it on the wire. -/
  | runPush (k : ℕ)
  /-- A push task finds no wire. -/
  | losePush (k : ℕ)
  /-- A worker serves the oldest push on its wire. -/
  | deliver (worker : WorkerName)

namespace State

/-- The state with another desk. -/
def withDesk (s : State V B) (desk : DeliveryDesk V) : State V B :=
  { s with commander := { s.commander with delivery_desk := desk } }

/-- The state with the registry of one worker replaced. -/
def withRegistry (s : State V B) (worker : WorkerName) (registry : Registry V) : State V B :=
  { s with
    workers := Function.update s.workers worker
      { s.workers worker with registry := registry } }

/-- `subscribeTable`: the row moves and the CALL is placed; a page that is not there raises. -/
def subscribe (s : State V B) (worker : WorkerName) (table : Table) (page_id : PageId)
    (subscribe : Bool) : State V B :=
  match (s.workers worker).subscribeTable table page_id subscribe with
  | .error _ => s
  | .ok (moved, call) =>
    { s with
      workers := Function.update s.workers worker moved
      calls := s.calls ++ [(worker, call)]
      taken := s.taken ++ [call] }

/-- The desk serves a subscribe CALL: its reply is on the way back. -/
def serve (s : State V B) (k : ℕ) : Option (State V B) :=
  s.calls[k]?.map fun placed =>
    { s with
      commander :=
        s.commander.subscribeTable placed.2.page_id placed.2.table placed.2.subscribe
      calls := s.calls.eraseIdx k
      replies := s.replies ++ [placed]
      filed := s.filed ++ [placed.2] }

/-- A reply reaches its worker. -/
def answer (s : State V B) (k : ℕ) : Option (State V B) :=
  s.replies[k]?.map fun placed =>
    { s with replies := s.replies.eraseIdx k, returned := s.returned ++ [placed] }

/-- The vertex folds a birth or a wake. -/
def announce (core : CoreCommander) (s : State V B) (page_id : PageId) (cid : ConnectionId)
    (table_subscriptions : List Table) : State V B :=
  { s with
    commander := s.commander.onNewPage core page_id cid table_subscriptions
    gone := s.gone.erase page_id }

/-- The vertex folds the event of a drop. -/
def fold (core : CoreCommander) (s : State V B) (k : ℕ) : Option (State V B) :=
  -- The pages of a connection are those of the map before the core empties them out.
  s.departures[k]?.map fun departure =>
    { s with
      commander := departure.fold core s.commander
      departures := s.departures.eraseIdx k
      gone := s.gone ∪ departure.pages s.commander.population }

/-- The groups with a worker more: the core's own bookkeeping of `living_workers`. -/
def joinGroup (group : String) (worker : WorkerName) :
    List (String × List WorkerName) → List (String × List WorkerName)
  | [] => [(group, [worker])]
  | (name, workers) :: groups =>
    if name = group then (name, workers ++ [worker]) :: groups
    else (name, workers) :: joinGroup group worker groups

/-- A worker that was not living is born: its process and its wire are new. -/
def launch (s : State V B) (group : String) (worker : WorkerName) (process : Worker V B) :
    Option (State V B) :=
  if worker ∈ s.commander.livingWorkers then none
  else some { s with
    commander :=
      { s.commander with group_map := joinGroup group worker s.commander.group_map }
    workers := Function.update s.workers worker { process with subscribed_tables := ∅ }
    wires := Function.update s.wires worker (Feed.new [])
    presented := s.presented.erase worker }

/-- A living worker is presented. -/
def present (s : State V B) (worker : WorkerName) : Option (State V B) :=
  if worker ∈ s.commander.livingWorkers then
    some { s with
      commander := s.commander.onWorkerPresented worker
      presented := insert worker s.presented }
  else none

/-- A worker dies: no group lists it any more. -/
def die (s : State V B) (worker : WorkerName) : State V B :=
  { s with
    commander := { s.commander with
      group_map := s.commander.group_map.map fun group =>
        (group.1, group.2.filter fun name => decide (name ≠ worker)) } }

/-- A push task runs. -/
def runPush (s : State V B) (k : ℕ) : Option (State V B) :=
  (s.commander.runPush k).map fun ran =>
    { s with
      commander := ran.2.2
      wires := Function.update s.wires ran.1 ((s.wires ran.1).put ran.2.1) }

/-- A push task finds no wire: nothing is sent. -/
def losePush (s : State V B) (k : ℕ) : Option (State V B) :=
  (s.commander.runPush k).map fun ran => { s with commander := ran.2.2 }

/-- A worker serves the oldest push on its wire. -/
def deliver (s : State V B) (worker : WorkerName) : Option (State V B) :=
  (s.wires worker).serve.map fun served =>
    { s with
      workers := Function.update s.workers worker
        ((s.workers worker).subscribedTables served.1)
      wires := Function.update s.wires worker served.2 }

end State

/-- One action of the machine, over the core's own steps on a registry and on the vertex. -/
def step (register : CoreRegister V) (core : CoreCommander) (s : State V B) :
    Act V B → Option (State V B)
  | .subscribe worker table page_id subscribe =>
    some (s.subscribe worker table page_id subscribe)
  | .serve k => s.serve k
  | .refuse k => s.calls[k]?.map fun _ => { s with calls := s.calls.eraseIdx k }
  | .answer k => s.answer k
  | .announce page_id cid table_subscriptions =>
    some (s.announce core page_id cid table_subscriptions)
  | .dropPage worker page_id cascade =>
    some { s.withRegistry worker
        ((s.workers worker).registry.dropPage register page_id cascade) with
      departures := s.departures ++
        if ((s.workers worker).registry.page_register.get page_id).isSome then [.page page_id]
        else [] }
  | .dropConnection worker connection_id =>
    some { s.withRegistry worker
        (register.dropConnection (s.workers worker).registry connection_id) with
      departures := s.departures ++ [.connection connection_id] }
  | .fold k => s.fold core k
  | .dropUser user => some { s with commander := s.commander.dropUser core user }
  | .onDatachange message now =>
    some (s.withDesk
      (s.commander.delivery_desk.onDatachange s.commander.population message now).1)
  | .exchange page_id user dbevents =>
    some (s.withDesk (s.commander.delivery_desk.exchange page_id user dbevents).1)
  | .deposit dbevents => some (s.withDesk (s.commander.delivery_desk.deposit dbevents))
  | .launch group worker process => s.launch group worker process
  | .present worker => s.present worker
  | .die worker => some (s.die worker)
  | .runPush k => s.runPush k
  | .losePush k => s.losePush k
  | .deliver worker => s.deliver worker

/-- The machine before the first action: the workers have empty source filters, nothing is on the
way, nothing has happened. -/
def start (commander : Commander V) (processes : WorkerName → Worker V B) : State V B where
  commander := commander
  workers worker := { processes worker with subscribed_tables := ∅ }
  wires _ := Feed.new []
  calls := []
  replies := []
  departures := []
  presented := ∅
  gone := ∅
  taken := []
  filed := []
  returned := []

/-! ## What the actions do to the workers -/

/-- The actions that move a worker, its filter or its wire. -/
def Act.MovesWorker : Act V B → Prop
  | .subscribe .. => True
  | .dropPage .. => True
  | .dropConnection .. => True
  | .launch .. => True
  | .runPush _ => True
  | .deliver _ => True
  | _ => False

/-- Every other action leaves the workers and the wires as they are. -/
theorem workers_step {register : CoreRegister V} {core : CoreCommander} {s s' : State V B}
    {a : Act V B} (ha : ¬ a.MovesWorker) (hs : step register core s a = some s') :
    s'.workers = s.workers ∧ s'.wires = s.wires := by
  cases a with
  | serve k =>
    obtain ⟨placed, _, rfl⟩ := Option.map_eq_some_iff.1 hs
    exact ⟨rfl, rfl⟩
  | refuse k =>
    obtain ⟨placed, _, rfl⟩ := Option.map_eq_some_iff.1 hs
    exact ⟨rfl, rfl⟩
  | answer k =>
    obtain ⟨placed, _, rfl⟩ := Option.map_eq_some_iff.1 hs
    exact ⟨rfl, rfl⟩
  | fold k =>
    obtain ⟨departure, _, rfl⟩ := Option.map_eq_some_iff.1 hs
    exact ⟨rfl, rfl⟩
  | losePush k =>
    obtain ⟨ran, _, rfl⟩ := Option.map_eq_some_iff.1 hs
    exact ⟨rfl, rfl⟩
  | present w =>
    obtain ⟨_, hs⟩ := Option.ite_none_right_eq_some.1 hs
    cases hs
    exact ⟨rfl, rfl⟩
  | subscribe | dropPage | dropConnection | launch | runPush | deliver => exact absurd trivial ha
  | _ =>
    cases hs
    exact ⟨rfl, rfl⟩

/-! ## What the actions do to the desk -/

/-- Whether a pair is subscribed at the desk after an action, given whether it was before. -/
def Act.Holds (s : State V B) (p : PageId) (t : Table) (held : Prop) : Act V B → Prop
  | .serve k =>
    match s.calls[k]? with
    | some placed =>
      if p = placed.2.page_id ∧ t = placed.2.table then placed.2.subscribe = true else held
    | none => held
  | .announce page_id _ tables => held ∨ (p = page_id ∧ t ∈ tables)
  | .fold k =>
    match s.departures[k]? with
    | some departure => held ∧ p ∉ departure.pages s.commander.population
    | none => held
  | _ => held

/-- A page keeps its subscriptions unless it is among those dropped. -/
theorem mem_pagesFor_forgetPages {p : PageId} {t : Table} :
    ∀ (page_ids : List PageId) (commander : Commander V),
      p ∈ (commander.forgetPages page_ids).delivery_desk.page_subscriptions.pagesFor t ↔
        p ∈ commander.delivery_desk.page_subscriptions.pagesFor t ∧ p ∉ page_ids
  | [], commander => by simp [Commander.forgetPages]
  | page_id :: page_ids, commander => by
    rw [Commander.forgetPages_cons, mem_pagesFor_forgetPages, Commander.delivery_desk_mutate,
      IndexMutation.mem_pagesFor_perform, IndexMutation.Holds, List.mem_cons]
    tauto

/-- The subscriptions at the vertex after the fold of a drop. -/
theorem Departure.mem_pagesFor_fold (core : CoreCommander) (commander : Commander V) {p : PageId}
    {t : Table} : ∀ departure : Departure,
      p ∈ (departure.fold core commander).delivery_desk.page_subscriptions.pagesFor t ↔
        p ∈ commander.delivery_desk.page_subscriptions.pagesFor t ∧
          p ∉ departure.pages commander.population
  | .page page_id => by
    rw [fold, Commander.dropPage, Commander.delivery_desk_mutate,
      IndexMutation.mem_pagesFor_perform, IndexMutation.Holds, pages, Finset.mem_singleton]
  | .connection cid => by
    rw [fold, Commander.dropConnection, mem_pagesFor_forgetPages, mem_sorted, pages]

/-- The subscriptions at the desk after an action. -/
theorem mem_pagesFor_step {register : CoreRegister V} {core : CoreCommander} {s s' : State V B}
    {a : Act V B} (hs : step register core s a = some s') {p : PageId} {t : Table} :
    p ∈ s'.commander.delivery_desk.page_subscriptions.pagesFor t ↔
      a.Holds s p t (p ∈ s.commander.delivery_desk.page_subscriptions.pagesFor t) := by
  cases a with
  | serve k =>
    obtain ⟨placed, hk, rfl⟩ := Option.map_eq_some_iff.1 hs
    simp only [Act.Holds, hk, Commander.subscribeTable, Commander.delivery_desk_mutate]
    exact IndexMutation.mem_pagesFor_perform _ _
  | announce q cid tables =>
    cases hs
    simp only [Act.Holds, State.announce, Commander.onNewPage,
      Commander.recordPageTableSubscriptions, Commander.delivery_desk_mutate]
    exact IndexMutation.mem_pagesFor_perform _ _
  | fold k =>
    obtain ⟨departure, hk, rfl⟩ := Option.map_eq_some_iff.1 hs
    simp only [Act.Holds, hk]
    exact departure.mem_pagesFor_fold core s.commander
  | subscribe w u q subscribe =>
    cases hs
    unfold State.subscribe
    split <;> exact Iff.rfl
  | refuse k =>
    obtain ⟨placed, _, rfl⟩ := Option.map_eq_some_iff.1 hs
    exact Iff.rfl
  | answer k =>
    obtain ⟨placed, _, rfl⟩ := Option.map_eq_some_iff.1 hs
    exact Iff.rfl
  | onDatachange message now =>
    cases hs
    simp only [Act.Holds, State.withDesk,
      (s.commander.delivery_desk.onDatachange_dbevents _ message now).1]
  | exchange q user dbevents =>
    cases hs
    simp only [Act.Holds, State.withDesk, DeliveryDesk.page_subscriptions_exchange]
  | deposit dbevents =>
    cases hs
    simp only [Act.Holds, State.withDesk, DeliveryDesk.deposit,
      DeliveryDesk.page_subscriptions_fileDbevents]
  | launch group w process =>
    obtain ⟨_, hs⟩ := Option.ite_none_left_eq_some.1 hs
    cases hs
    exact Iff.rfl
  | present w =>
    obtain ⟨_, hs⟩ := Option.ite_none_right_eq_some.1 hs
    cases hs
    exact Iff.rfl
  | runPush k =>
    obtain ⟨ran, hran, rfl⟩ := Option.map_eq_some_iff.1 hs
    obtain ⟨w, _, rfl⟩ := Option.map_eq_some_iff.1 hran
    exact Iff.rfl
  | losePush k =>
    obtain ⟨ran, hran, rfl⟩ := Option.map_eq_some_iff.1 hs
    obtain ⟨w, _, rfl⟩ := Option.map_eq_some_iff.1 hran
    exact Iff.rfl
  | deliver w =>
    obtain ⟨served, _, rfl⟩ := Option.map_eq_some_iff.1 hs
    exact Iff.rfl
  | _ =>
    cases hs
    exact Iff.rfl

/-! ## A concrete instance

The core of the vertex at its simplest, for concrete runs: a drop takes its rows away and nothing
else. -/

namespace Sample

open Delivery.Sample (Value FlatBag registry)

/-- A core whose drops take the page, or the pages of the connection, out of the map. -/
def core : CoreCommander where
  onNewPage m p cid := { m with page_connection_map := m.page_connection_map.set p cid }
  dropPage m p := { m with page_connection_map := m.page_connection_map.pop p }
  dropConnection m cid :=
    { m with
      page_connection_map := (sorted (m.pagesOf cid)).foldl Dict.pop m.page_connection_map }
  dropUser m user := { m with user_map := m.user_map.erase user }
  onNewPage_none := by
    intro m p cid q hq hnone
    rw [Dict.get_set, if_neg hq, hnone]
  dropPage_self := by
    intro m p
    rw [Dict.get_pop, if_pos rfl]
  dropPage_none := by
    intro m p q hnone
    rw [Dict.get_pop, hnone, ite_self]
  dropConnection_self := by
    intro m cid p hp
    rw [Dict.get_foldl_pop, if_pos (mem_sorted.2 (Population.mem_pagesOf.2 hp))]
  dropConnection_none := by
    intro m cid q hnone
    rw [Dict.get_foldl_pop, hnone, ite_self]
  dropUser_none := fun _ _ _ hnone => hnone

/-- A commander with one group of one living worker, `"w"`, which holds the page `"p"` on the
connection `"c"` of the user `"u"`. -/
def start : State Value FlatBag :=
  Subscriptions.start ⟨⟨Dict.set ∅ "p" "c", {"u"}⟩, .empty, [("g", ["w"])], []⟩
    fun _ => ⟨registry ["p"], fun _ => ∅, ∅⟩

end Sample

end GenropyAsgi.Subscriptions
