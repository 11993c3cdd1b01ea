import GenropyAsgi.DeliveryDesk

/-!
# The commander

`GenropySpaCommander` of `genropy_spa_commander.py`: the vertex that holds the desk. What it adds to
the core's vertex is the push of the table set to the workers, at every transition of it and at the
presentation of a worker, and the drops that the desk hears of.

The three operations that move the index are one type, `IndexMutation`, so that what they announce
is stated once: `push_tasks_mutate` says that a mutation which changes the table set creates one
push for every living worker, and that one which leaves it unchanged creates none.
-/

namespace GenropyAsgi

open Library

variable {V : Type}

/-- The core's own steps on the population of the vertex: code outside the repository, which the
bridge's verbs call first. A drop takes its page or the pages of its connection out of the map, and
no step but the fold of a birth brings a page in. -/
structure CoreCommander where
  /-- The fold of a birth or of a wake. -/
  onNewPage : Population → PageId → ConnectionId → Population
  /-- `drop_page`. -/
  dropPage : Population → PageId → Population
  /-- `drop_connection`. -/
  dropConnection : Population → ConnectionId → Population
  /-- `drop_user`, once the connections are gone. -/
  dropUser : Population → User → Population
  /-- A birth brings in no page but its own. -/
  onNewPage_none : ∀ m p cid q, q ≠ p → m.page_connection_map.get q = none →
    (onNewPage m p cid).page_connection_map.get q = none
  /-- A dropped page is not there any more. -/
  dropPage_self : ∀ m p, (dropPage m p).page_connection_map.get p = none
  /-- The drop of a page brings none in. -/
  dropPage_none : ∀ m p q, m.page_connection_map.get q = none →
    (dropPage m p).page_connection_map.get q = none
  /-- The pages of a dropped connection are not there any more. -/
  dropConnection_self : ∀ m cid p, m.page_connection_map.get p = some cid →
    (dropConnection m cid).page_connection_map.get p = none
  /-- The drop of a connection brings no page in. -/
  dropConnection_none : ∀ m cid q, m.page_connection_map.get q = none →
    (dropConnection m cid).page_connection_map.get q = none
  /-- The drop of a user brings no page in. -/
  dropUser_none : ∀ m user q, m.page_connection_map.get q = none →
    (dropUser m user).page_connection_map.get q = none

/-- The pages of a connection, as `drop_connection` reads them before the core empties them out. -/
def Population.pagesOf (population : Population) (cid : ConnectionId) : Finset PageId :=
  population.page_connection_map.keys.filter fun p =>
    population.page_connection_map.get p = some cid

/-- The pages of a connection are those that the map gives it. -/
@[simp]
theorem Population.mem_pagesOf {population : Population} {cid : ConnectionId} {p : PageId} :
    p ∈ population.pagesOf cid ↔ population.page_connection_map.get p = some cid := by
  rw [pagesOf, Finset.mem_filter, Dict.mem_keys, and_iff_right_iff_imp]
  intro h
  rw [h]
  rfl

/-! ## The operations that move the index -/

/-- An operation of the desk that moves the subscription index. -/
inductive IndexMutation where
  /-- `subscribe_table`. -/
  | subscribeTable (page_id : PageId) (table : Table) (subscribe : Bool)
  /-- `record_page_table_subscriptions`. -/
  | recordPageTableSubscriptions (page_id : PageId) (tables : List Table)
  /-- `drop_page`. -/
  | dropPage (page_id : PageId)
deriving DecidableEq

namespace IndexMutation

/-- The operation performed, with whether it announces the table set. -/
def perform (desk : DeliveryDesk V) : IndexMutation → DeliveryDesk V × Bool
  | .subscribeTable page_id table subscribe => desk.subscribeTable page_id table subscribe
  | .recordPageTableSubscriptions page_id tables =>
    desk.recordPageTableSubscriptions page_id tables
  | .dropPage page_id => desk.dropPage page_id

/-- Whether a pair is subscribed after the operation, given whether it was before. -/
def Holds (p : PageId) (t : Table) (held : Prop) : IndexMutation → Prop
  | .subscribeTable q u subscribe => if p = q ∧ t = u then subscribe = true else held
  | .recordPageTableSubscriptions q tables => held ∨ (p = q ∧ t ∈ tables)
  | .dropPage q => held ∧ p ≠ q

/-- A pair of the index after an operation. -/
theorem mem_pagesFor_perform (desk : DeliveryDesk V) {p : PageId} {t : Table} :
    ∀ mutation : IndexMutation,
      p ∈ (mutation.perform desk).1.page_subscriptions.pagesFor t ↔
        mutation.Holds p t (p ∈ desk.page_subscriptions.pagesFor t)
  | .subscribeTable .. => desk.mem_pagesFor_subscribeTable
  | .recordPageTableSubscriptions .. => desk.mem_pagesFor_recordPageTableSubscriptions
  | .dropPage _ => desk.mem_pagesFor_dropPage

/-- An operation announces exactly when it changes the table set. -/
theorem perform_moved_iff (desk : DeliveryDesk V) :
    ∀ mutation : IndexMutation, (mutation.perform desk).2 = true ↔
      (mutation.perform desk).1.subscribedTables ≠ desk.subscribedTables
  | .subscribeTable p t subscribe => desk.subscribeTable_moved_iff p t subscribe
  | .recordPageTableSubscriptions p tables =>
    desk.recordPageTableSubscriptions_moved_iff p tables
  | .dropPage p => desk.dropPage_moved_iff p

/-- Only a drop touches the queues, and only those of its page. -/
theorem queues_perform (desk : DeliveryDesk V) (p : PageId) (mutation : IndexMutation) :
    (mutation.perform desk).1.page_datachange_map.get p =
        (if mutation = .dropPage p then none else desk.page_datachange_map.get p) ∧
      (mutation.perform desk).1.page_dbevent_map.get p =
        (if mutation = .dropPage p then none else desk.page_dbevent_map.get p) := by
  cases mutation with
  | subscribeTable q t subscribe => exact ⟨rfl, rfl⟩
  | recordPageTableSubscriptions q tables => exact ⟨rfl, rfl⟩
  | dropPage q =>
    simp [perform, DeliveryDesk.dropPage, @eq_comm _ p q]

end IndexMutation

/-! ## The vertex -/

/-- The commander. -/
structure Commander (V : Type) where
  /-- The population that the core knows. -/
  population : Population
  /-- The desk. -/
  delivery_desk : DeliveryDesk V
  /-- The groups by name, each with its `living_workers`. -/
  group_map : List (String × List WorkerName)
  /-- The pushes created and not run yet, each with its worker. -/
  push_tasks : List WorkerName

namespace Commander

/-- The living workers, group by group. -/
def livingWorkers (commander : Commander V) : List WorkerName :=
  commander.group_map.flatMap Prod.snd

/-- `push_subscribed_tables`: the task is created, not run. -/
def pushSubscribedTables (commander : Commander V) (worker : WorkerName) : Commander V :=
  { commander with push_tasks := commander.push_tasks ++ [worker] }

/-- `broadcast_subscribed_tables`. -/
def broadcastSubscribedTables (commander : Commander V) : Commander V :=
  commander.group_map.foldl
    (fun commander group => group.2.foldl pushSubscribedTables commander) commander

/-- The desk's operation, and the broadcast that it calls for. -/
def mutate (commander : Commander V) (mutation : IndexMutation) : Commander V :=
  let moved := mutation.perform commander.delivery_desk
  if moved.2 then { commander with delivery_desk := moved.1 }.broadcastSubscribedTables
  else { commander with delivery_desk := moved.1 }

/-- The CALL of `subscribe_table`. -/
def subscribeTable (commander : Commander V) (page_id : PageId) (table : Table)
    (subscribe : Bool) : Commander V :=
  commander.mutate (.subscribeTable page_id table subscribe)

/-- `record_page_table_subscriptions`. -/
def recordPageTableSubscriptions (commander : Commander V) (page_id : PageId)
    (tables : List Table) : Commander V :=
  commander.mutate (.recordPageTableSubscriptions page_id tables)

/-- `on_new_page`: the core folds the page in, and the desk files the tables of its row. -/
def onNewPage (core : CoreCommander) (commander : Commander V) (page_id : PageId)
    (cid : ConnectionId) (table_subscriptions : List Table) : Commander V :=
  { commander with
    population := core.onNewPage commander.population page_id cid
  }.recordPageTableSubscriptions page_id table_subscriptions

/-- `on_worker_presented`. -/
def onWorkerPresented (commander : Commander V) (worker : WorkerName) : Commander V :=
  commander.pushSubscribedTables worker

/-- `drop_page`. -/
def dropPage (core : CoreCommander) (commander : Commander V) (page_id : PageId) : Commander V :=
  { commander with population := core.dropPage commander.population page_id }.mutate
    (.dropPage page_id)

/-- The loop of `drop_connection`. -/
def forgetPages (commander : Commander V) (page_ids : List PageId) : Commander V :=
  page_ids.foldl (fun commander page_id => commander.mutate (.dropPage page_id)) commander

/-- `drop_connection`: the pages are read first; they are walked in the order of their names. -/
def dropConnection (core : CoreCommander) (commander : Commander V) (cid : ConnectionId) :
    Commander V :=
  { commander with population := core.dropConnection commander.population cid }.forgetPages
    (sorted (commander.population.pagesOf cid))

/-- `drop_user`. The core's demolition passes through `drop_connection` for the user's connections
first, which are steps of their own here. -/
def dropUser (core : CoreCommander) (commander : Commander V) (user : User) : Commander V :=
  { commander with
    population := core.dropUser commander.population user
    delivery_desk := commander.delivery_desk.dropUser user }

/-- A push task that comes to its turn: its worker, the set that it reads then, and the commander
without it. -/
def runPush (commander : Commander V) (k : ℕ) :
    Option (WorkerName × List Table × Commander V) :=
  commander.push_tasks[k]?.map fun worker =>
    (worker, commander.delivery_desk.subscribedTables,
      { commander with push_tasks := commander.push_tasks.eraseIdx k })

/-- The pushes of one group. -/
theorem foldl_pushSubscribedTables :
    ∀ (workers : List WorkerName) (commander : Commander V),
      workers.foldl pushSubscribedTables commander =
        { commander with push_tasks := commander.push_tasks ++ workers }
  | [], commander => by simp
  | worker :: workers, commander => by
    rw [List.foldl_cons, foldl_pushSubscribedTables workers]
    simp [pushSubscribedTables]

/-- A broadcast creates one push for every living worker, and nothing else. -/
theorem broadcastSubscribedTables_eq (commander : Commander V) :
    commander.broadcastSubscribedTables =
      { commander with push_tasks := commander.push_tasks ++ commander.livingWorkers } := by
  have hgroups : ∀ (groups : List (String × List WorkerName)) (c : Commander V),
      groups.foldl (fun c group => group.2.foldl pushSubscribedTables c) c =
        { c with push_tasks := c.push_tasks ++ groups.flatMap Prod.snd } := by
    intro groups
    induction groups with
    | nil => intro c; simp
    | cons group groups ih =>
      intro c
      rw [List.foldl_cons, ih, foldl_pushSubscribedTables]
      simp
  exact hgroups commander.group_map commander

/-- What a mutation makes of the commander: the desk is moved, and the pushes are those of the
announcement. -/
theorem mutate_eq (commander : Commander V) (mutation : IndexMutation) :
    commander.mutate mutation =
      { commander with
        delivery_desk := (mutation.perform commander.delivery_desk).1
        push_tasks := commander.push_tasks ++
          if (mutation.perform commander.delivery_desk).2 then commander.livingWorkers
          else [] } := by
  unfold mutate
  dsimp only
  split_ifs
  · rw [broadcastSubscribedTables_eq]
    rfl
  · rw [List.append_nil]

/-- A mutation that changes the table set creates a push for every living worker, and one that
leaves it unchanged creates none. -/
theorem push_tasks_mutate (commander : Commander V) (mutation : IndexMutation) :
    (commander.mutate mutation).push_tasks = commander.push_tasks ++
      if (commander.mutate mutation).delivery_desk.subscribedTables ≠
          commander.delivery_desk.subscribedTables then commander.livingWorkers
      else [] := by
  have hmoved := mutation.perform_moved_iff commander.delivery_desk
  rw [mutate_eq]
  dsimp only
  congr 1
  -- The bit that the primitive returns says whether the set has moved.
  split_ifs with hbit hset hset
  · rfl
  · exact absurd (hmoved.1 hbit) hset
  · exact absurd (hmoved.2 hset) hbit
  · rfl

/-- The desk after a mutation. -/
@[simp]
theorem delivery_desk_mutate (commander : Commander V) (mutation : IndexMutation) :
    (commander.mutate mutation).delivery_desk =
      (mutation.perform commander.delivery_desk).1 := by
  rw [mutate_eq]

/-- The population after a mutation. -/
@[simp]
theorem population_mutate (commander : Commander V) (mutation : IndexMutation) :
    (commander.mutate mutation).population = commander.population := by
  rw [mutate_eq]

/-- One turn of the loop of `drop_connection`. -/
theorem forgetPages_cons (commander : Commander V) (page_id : PageId) (page_ids : List PageId) :
    commander.forgetPages (page_id :: page_ids) =
      (commander.mutate (.dropPage page_id)).forgetPages page_ids := rfl

/-- The population after the loop of `drop_connection`. -/
@[simp]
theorem population_forgetPages :
    ∀ (page_ids : List PageId) (commander : Commander V),
      (commander.forgetPages page_ids).population = commander.population
  | [], _ => rfl
  | page_id :: page_ids, commander => by
    rw [forgetPages_cons, population_forgetPages page_ids, population_mutate]

end Commander
end GenropyAsgi
