import GenropyAsgi.Library.Run
import GenropyAsgi.Worker

/-!
# The delivery of datachanges as a machine

One worker, the desk, and what is between them: the CALLs that carry addressed writes up, the
collects whose exchange the desk has not served yet, and the exchange replies that no final critical
section has consumed yet. Every critical section of the code, on the worker or on the commander's
one loop, is one action, so that a run of the machine is an interleaving of requests.

The last fields of the state are history: what has been accepted, filed, retired, handed back and
answered so far. No action reads them.
-/

namespace GenropyAsgi.Delivery

open Library

variable {V B : Type}

/-- A `collect_page` that has looked its page's owner up, with its request's slot. -/
structure Collect (V : Type) where
  /-- The page. -/
  page_id : PageId
  /-- The owner, as the lookup read it. -/
  user : User
  /-- The request's slot. -/
  slot : RequestSlot V

/-- An exchange reply on its way to the final critical section of its collect. -/
structure Flight (V : Type) where
  /-- The collect. -/
  collect : Collect V
  /-- What the desk handed back. -/
  reply : ExchangeReply V

/-- A final critical section: what it was given, what it found there, and what came of it. -/
structure Ending (V : Type) where
  /-- The collect and its reply. -/
  flight : Flight V
  /-- Whether the page was registered. -/
  page_there : Bool
  /-- The store of the user, when he had a row. -/
  user_store : Option BagId
  /-- What the collect answered. -/
  result : Except PyError (Worker.PageDelivery V)

/-- The worker after the final critical section of a collect. -/
def Flight.finished [PyValue V] [LegacyBag B V] (flight : Flight V) (worker : Worker V B)
    (clock : ℕ → PageId → Instant) : Worker V B × Except PyError (Worker.PageDelivery V) :=
  worker.collectFinish flight.collect.page_id flight.collect.user flight.reply
    flight.collect.slot.own_dbevents clock

/-- The final critical section of a collect, on the worker that it finds. -/
def Flight.ending [PyValue V] [LegacyBag B V] (flight : Flight V) (worker : Worker V B)
    (clock : ℕ → PageId → Instant) : Ending V where
  flight := flight
  page_there := (worker.registry.page_register.get flight.collect.page_id).isSome
  user_store := (worker.registry.user_register.get flight.collect.user).map UserRow.store
  result := (flight.finished worker clock).2

/-- The state of the machine. -/
structure State (V B : Type) where
  /-- The worker. -/
  worker : Worker V B
  /-- The desk. -/
  desk : DeliveryDesk V
  /-- The population that the vertex knows. -/
  population : Population
  /-- The addressed writes on the lane, not served yet. -/
  lane : List (Message V)
  /-- The collects whose exchange is on the lane. -/
  looked : List (Collect V)
  /-- The replies in flight, in the order in which the desk served them. -/
  replies : List (Flight V)
  /-- The wall clock at the last append. -/
  clock : Instant
  /-- The changes accepted so far, on either road and by the captures, with their pages. -/
  accepted : List (PageId × Change V)
  /-- The STATE writes filed so far, with their users. -/
  filed : List (User × Change V)
  /-- The STATE writes retired so far, with their users. -/
  retired : List (User × Change V)
  /-- The changes that the desk has handed back so far, with their pages. -/
  handed : List (PageId × Change V)
  /-- The final critical sections so far. -/
  endings : List (Ending V)

/-- The actions. -/
inductive Act (V : Type) where
  /-- A verb called on the worker, up to its CALL. -/
  | write (identity : User) (message : Message V) (now : Instant)
  /-- A verb called on another worker places its CALL. -/
  | foreign (message : Message V)
  /-- The desk serves a CALL of the lane. -/
  | serve (k : ℕ) (now : Instant)
  /-- A write of a page's own store, heard by its capture. -/
  | capture (page_id : PageId) (event : BagEvent V) (written arrived : Instant)
  /-- The first critical section of a collect. -/
  | lookup (page_id : PageId) (slot : RequestSlot V)
  /-- The desk serves the exchange of a collect. -/
  | exchange (k : ℕ) (clock : ℕ → Instant)
  /-- The desk refuses the exchange of a collect, which raises. -/
  | refuse (k : ℕ)
  /-- The final critical section of a collect. -/
  | finish (k : ℕ) (clock : ℕ → PageId → Instant)
  /-- `drop_page` on the worker. -/
  | dropPage (page_id : PageId) (cascade : Bool)
  /-- `drop_connection` on the worker. -/
  | dropConnection (connection_id : ConnectionId)
  /-- `change_connection_user` on the worker. -/
  | login (connection_id : ConnectionId) (user : User)
  /-- The vertex folds a birth or a re-labelling in. -/
  | populate (population : Population)
  /-- The vertex drops a page. -/
  | vertexDropPage (page_id : PageId) (population : Population)
  /-- The vertex drops a user. -/
  | vertexDropUser (user : User) (population : Population)

namespace State

/-- A verb called on the worker: a write that stays is accepted at once, one that climbs is on the
lane. -/
def write (s : State V B) (identity : User) (message : Message V) (now : Instant) : State V B :=
  let routed := s.worker.routeDatachange identity message now
  { s with
    worker := routed.1
    lane := s.lane ++ routed.2.call
    clock := if routed.2.isLocal then now else s.clock
    accepted := s.accepted ++ if routed.2.isLocal then message.addressed now else [] }

/-- The desk serves an addressed write: what it files is accepted. -/
def serve (s : State V B) (k : ℕ) (now : Instant) : Option (State V B) :=
  s.lane[k]?.map fun message =>
    let served := s.desk.onDatachange s.population message now
    { s with
      desk := served.1
      lane := s.lane.eraseIdx k
      clock := if DeliveryDesk.isFiled served.2 then now else s.clock
      accepted := s.accepted ++ if DeliveryDesk.isFiled served.2 then message.addressed now else []
      filed := s.filed ++ if DeliveryDesk.isFiled served.2 then message.filed now else [] }

/-- The capture of a page's own store. -/
def capture [PyValue V] (s : State V B) (page_id : PageId) (event : BagEvent V)
    (written arrived : Instant) : State V B :=
  { s with
    worker := s.worker.capture page_id event written arrived
    clock := arrived
    accepted := s.accepted ++ if s.worker.captures page_id event then
      [(page_id, (PageRow.serverChange event written).arriving arrived)] else [] }

/-- The first critical section of a collect; one that raises leaves no trace. -/
def lookup (s : State V B) (page_id : PageId) (slot : RequestSlot V) : State V B :=
  { s with
    looked := s.looked ++
      match s.worker.collectLookup page_id with
      | .ok user => [⟨page_id, user, slot⟩]
      | .error _ => [] }

/-- The desk serves an exchange. -/
def exchange (s : State V B) (k : ℕ) (clock : ℕ → Instant) : Option (State V B) :=
  s.looked[k]?.map fun collect =>
    -- The filing of each deposit reads the clock anew.
    let served := s.desk.exchange collect.page_id collect.user
      (collect.slot.dbevents.zipIdx.map fun deposit => (deposit.1, clock deposit.2))
    { s with
      desk := served.1
      looked := s.looked.eraseIdx k
      replies := s.replies ++
        [⟨{ collect with slot := { collect.slot with dbevents := [] } }, served.2⟩]
      retired := s.retired ++ served.2.store_changes.map fun change => (collect.user, change)
      handed := s.handed ++ served.2.datachanges.map fun change => (collect.page_id, change) }

/-- The final critical section of a collect. -/
def finish [PyValue V] [LegacyBag B V] (s : State V B) (k : ℕ) (clock : ℕ → PageId → Instant) :
    Option (State V B) :=
  s.replies[k]?.map fun flight =>
    { s with
      worker := (flight.finished s.worker clock).1
      replies := s.replies.eraseIdx k
      endings := s.endings ++ [flight.ending s.worker clock] }

/-- The worker's registry moved by another request. -/
def withRegistry (s : State V B) (registry : Registry V) : State V B :=
  { s with worker := { s.worker with registry := registry } }

end State

/-- One action of the machine, over the core's own steps on the registry. -/
def step [PyValue V] [LegacyBag B V] (core : CoreRegister V) (s : State V B) :
    Act V → Option (State V B)
  | .write identity message now => some (s.write identity message now)
  | .foreign message => some { s with lane := s.lane ++ [message] }
  | .serve k now => s.serve k now
  | .capture page_id event written arrived => some (s.capture page_id event written arrived)
  | .lookup page_id slot => some (s.lookup page_id slot)
  | .exchange k clock => s.exchange k clock
  | .refuse k => s.looked[k]?.map fun _ => { s with looked := s.looked.eraseIdx k }
  | .finish k clock => s.finish k clock
  | .dropPage page_id cascade =>
    some (s.withRegistry (s.worker.registry.dropPage core page_id cascade))
  | .dropConnection connection_id =>
    some (s.withRegistry (core.dropConnection s.worker.registry connection_id))
  | .login connection_id user =>
    some (s.withRegistry (s.worker.registry.changeConnectionUser core connection_id user))
  | .populate population => some { s with population := population }
  | .vertexDropPage page_id population =>
    some { s with desk := (s.desk.dropPage page_id).1, population := population }
  | .vertexDropUser user population =>
    some { s with desk := s.desk.dropUser user, population := population }

/-- The machine before the first action: nothing is on the lane, nothing has happened. -/
def start (worker : Worker V B) (desk : DeliveryDesk V) (population : Population)
    (clock : Instant) : State V B :=
  ⟨worker, desk, population, [], [], [], clock, [], [], [], [], []⟩

/-- A final critical section is taken on every reply in flight: one that is not enabled has none. -/
theorem replies_of_not_enabled [PyValue V] [LegacyBag B V] {core : CoreRegister V} {s : State V B}
    {k : ℕ} {clock : ℕ → PageId → Instant} (h : step core s (.finish k clock) = none) :
    s.replies[k]? = none := by
  simpa only [step, State.finish, Option.map_eq_none_iff] using h

/-! ## Where the changes of a page are -/

/-- What a reply in flight bears for a page, without the numbers. -/
def Flight.bears (page_id : PageId) (flight : Flight V) : List (Change V) :=
  if flight.collect.page_id = page_id then flight.reply.datachanges.map Change.unnumbered else []

/-- What a final critical section returned to a page of its row and of the desk, without the
numbers. -/
def Ending.brought (page_id : PageId) (ending : Ending V) : List (Change V) :=
  if ending.flight.collect.page_id = page_id then
    match ending.result with
    | .ok delivery => Worker.arrived delivery.datachanges
    | .error _ => []
  else []

/-- The pending changes of a page at the desk, without the numbers. -/
def State.deskQueue (s : State V B) (page_id : PageId) : List (Change V) :=
  (s.desk.datachangesFor page_id).map Change.unnumbered

/-- The changes of a page in the replies in flight, in the order of the exchanges. -/
def State.inFlight (s : State V B) (page_id : PageId) : List (Change V) :=
  s.replies.flatMap (Flight.bears page_id)

/-- The changes that the collects of a page have returned, one collect after another. -/
def State.returned (s : State V B) (page_id : PageId) : List (Change V) :=
  s.endings.flatMap (Ending.brought page_id)

/-- An element of a list and the rest of it. -/
theorem eraseIdx_split {α : Type} {xs : List α} {k : ℕ} {x : α} (h : xs[k]? = some x) :
    xs = xs.take k ++ x :: xs.drop (k + 1) ∧
      xs.eraseIdx k = xs.take k ++ xs.drop (k + 1) := by
  obtain ⟨hk, rfl⟩ := List.getElem?_eq_some_iff.1 h
  exact ⟨by simp, List.eraseIdx_eq_take_drop_succ xs k⟩

/-- An element counts for one in its list. -/
theorem countP_eraseIdx {α : Type} (f : α → Bool) {xs : List α} {k : ℕ} {x : α}
    (h : xs[k]? = some x) :
    xs.countP f = (xs.eraseIdx k).countP f + if f x = true then 1 else 0 := by
  obtain ⟨hsplit, herase⟩ := eraseIdx_split h
  rw [herase, List.countP_append]
  nth_rewrite 1 [hsplit]
  rw [List.countP_append, List.countP_cons]
  omega

/-! ## A concrete instance

The core and the Bag are parameters of the machine. Here they are at their simplest, for concrete
runs: a flat Bag, whose paths have no dots, over integers; and a core whose drops take one row
away. -/

namespace Sample

/-- A value: an integer or `None`. -/
abbrev Value := Option ℤ

/-- Instants are integers, and `True` is one. -/
instance : PyValue Value where
  none := Option.none
  true := some 1
  ofInstant := some
  truthy v := decide (v ≠ Option.none ∧ v ≠ some 0)

/-- A Bag without nested Bags. -/
abbrev FlatBag := Dict String Value

/-- The writes of a flat Bag, with the event of each. -/
instance : LegacyBag FlatBag Value where
  setItem bag path value attributes reason :=
    (bag.set path value,
      [if (bag.get path).isSome then ⟨path, attributes, value, [path], .upd "upd_value", reason⟩
        else ⟨path, attributes, value, [], .ins, reason⟩])
  pop bag path reason :=
    match bag.get path with
    | Option.none => (bag, [])
    | some value => (bag.pop path, [⟨path, ∅, value, [], .del, reason⟩])
  editNode bag path edit :=
    match bag.get path with
    | Option.none => bag
    | some value => bag.set path (edit (∅, value)).2

/-- A page taken away, from its register and from the pages of its connection. -/
def takePage (registry : Registry Value) (page_id : PageId) : Registry Value where
  page_register := registry.page_register.pop page_id
  connection_register := registry.connection_register.mapVals fun _ connection =>
    { connection with pages := connection.pages.erase page_id }
  user_register := registry.user_register
  owner_there := by
    intro cid row hrow
    rw [Dict.get_mapVals] at hrow
    obtain ⟨connection, hconnection, rfl⟩ := Option.map_eq_some_iff.1 hrow
    exact registry.owner_there cid connection hconnection
  own_store := registry.own_store

/-- A core whose drops take the page, or the connection with its pages, and leave the user; and
which re-labels a connection to a user who has a row. -/
def core : CoreRegister Value where
  dropPage := takePage
  dropPageAlone := takePage
  dropConnection registry connection_id :=
    { registry with
      page_register :=
        (sorted (((registry.connection_register.get connection_id).map ConnectionRow.pages).getD
          ∅)).foldl Dict.pop registry.page_register
      connection_register := registry.connection_register.pop connection_id
      owner_there := by
        intro cid row hrow
        rw [Dict.get_pop] at hrow
        split_ifs at hrow
        exact registry.owner_there cid row hrow }
  changeConnectionUser registry connection_id user :=
    match registry.connection_register.get connection_id with
    | Option.none => registry
    | some connection =>
      if h : (registry.user_register.get user).isSome = true then
        { registry with
          connection_register :=
            registry.connection_register.set connection_id { connection with user := user }
          owner_there := by
            intro cid row hrow
            rw [Dict.get_set] at hrow
            split_ifs at hrow
            · cases hrow
              exact h
            · exact registry.owner_there cid row hrow }
      else registry

/-- The user row of the sample registries. -/
def userRow : UserRow := ⟨0⟩

/-- A registry of one user, `"u"`, on one connection, `"c"`, with newborn pages. -/
def registry (pages : List PageId) : Registry Value where
  page_register := pages.foldl (fun register p => register.set p (PageRow.born "c")) ∅
  connection_register := Dict.set ∅ "c" ⟨"u", pages.toFinset⟩
  user_register := Dict.set ∅ "u" userRow
  owner_there := by
    intro cid row hrow
    rw [Dict.get_set] at hrow
    split_ifs at hrow
    · cases hrow
      simp
    · simp at hrow
  own_store := by
    intro u v row row' hu hv _
    rw [Dict.get_set] at hu hv
    split_ifs at hu hv with h₁ h₂
    · rw [h₁, h₂]
    · simp at hv
    · simp at hu
    · simp at hu

/-- The machine over that registry, all of its pages known at the vertex. -/
def start (pages : List PageId) : State Value FlatBag :=
  Delivery.start ⟨registry pages, fun _ => ∅, ∅⟩ .empty
    ⟨pages.foldl (fun map p => map.set p "c") ∅, {"u"}⟩ 0

/-- A change of a path to an integer. -/
def change (path : String) (value : ℤ) : Change Value :=
  ⟨⟨path, Option.none, false⟩, some value, Option.none, false, 0, 0, Option.none⟩

/-- A write addressed at a page or at the store of a user. -/
def message (kind : Kind) (target : String) (path : String) (value : ℤ) : Message Value :=
  ⟨.setDatachange (some (change path value)) false, kind, some target, Option.none⟩

/-- The request slot of a request without table events. -/
def slot : RequestSlot Value := ⟨[], []⟩

end Sample

end GenropyAsgi.Delivery
