import GenropyAsgi.Library.Merge
import GenropyAsgi.Register

/-!
# The worker

The site's verbs of the data plane, from `genropy_worker.py`. A verb that crosses the lane is cut
where the code drops its lock: what it does before its CALL and what it does with the answer are two
functions, and the CALL itself is served by the desk in between. So `collect_page` is
`collectLookup`, the desk's `exchange`, and `collectFinish`; an addressed write is `routeDatachange`
and, if it climbs, the desk's `on_datachange`; a subscription is `subscribeTable` and the desk's
`subscribe_table`.
-/

namespace GenropyAsgi

open Library

variable {V B : Type}

/-- A worker: its registry, the Bags that its rows refer to, and its source filter. -/
structure Worker (V B : Type) where
  /-- The registers. -/
  registry : Registry V
  /-- The Bags of the users' stores. -/
  bags : BagId → B
  /-- The source filter. -/
  subscribed_tables : Finset Table

/-- The request slot: the deposits that go up the lane, and those of the hidden transaction. -/
structure RequestSlot (V : Type) where
  /-- `dbevents`. -/
  dbevents : List (DbEvent V)
  /-- `own_dbevents`. -/
  own_dbevents : List (DbEvent V)

/-! ## The application of a forwarded change -/

/-- `apply_forwarded`: the Bag after the change, and the events that the write sent. -/
def applyForwarded [PyValue V] [LegacyBag B V] (bag : B) (change : Change V) :
    B × List (BagEvent V) :=
  if change.delete then LegacyBag.pop bag change.key.path change.key.reason
  else
    let original := (change.attributes.getD ∅).set "_original_ts"
      (PyValue.ofInstant change.change_ts)
    let attributes := if change.key.fired then original.set "_fired" PyValue.true else original
    let written := LegacyBag.setItem bag change.key.path change.value attributes change.key.reason
    -- A fired change has been heard with its value, and the node is then emptied in silence.
    if change.key.fired then
      (LegacyBag.editNode written.1 change.key.path fun node : Attributes V × V =>
        (node.1.pop "_fired", (PyValue.none : V)), written.2)
    else written

/-- The loop over the STATE writes of a reply: the Bag after it, and every event sent. -/
def applyEach [PyValue V] [LegacyBag B V] : B → List (Change V) → B × List (BagEvent V)
  | bag, [] => (bag, [])
  | bag, change :: changes =>
    let applied := applyForwarded bag change
    let rest := applyEach applied.1 changes
    (rest.1, applied.2 ++ rest.2)

/-- The Bag after two lists of changes, one after the other. -/
theorem applyEach_append [PyValue V] [LegacyBag B V] :
    ∀ (changes changes' : List (Change V)) (bag : B),
      (applyEach bag (changes ++ changes')).1 = (applyEach (applyEach bag changes).1 changes').1
  | [], _, _ => rfl
  | change :: changes, changes', bag =>
    applyEach_append changes changes' (applyForwarded bag change).1

namespace Worker

/-! ## The addressed writes -/

/-- The verb's name, as its errors and its message carry it. -/
def opName : Op V → String
  | .setDatachange _ _ => "set_datachange"
  | .resetDatachanges => "reset_datachanges"
  | .dropDatachanges _ => "drop_datachanges"

/-- A kind's name. -/
def kindName : Kind → String
  | .page => "page"
  | .page_store => "page_store"
  | .user_store => "user_store"
  | .connection_store => "connection_store"
  | .other name => name

/-- What an addressed write comes to on the worker. -/
inductive Road (V : Type) where
  /-- It raises. -/
  | raised (error : PyError)
  /-- It stayed on a row here: `local` and `filed` are True. -/
  | stayed
  /-- It climbs to the desk as this CALL, whose answer is its `filed`. -/
  | climbs (message : Message V)

/-- Whether the write stayed here: the `local` of the verb's answer. -/
def Road.isLocal : Road V → Bool
  | .stayed => true
  | _ => false

/-- The CALL that the write places, if it climbs. -/
def Road.call : Road V → List (Message V)
  | .climbs message => [message]
  | _ => []

/-- `_route_datachange`, up to its CALL. -/
def routeDatachange (worker : Worker V B) (identity : User) (message : Message V) (now : Instant) :
    Worker V B × Road V :=
  if message.filters.isSome then
    (worker, .raised (.notImplementedError
      (opName message.op ++ ": filtered addresses are not delivered by this pass") ""))
  else if message.kind.isState ∧ message.kind ≠ .user_store then
    (worker, .raised (.notImplementedError
      (opName message.op ++ ": kind is not delivered by this pass") (kindName message.kind)))
  else
    match message.target with
    | none => (worker, .climbs message)
    | some target =>
      match (if message.kind = .page then worker.registry.page_register.get target else none) with
      | none => (worker, .climbs message)
      | some page =>
        match worker.registry.pageUser target with
        | none => (worker, .raised (.typeError "'NoneType' object is not subscriptable"))
        | some user =>
          if user = identity then
            let acted := page.actOnRow now message.op
            ({ worker with registry := worker.registry.setPage target acted.1 },
              match acted.2 with
              | .ok _ => .stayed
              | .error error => .raised error)
          else (worker, .climbs message)

/-- `set_datachange`. -/
def setDatachange (worker : Worker V B) (identity : User) (change : Parcel V) (kind : Kind)
    (target : Option String) (filters : Option String) (replace : Bool) (now : Instant) :
    Worker V B × Road V :=
  worker.routeDatachange identity ⟨.setDatachange change replace, kind, target, filters⟩ now

/-- `reset_datachanges`. -/
def resetDatachanges (worker : Worker V B) (identity : User) (target : Option String)
    (filters : Option String) (now : Instant) : Worker V B × Road V :=
  worker.routeDatachange identity ⟨.resetDatachanges, .page, target, filters⟩ now

/-- `drop_datachanges`. -/
def dropDatachanges (worker : Worker V B) (identity : User) (path : String)
    (target : Option String) (filters : Option String) (now : Instant) : Worker V B × Road V :=
  worker.routeDatachange identity ⟨.dropDatachanges path, .page, target, filters⟩ now

/-- Whether the capture of a page's own store takes an event in. -/
def captures (worker : Worker V B) (page_id : PageId) (event : BagEvent V) : Bool :=
  match worker.registry.page_register.get page_id with
  | none => false
  | some page => page.captures event

/-- A write of the page's own store, as its capture hears it. -/
def capture [PyValue V] (worker : Worker V B) (page_id : PageId) (event : BagEvent V)
    (written arrived : Instant) : Worker V B :=
  match worker.registry.page_register.get page_id with
  | none => worker
  | some page =>
    { worker with registry := worker.registry.setPage page_id (page.onEvent event written arrived) }

/-- What an addressed write does on the worker: it acts on the row of a page of its own caller's, or
it leaves the worker as it is, raising or climbing to the desk. -/
theorem routeDatachange_cases (worker : Worker V B) (identity : User) (message : Message V)
    (now : Instant) :
    (∃ target page, message.target = some target ∧ message.filters = none ∧
        message.kind = .page ∧ worker.registry.page_register.get target = some page ∧
        worker.registry.pageUser target = some identity ∧
        worker.routeDatachange identity message now =
          ({ worker with
              registry := worker.registry.setPage target (page.actOnRow now message.op).1 },
            match (page.actOnRow now message.op).2 with
            | .ok _ => .stayed
            | .error error => .raised error)) ∨
      (∃ error, worker.routeDatachange identity message now = (worker, .raised error)) ∨
      worker.routeDatachange identity message now = (worker, .climbs message) := by
  unfold routeDatachange
  by_cases hfilters : message.filters.isSome = true
  · exact Or.inr (Or.inl ⟨_, if_pos hfilters⟩)
  rw [if_neg hfilters]
  by_cases hkind : message.kind.isState = true ∧ message.kind ≠ .user_store
  · exact Or.inr (Or.inl ⟨_, if_pos hkind⟩)
  · rw [if_neg hkind]
    have hnone : message.filters = none := by simpa using hfilters
    cases htarget : message.target with
    | none => exact Or.inr (Or.inr rfl)
    | some target =>
      by_cases hpage : message.kind = .page
      · cases hrow : worker.registry.page_register.get target with
        | none => exact Or.inr (Or.inr (by simp [hpage, hrow]))
        | some page =>
          cases howner : worker.registry.pageUser target with
          | none =>
            refine Or.inr (Or.inl ⟨.typeError "'NoneType' object is not subscriptable", ?_⟩)
            simp [hpage, hrow, howner]
          | some user =>
            by_cases huser : user = identity
            · subst huser
              exact Or.inl ⟨target, page, rfl, hnone, hpage, hrow, howner, by
                simp [hpage, hrow, howner]⟩
            · exact Or.inr (Or.inr (by simp [hpage, hrow, howner, huser]))
      · exact Or.inr (Or.inr (by simp [hpage]))

/-- A message to a page of the caller's own stays here: its row takes the message, and nothing
climbs. -/
theorem routeDatachange_own {worker : Worker V B} {identity : User} {p : PageId}
    {page : PageRow V} (hrow : worker.registry.page_register.get p = some page)
    (howner : worker.registry.pageUser p = some identity) (op : Op V) (now : Instant) :
    (worker.routeDatachange identity ⟨op, .page, some p, none⟩ now).1 =
        { worker with registry := worker.registry.setPage p (page.actOnRow now op).1 } ∧
      (worker.routeDatachange identity ⟨op, .page, some p, none⟩ now).2.call = [] := by
  have hroute : worker.routeDatachange identity ⟨op, .page, some p, none⟩ now =
      ({ worker with registry := worker.registry.setPage p (page.actOnRow now op).1 },
        match (page.actOnRow now op).2 with
        | .ok _ => .stayed
        | .error error => .raised error) := by
    simp [routeDatachange, Kind.isState, hrow, howner]
  rw [hroute]
  refine ⟨rfl, ?_⟩
  dsimp only
  split <;> rfl

/-- A message to a page of somebody else's climbs. -/
theorem routeDatachange_foreign {worker : Worker V B} {identity owner : User} {p : PageId}
    (howner : worker.registry.pageUser p = some owner) (hforeign : owner ≠ identity) (op : Op V)
    (now : Instant) :
    worker.routeDatachange identity ⟨op, .page, some p, none⟩ now =
      (worker, .climbs ⟨op, .page, some p, none⟩) := by
  obtain ⟨page, hrow⟩ := Registry.row_there howner
  simp [routeDatachange, Kind.isState, hrow, howner, hforeign]

/-! ## The collect -/

/-- What `collect_page` answers. -/
structure PageDelivery (V : Type) where
  /-- The merged changes. -/
  datachanges : List (Change V)
  /-- The deposits. -/
  dbevents : List (DbEvent V)

/-- The first critical section of `collect_page`: the page is there, and its user is read. -/
def collectLookup (worker : Worker V B) (page_id : PageId) : Except PyError User :=
  match worker.registry.page_register.get page_id with
  | none => .error (.keyError "collect_page: unknown page" page_id)
  | some _ =>
    -- `page_user` subscripts the row of the connection, which may be gone.
    match worker.registry.pageUser page_id with
    | none => .error (.typeError "'NoneType' object is not subscriptable")
    | some user => .ok user

/-- The user that the first critical section reads is the owner of the page. -/
theorem pageUser_of_collectLookup {worker : Worker V B} {p : PageId} {user : User}
    (h : worker.collectLookup p = .ok user) : worker.registry.pageUser p = some user := by
  unfold collectLookup at h
  split at h
  · cases h
  · split at h
    · cases h
    · rename_i howner
      cases h
      exact howner

/-- The first critical section of a page that has an owner. -/
theorem collectLookup_of_pageUser {worker : Worker V B} {p : PageId} {user : User}
    (h : worker.registry.pageUser p = some user) : worker.collectLookup p = .ok user := by
  obtain ⟨page, hrow⟩ := Registry.row_there h
  simp only [collectLookup, hrow, h]

/-- The STATE writes of a reply applied to a store, every view of that Bag hearing them; `clock` is
what the capture of each event reads on each page. -/
def applyStoreChanges [PyValue V] [LegacyBag B V] (worker : Worker V B) (store : BagId)
    (store_changes : List (Change V)) (clock : ℕ → PageId → Instant) : Worker V B :=
  let applied := applyEach (worker.bags store) store_changes
  { worker with
    bags := fun bag => if bag = store then applied.1 else worker.bags bag
    registry := worker.registry.mapPages fun page_id page =>
      page.hear store applied.2 fun i => clock i page_id }

/-- The numbers of a merged list, from one on. -/
def numbered (datachanges : List (Change V)) : List (Change V) :=
  (datachanges.zipIdx 1).map fun change => { change.1 with change_idx := change.2 }

/-- The merge of a row with the changes that the desk handed back and those of the row's view,
numbered as one list. -/
def mergedDatachanges (page : PageRow V) (desk_changes : List (Change V)) : List (Change V) :=
  numbered (mergeOn Change.arrivalOrder
    (mergeOn Change.arrivalOrder page.datachanges desk_changes) page.viewChanges)

/-- The final critical section of `collect_page`. -/
def collectFinish [PyValue V] [LegacyBag B V] (worker : Worker V B) (page_id : PageId) (user : User)
    (reply : ExchangeReply V) (own_dbevents : List (DbEvent V)) (clock : ℕ → PageId → Instant) :
    Worker V B × Except PyError (PageDelivery V) :=
  match worker.registry.page_register.get page_id with
  | none => (worker, .error (.keyError "collect_page: unknown page" page_id))
  | some row =>
    match worker.registry.user_register.get user with
    | none => (worker, .error (.typeError "'NoneType' object is not subscriptable"))
    | some user_item =>
      -- The STATE writes come before the drain, so that the page's own view delivers them.
      let applied := worker.applyStoreChanges user_item.store reply.store_changes clock
      let page := row.hear user_item.store
        (applyEach (worker.bags user_item.store) reply.store_changes).2 fun i => clock i page_id
      ({ applied with registry := applied.registry.setPage page_id page.drained },
        .ok ⟨mergedDatachanges page reply.datachanges, reply.dbevents ++ own_dbevents⟩)

/-- The changes of a delivery that came from the row and from the desk, without their numbers: those
that are stamped with an arrival. -/
def arrived (datachanges : List (Change V)) : List (Change V) :=
  (datachanges.filter fun change => change.arrival_ts.isSome).map Change.unnumbered

/-- The numbering does not change what has arrived. -/
theorem arrived_zipIdx :
    ∀ (datachanges : List (Change V)) (n : ℕ),
      arrived ((datachanges.zipIdx n).map fun change =>
        ({ change.1 with change_idx := change.2 } : Change V)) = arrived datachanges
  | [], _ => rfl
  | change :: datachanges, n => by
    have ih := arrived_zipIdx datachanges (n + 1)
    simp only [arrived] at ih ⊢
    simp only [List.zipIdx_cons, List.map_cons, List.filter_cons]
    split_ifs with h
    · rw [List.map_cons, List.map_cons, ih]
      rfl
    · exact ih

/-- The numbering does not change what is delivered. -/
theorem unnumbered_zipIdx :
    ∀ (datachanges : List (Change V)) (n : ℕ),
      ((datachanges.zipIdx n).map fun change =>
        ({ change.1 with change_idx := change.2 } : Change V)).map Change.unnumbered =
          datachanges.map Change.unnumbered
  | [], _ => rfl
  | change :: datachanges, n => by
    rw [List.zipIdx_cons, List.map_cons, List.map_cons, unnumbered_zipIdx datachanges (n + 1)]
    rfl

/-- A merged delivery contains what the desk handed back. -/
theorem subperm_mergedDatachanges (page : PageRow V) (desk_changes : List (Change V)) :
    (desk_changes.map Change.unnumbered).Subperm
      ((mergedDatachanges page desk_changes).map Change.unnumbered) := by
  have hinner := mergeOn_perm Change.arrivalOrder page.datachanges desk_changes
  have houter := mergeOn_perm Change.arrivalOrder
    (mergeOn Change.arrivalOrder page.datachanges desk_changes) page.viewChanges
  have hperm := houter.trans (hinner.append_right page.viewChanges)
  have hsub : desk_changes.Sublist (page.datachanges ++ desk_changes ++ page.viewChanges) :=
    (List.sublist_append_right _ _).trans (List.sublist_append_left _ _)
  rw [mergedDatachanges, numbered, unnumbered_zipIdx]
  exact (hsub.map _).subperm.trans (hperm.symm.map _).subperm

/-- What has arrived with a merged delivery: the merge of the row's queue and the desk's, whatever
the view holds. -/
theorem arrived_mergedDatachanges (page : PageRow V) (desk_changes : List (Change V))
    (hdesk : ∀ change ∈ desk_changes, change.arrival_ts.isSome = true) :
    arrived (mergedDatachanges page desk_changes) =
      (mergeOn Change.arrivalOrder page.datachanges desk_changes).map Change.unnumbered := by
  rw [mergedDatachanges, numbered, arrived_zipIdx, arrived]
  congr 1
  -- The stamp tells the changes of the row and of the desk from those of the view.
  apply mergeOn_filter
  · intro change hchange
    rcases mem_mergeOn.1 hchange with hrow | hreply
    · exact page.stamped change hrow
    · exact hdesk change hreply
  · intro change hchange
    unfold PageRow.viewChanges at hchange
    cases hview : page.user_view with
    | none => simp [hview] at hchange
    | some view =>
      simp only [hview] at hchange
      have hmem := view.drain_perm.mem_iff.1 hchange
      rw [page.unstamped view hview change hmem]
      rfl

/-- What a final critical section does: it raises on a page or on a user that is not there, and
leaves the worker as it is; or it applies the reply and drains the page. -/
theorem collectFinish_cases [PyValue V] [LegacyBag B V] (worker : Worker V B) (page_id : PageId)
    (user : User) (reply : ExchangeReply V) (own_dbevents : List (DbEvent V))
    (clock : ℕ → PageId → Instant) :
    (worker.registry.page_register.get page_id = none ∧
        worker.collectFinish page_id user reply own_dbevents clock =
          (worker, .error (.keyError "collect_page: unknown page" page_id))) ∨
      ((worker.registry.page_register.get page_id).isSome = true ∧
        worker.registry.user_register.get user = none ∧
        worker.collectFinish page_id user reply own_dbevents clock =
          (worker, .error (.typeError "'NoneType' object is not subscriptable"))) ∨
      ∃ row user_item, worker.registry.page_register.get page_id = some row ∧
        worker.registry.user_register.get user = some user_item ∧
        ∃ page : PageRow V, page.connection_id = row.connection_id ∧
          page.datachanges = row.datachanges ∧
          worker.collectFinish page_id user reply own_dbevents clock =
            ({ worker.applyStoreChanges user_item.store reply.store_changes clock with
                registry := (worker.applyStoreChanges user_item.store reply.store_changes
                  clock).registry.setPage page_id page.drained },
              .ok ⟨mergedDatachanges page reply.datachanges,
                reply.dbevents ++ own_dbevents⟩) := by
  unfold collectFinish
  cases hrow : worker.registry.page_register.get page_id with
  | none => exact Or.inl ⟨rfl, rfl⟩
  | some row =>
    cases huser : worker.registry.user_register.get user with
    | none => exact Or.inr (Or.inl ⟨rfl, rfl, rfl⟩)
    | some user_item =>
      exact Or.inr (Or.inr ⟨row, user_item, rfl, rfl,
        row.hear user_item.store (applyEach (worker.bags user_item.store) reply.store_changes).2
          (fun i => clock i page_id), rfl, rfl, rfl⟩)

/-! ## What a delivery reads of the worker -/

/-- The queue of a page's row, without the numbers; empty for a page that is not there. -/
def rowQueue (worker : Worker V B) (page_id : PageId) : List (Change V) :=
  match worker.registry.page_register.get page_id with
  | none => []
  | some page => page.queue

/-- The queue of a page whose row is there. -/
theorem rowQueue_of_get {worker : Worker V B} {p : PageId} {page : PageRow V}
    (h : worker.registry.page_register.get p = some page) : worker.rowQueue p = page.queue := by
  simp only [rowQueue, h]

/-- The queues after the replacement of one row. -/
theorem rowQueue_setPage (worker : Worker V B) (p q : PageId) (page : PageRow V) :
    ({ worker with registry := worker.registry.setPage p page } : Worker V B).rowQueue q =
      if q = p then page.queue else worker.rowQueue q := by
  simp only [rowQueue, Registry.setPage, Dict.get_set]
  split_ifs <;> rfl

/-- The views hear the STATE writes, the queues do not. -/
theorem rowQueue_applyStoreChanges [PyValue V] [LegacyBag B V] (worker : Worker V B)
    (store : BagId) (store_changes : List (Change V)) (clock : ℕ → PageId → Instant)
    (q : PageId) :
    (worker.applyStoreChanges store store_changes clock).rowQueue q = worker.rowQueue q := by
  simp only [rowQueue, applyStoreChanges, Registry.mapPages, Dict.get_mapVals]
  cases worker.registry.page_register.get q with
  | none => rfl
  | some page => rfl

/-! ## The table events -/

/-- `dbevent_deposit`, with the instant that it reads. -/
def dbeventDeposit (table : Table) (batch : List V) (from_page_id : Option PageId)
    (reason : Option String) (ts : Instant) : DbEvent V :=
  ⟨table, batch, from_page_id, reason, ts, none⟩

/-- `notifyDbEvents`: the slot with the deposits laid on it, and the tables announced; `clock` is
what the deposit of each table reads. -/
def notifyDbEvents (worker : Worker V B) (slot : RequestSlot V)
    (dbevents : List (Table × List V)) (reason : Option String) (page_id : Option PageId)
    (local_only : Bool) (clock : Table → Instant) : RequestSlot V × List Table :=
  let announced := dbevents.filter fun event =>
    !event.2.isEmpty && (local_only || decide (event.1 ∈ worker.subscribed_tables))
  let deposits := announced.map fun event =>
    dbeventDeposit event.1 event.2 page_id reason (clock event.1)
  (if local_only then { slot with own_dbevents := slot.own_dbevents ++ deposits }
    else { slot with dbevents := slot.dbevents ++ deposits },
    deposits.map DbEvent.table)

/-- The CALL of `subscribeTable`. -/
structure SubscribeCall where
  /-- The subscribing page. -/
  page_id : PageId
  /-- The table. -/
  table : Table
  /-- Opening the subscription, or closing it. -/
  subscribe : Bool
deriving DecidableEq

/-- `subscribeTable`, up to its CALL: the row's set moves. -/
def subscribeTable (worker : Worker V B) (table : Table) (page_id : PageId) (subscribe : Bool) :
    Except PyError (Worker V B × SubscribeCall) :=
  match worker.registry.page_register.get page_id with
  | none => .error (.keyError "subscribeTable: unknown page" page_id)
  | some page =>
    .ok ({ worker with
        registry := worker.registry.setPage page_id (page.subscribeTable table subscribe) },
      ⟨page_id, table, subscribe⟩)

/-- `DeliveryOrders.subscribed_tables`: the source filter replaced by the set pushed. -/
def subscribedTables (worker : Worker V B) (tables : List Table) : Worker V B :=
  { worker with subscribed_tables := tables.toFinset }

/-! ## What the writes do to the queues -/

/-- A verb without `replace` adds its change to the queue of the row that it stays on. -/
theorem rowQueue_routeDatachange (worker : Worker V B) (identity : User) (message : Message V)
    (now : Instant) (p : PageId) (hplain : message.PlainFor p) :
    (worker.routeDatachange identity message now).1.rowQueue p =
      worker.rowQueue p ++
        about p (if (worker.routeDatachange identity message now).2.isLocal then
          message.addressed now else []) := by
  rcases worker.routeDatachange_cases identity message now with
    ⟨target, page, htarget, _, hkind, hrow, _, heq⟩ | ⟨error, heq⟩ | heq
  · rw [heq]
    dsimp only
    rw [rowQueue_setPage]
    have hstate : message.kind.isState = false := by rw [hkind]; rfl
    by_cases hp : p = target
    · subst hp
      obtain ⟨change, hop⟩ := hplain hstate htarget
      rw [if_pos rfl, hop, rowQueue_of_get hrow]
      cases change with
      | none => simp [PageRow.actOnRow, Road.isLocal]
      | some change =>
        simp [PageRow.actOnRow, Road.isLocal, PageRow.queue_appendPageDatachange,
          Message.addressed, htarget, hop, hstate]
    · rw [if_neg hp]
      simp [Message.about_addressed_of_ne htarget hp]
  · rw [heq]
    simp [Road.isLocal]
  · rw [heq]
    simp [Road.isLocal]

/-- The CALL of a verb is the message that the verb was given. -/
theorem mem_call {worker : Worker V B} {identity : User} {message m : Message V} {now : Instant}
    (h : m ∈ (worker.routeDatachange identity message now).2.call) : m = message := by
  rcases worker.routeDatachange_cases identity message now with
    ⟨_, page, _, _, _, _, _, heq⟩ | ⟨_, heq⟩ | heq
  · rw [heq] at h
    dsimp only at h
    split at h <;> cases h
  · rw [heq] at h
    cases h
  · rw [heq] at h
    exact List.mem_singleton.1 h

/-- A verb keeps the owners of the pages. -/
theorem pageUser_routeDatachange (worker : Worker V B) (identity : User) (message : Message V)
    (now : Instant) (q : PageId) :
    (worker.routeDatachange identity message now).1.registry.pageUser q =
      worker.registry.pageUser q := by
  rcases worker.routeDatachange_cases identity message now with
    ⟨target, page, _, _, _, hrow, _, heq⟩ | ⟨error, heq⟩ | heq
  · rw [heq]
    exact Registry.pageUser_setPage hrow (page.connection_id_actOnRow now message.op)
  · rw [heq]
  · rw [heq]

/-- A verb leaves the users and their stores as they are. -/
theorem stores_routeDatachange (worker : Worker V B) (identity : User) (message : Message V)
    (now : Instant) :
    (worker.routeDatachange identity message now).1.bags = worker.bags ∧
      (worker.routeDatachange identity message now).1.registry.user_register =
        worker.registry.user_register := by
  rcases worker.routeDatachange_cases identity message now with
    ⟨target, page, _, _, _, _, _, heq⟩ | ⟨error, heq⟩ | heq
  · rw [heq]
    exact ⟨rfl, rfl⟩
  · rw [heq]
    exact ⟨rfl, rfl⟩
  · rw [heq]
    exact ⟨rfl, rfl⟩

/-- A capture leaves the users and their stores as they are. -/
theorem stores_capture [PyValue V] (worker : Worker V B) (p : PageId) (event : BagEvent V)
    (written arrived : Instant) :
    (worker.capture p event written arrived).bags = worker.bags ∧
      (worker.capture p event written arrived).registry.user_register =
        worker.registry.user_register := by
  unfold capture
  cases worker.registry.page_register.get p with
  | none => exact ⟨rfl, rfl⟩
  | some page => exact ⟨rfl, rfl⟩

/-- A capture adds what it takes in to the queue of its page's row. -/
theorem rowQueue_capture [PyValue V] (worker : Worker V B) (q : PageId) (event : BagEvent V)
    (written arrived : Instant) (p : PageId) :
    (worker.capture q event written arrived).rowQueue p =
      worker.rowQueue p ++
        about p (if worker.captures q event then
          [(q, (PageRow.serverChange event written).arriving arrived)] else []) := by
  unfold capture captures
  cases hrow : worker.registry.page_register.get q with
  | none => simp
  | some page =>
    dsimp only
    rw [rowQueue_setPage]
    by_cases hp : p = q
    · subst hp
      rw [if_pos rfl, rowQueue_of_get hrow, PageRow.onEvent]
      split_ifs with hcaptures
      · rw [PageRow.queue_appendPageDatachange]
        simp
      · simp
    · rw [if_neg hp]
      split_ifs <;> simp [Ne.symm hp]

/-- A capture keeps the owners of the pages. -/
theorem pageUser_capture [PyValue V] (worker : Worker V B) (p : PageId) (event : BagEvent V)
    (written arrived : Instant) (q : PageId) :
    (worker.capture p event written arrived).registry.pageUser q = worker.registry.pageUser q := by
  unfold capture
  cases hrow : worker.registry.page_register.get p with
  | none => rfl
  | some page =>
    refine Registry.pageUser_setPage hrow ?_
    unfold PageRow.onEvent
    split_ifs <;> rfl

/-! ## What a collect does to the queues -/

/-- The STATE writes leave the owners of the pages as they are. -/
theorem pageUser_applyStoreChanges [PyValue V] [LegacyBag B V] (worker : Worker V B)
    (store : BagId) (store_changes : List (Change V)) (clock : ℕ → PageId → Instant)
    (q : PageId) :
    (worker.applyStoreChanges store store_changes clock).registry.pageUser q =
      worker.registry.pageUser q := by
  refine Registry.pageUser_mapPages ?_ q
  intro page_id page
  rfl

/-- A row that the STATE writes reach. -/
theorem get_applyStoreChanges [PyValue V] [LegacyBag B V] (worker : Worker V B) (store : BagId)
    (store_changes : List (Change V)) (clock : ℕ → PageId → Instant) (q : PageId) :
    (worker.applyStoreChanges store store_changes clock).registry.page_register.get q =
      (worker.registry.page_register.get q).map fun page =>
        page.hear store (applyEach (worker.bags store) store_changes).2 fun i => clock i q := by
  simp only [applyStoreChanges, Registry.mapPages, Dict.get_mapVals]

/-- A final critical section keeps the owners of the pages. -/
theorem pageUser_collectFinish [PyValue V] [LegacyBag B V] (worker : Worker V B) (page_id : PageId)
    (user : User) (reply : ExchangeReply V) (own_dbevents : List (DbEvent V))
    (clock : ℕ → PageId → Instant) (q : PageId) :
    (worker.collectFinish page_id user reply own_dbevents clock).1.registry.pageUser q =
      worker.registry.pageUser q := by
  rcases worker.collectFinish_cases page_id user reply own_dbevents clock with
    ⟨_, heq⟩ | ⟨_, _, heq⟩ | ⟨row, user_item, hrow, _, page, hpage, _, heq⟩
  · rw [heq]
  · rw [heq]
  · have hget := worker.get_applyStoreChanges user_item.store reply.store_changes clock page_id
    rw [hrow, Option.map_some] at hget
    rw [heq]
    have hdrained : page.drained.connection_id = _ := hpage
    have hset := Registry.pageUser_setPage (q := q) hget hdrained
    exact hset.trans
      (worker.pageUser_applyStoreChanges user_item.store reply.store_changes clock q)

/-- A final critical section keeps the rows of the users. -/
theorem user_register_collectFinish [PyValue V] [LegacyBag B V] (worker : Worker V B)
    (page_id : PageId) (user : User) (reply : ExchangeReply V) (own_dbevents : List (DbEvent V))
    (clock : ℕ → PageId → Instant) :
    (worker.collectFinish page_id user reply own_dbevents clock).1.registry.user_register =
      worker.registry.user_register := by
  rcases worker.collectFinish_cases page_id user reply own_dbevents clock with
    ⟨_, heq⟩ | ⟨_, _, heq⟩ | ⟨row, user_item, _, _, page, _, _, heq⟩
  · rw [heq]
  · rw [heq]
  · rw [heq]
    rfl

/-- A collect of one page leaves the queue of every other row as it is. -/
theorem rowQueue_collectFinish_of_ne [PyValue V] [LegacyBag B V] (worker : Worker V B)
    {page_id p : PageId} (hp : p ≠ page_id) (user : User) (reply : ExchangeReply V)
    (own_dbevents : List (DbEvent V)) (clock : ℕ → PageId → Instant) :
    (worker.collectFinish page_id user reply own_dbevents clock).1.rowQueue p =
      worker.rowQueue p := by
  rcases worker.collectFinish_cases page_id user reply own_dbevents clock with
    ⟨_, heq⟩ | ⟨_, _, heq⟩ | ⟨row, user_item, _, _, page, _, _, heq⟩
  · rw [heq]
  · rw [heq]
  · rw [heq, rowQueue_setPage, if_neg hp, rowQueue_applyStoreChanges]

/-- A final critical section that finds its page and its user answers the merge of the row's queue
with the desk's, and leaves the row's queue empty. -/
theorem collectFinish_of_there [PyValue V] [LegacyBag B V] (worker : Worker V B) {page_id : PageId}
    {user : User} (reply : ExchangeReply V) (own_dbevents : List (DbEvent V))
    (clock : ℕ → PageId → Instant) {row : PageRow V}
    (hrow : worker.registry.page_register.get page_id = some row)
    (huser : (worker.registry.user_register.get user).isSome = true)
    (hreply : ∀ change ∈ reply.datachanges, change.arrival_ts.isSome = true) :
    (worker.collectFinish page_id user reply own_dbevents clock).1.rowQueue page_id = [] ∧
      ∃ delivery, (worker.collectFinish page_id user reply own_dbevents clock).2 = .ok delivery ∧
        arrived delivery.datachanges =
          (mergeOn Change.arrivalOrder row.datachanges reply.datachanges).map
            Change.unnumbered := by
  rcases worker.collectFinish_cases page_id user reply own_dbevents clock with
    ⟨hnone, _⟩ | ⟨_, hnone, _⟩ | ⟨row', user_item, hrow', _, page, _, hchanges, heq⟩
  · rw [hrow] at hnone
    cases hnone
  · rw [hnone] at huser
    cases huser
  · rw [hrow] at hrow'
    cases hrow'
    refine ⟨?_, _, by rw [heq], ?_⟩
    · rw [heq, rowQueue_setPage, if_pos rfl]
      rfl
    · rw [arrived_mergedDatachanges page reply.datachanges hreply, hchanges]

end Worker
end GenropyAsgi
