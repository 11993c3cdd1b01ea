import GenropyAsgi.SubscriptionIndex

/-!
# The delivery desk

`DeliveryDesk` of `delivery_desk.py`: the subscription index and the three species of pending
queues, with the operations that file into them and the three that retire them. An operation that
announces the table set answers whether it does, and the commander creates the pushes; an operation
that reads the wall clock takes the instant that it reads.

A queue is read through `datachangesFor`, `dbeventsFor` and `storeChangesFor`, for which a missing
queue and an empty one are the same list. Beside each operation stand the lemmas that say what it
does to these three and to the index: a proof about the desk rewrites with them and does not unfold
the operation.
-/

namespace GenropyAsgi

open Library

variable {V : Type}

/-- The two maps of the core commander by which the desk knows whether a target exists. -/
structure Population where
  /-- The connection of each page. -/
  page_connection_map : Dict PageId ConnectionId
  /-- The users, the keys of `user_map`. -/
  user_map : Finset User

/-- Whether the addressed target exists at the vertex: the test of `on_datachange`. -/
def Population.known (population : Population) (kind : Kind) (target : String) : Bool :=
  if kind.isState then decide (target ∈ population.user_map)
  else (population.page_connection_map.get target).isSome

/-- The desk. -/
structure DeliveryDesk (V : Type) where
  /-- Which pages want which table. -/
  page_subscriptions : SubscriptionIndex
  /-- The pending changes of each page. -/
  page_datachange_map : Dict PageId (List (Change V))
  /-- The pending deposits of each page. -/
  page_dbevent_map : Dict PageId (List (DbEvent V))
  /-- The pending STATE writes of each user. -/
  user_store_change_map : Dict User (List (Change V))

/-- What an exchange answers. -/
structure ExchangeReply (V : Type) where
  /-- The changes retired for the page. -/
  datachanges : List (Change V)
  /-- The deposits retired for the page. -/
  dbevents : List (DbEvent V)
  /-- The STATE writes retired for its owner. -/
  store_changes : List (Change V)

/-- What an addressed write makes of the queue that it is addressed at, in `file_datachange`: the
queue it leaves, and the exception of a change that does not decode. -/
def Op.fileOn (queue : List (Change V)) (now : Instant) :
    Op V → List (Change V) × Except PyError Unit
  | .resetDatachanges => ([], .ok ())
  | .dropDatachanges path => (queue.filter fun pending => !under pending.key.path path, .ok ())
  | .setDatachange none _ => (queue, .error .decodeError)
  | .setDatachange (some change) replace =>
    ((if replace then queue.filter fun pending => decide (pending.key ≠ change.key) else queue) ++
      [{ change with arrival_ts := some now }], .ok ())

/-- What an addressed write leaves of a queue and adds to it is in the order of the history. -/
theorem Op.sublist_fileOn (queue : List (Change V)) {message : Message V} {target : String}
    (hstate : message.kind.isState = true) (htarget : message.target = some target)
    (now : Instant) :
    (message.op.fileOn queue now).1.Sublist (queue ++ about target (message.filed now)) := by
  cases hop : message.op with
  | resetDatachanges => exact List.nil_sublist _
  | dropDatachanges path =>
    exact List.filter_sublist.trans (List.sublist_append_left _ _)
  | setDatachange change replace =>
    cases change with
    | none => exact List.sublist_append_left _ _
    | some change =>
      have hentry : about target (message.filed now) =
          [{ change with arrival_ts := some now }] := by
        simp [Message.filed, hstate, htarget, hop]
      rw [hentry]
      refine List.Sublist.append_right ?_ _
      split_ifs
      · exact List.filter_sublist
      · exact List.Sublist.refl _

namespace DeliveryDesk

/-- The deposit as the queues hold it: stamped with the instant at which it was filed. -/
def filedDeposit (deposit : DbEvent V × Instant) : DbEvent V :=
  { deposit.1 with arrival_ts := some deposit.2 }

/-- The newborn desk. -/
def empty : DeliveryDesk V := ⟨SubscriptionIndex.empty, ∅, ∅, ∅⟩

/-- `subscribed_tables`: the sorted table set. -/
def subscribedTables (desk : DeliveryDesk V) : List Table :=
  sorted desk.page_subscriptions.tables

/-- `record_page_table_subscriptions`. The answer is whether the new set is announced. -/
def recordPageTableSubscriptions (desk : DeliveryDesk V) (page_id : PageId) (tables : List Table) :
    DeliveryDesk V × Bool :=
  let created := desk.page_subscriptions.subscribeEach page_id tables
  ({ desk with page_subscriptions := created.1 }, created.2.any id)

/-- `subscribe_table`. The answer is whether the new set is announced. -/
def subscribeTable (desk : DeliveryDesk V) (page_id : PageId) (table : Table) (subscribe : Bool) :
    DeliveryDesk V × Bool :=
  let moved :=
    if subscribe then desk.page_subscriptions.subscribe page_id table
    else desk.page_subscriptions.unsubscribe page_id table
  ({ desk with page_subscriptions := moved.1 }, moved.2)

/-- `file_datachange`, on the target that `on_datachange` has read from the message. The queue is
born before the change is decoded, and stays when the decoding raises. -/
def fileDatachange (desk : DeliveryDesk V) (target : String) (message : Message V) (now : Instant) :
    DeliveryDesk V × Except PyError Unit :=
  match message.filters with
  | some filters => (desk, .error (.notImplementedError "desk: the filtered address" filters))
  | none =>
    if message.kind.isState then
      let filed := message.op.fileOn ((desk.user_store_change_map.get target).getD []) now
      ({ desk with user_store_change_map := desk.user_store_change_map.set target filed.1 },
        filed.2)
    else
      let filed := message.op.fileOn ((desk.page_datachange_map.get target).getD []) now
      ({ desk with page_datachange_map := desk.page_datachange_map.set target filed.1 }, filed.2)

/-- `file_dbevent`: the stamped deposit joins the queue of every page subscribed to its table. -/
def fileDbevent (desk : DeliveryDesk V) (deposit : DbEvent V) (now : Instant) : DeliveryDesk V :=
  { desk with
    page_dbevent_map :=
      desk.page_dbevent_map.setAll (desk.page_subscriptions.pagesFor deposit.table)
        fun _ queue => queue.getD [] ++ [filedDeposit (deposit, now)] }

/-- The loop of `exchange` and of `deposit`, with the instant at which each deposit is filed. -/
def fileDbevents (desk : DeliveryDesk V) (dbevents : List (DbEvent V × Instant)) :
    DeliveryDesk V :=
  dbevents.foldl (fun desk deposit => desk.fileDbevent deposit.1 deposit.2) desk

/-- The pending changes of a page. -/
def datachangesFor (desk : DeliveryDesk V) (page_id : PageId) : List (Change V) :=
  (desk.page_datachange_map.get page_id).getD []

/-- The pending deposits of a page. -/
def dbeventsFor (desk : DeliveryDesk V) (page_id : PageId) : List (DbEvent V) :=
  (desk.page_dbevent_map.get page_id).getD []

/-- The pending STATE writes of a user. -/
def storeChangesFor (desk : DeliveryDesk V) (user : User) : List (Change V) :=
  (desk.user_store_change_map.get user).getD []

/-- `drain_page_datachanges`. -/
def drainPageDatachanges (desk : DeliveryDesk V) (page_id : PageId) :
    DeliveryDesk V × List (Change V) :=
  ({ desk with page_datachange_map := desk.page_datachange_map.pop page_id },
    desk.datachangesFor page_id)

/-- `drain_page_dbevents`. -/
def drainPageDbevents (desk : DeliveryDesk V) (page_id : PageId) :
    DeliveryDesk V × List (DbEvent V) :=
  ({ desk with page_dbevent_map := desk.page_dbevent_map.pop page_id }, desk.dbeventsFor page_id)

/-- `drain_user_store_changes`. -/
def drainUserStoreChanges (desk : DeliveryDesk V) (user : User) :
    DeliveryDesk V × List (Change V) :=
  ({ desk with user_store_change_map := desk.user_store_change_map.pop user },
    desk.storeChangesFor user)

/-- `exchange`: the deposits are filed first, then the three queues are retired. -/
def exchange (desk : DeliveryDesk V) (page_id : PageId) (user : User)
    (dbevents : List (DbEvent V × Instant)) : DeliveryDesk V × ExchangeReply V :=
  let filed := desk.fileDbevents dbevents
  let datachanges := filed.drainPageDatachanges page_id
  let dbevents := datachanges.1.drainPageDbevents page_id
  let store_changes := dbevents.1.drainUserStoreChanges user
  (store_changes.1, ⟨datachanges.2, dbevents.2, store_changes.2⟩)

/-- `deposit`: the deposits are filed and nothing is retired. -/
def deposit (desk : DeliveryDesk V) (dbevents : List (DbEvent V × Instant)) : DeliveryDesk V :=
  desk.fileDbevents dbevents

/-- `on_datachange`: the answer is `filed`. -/
def onDatachange (desk : DeliveryDesk V) (population : Population) (message : Message V)
    (now : Instant) : DeliveryDesk V × Except PyError Bool :=
  match message.target with
  | none => (desk, .ok false)
  | some target =>
    if population.known message.kind target then
      let filed := desk.fileDatachange target message now
      (filed.1, filed.2.map fun _ => true)
    else (desk, .ok false)

/-- `drop_page`. The answer is whether the new set is announced. -/
def dropPage (desk : DeliveryDesk V) (page_id : PageId) : DeliveryDesk V × Bool :=
  let dropped := desk.page_subscriptions.dropPage page_id
  ({ desk with
      page_datachange_map := desk.page_datachange_map.pop page_id
      page_dbevent_map := desk.page_dbevent_map.pop page_id
      page_subscriptions := dropped.1 }, dropped.2)

/-- `drop_user`. -/
def dropUser (desk : DeliveryDesk V) (user : User) : DeliveryDesk V :=
  { desk with user_store_change_map := desk.user_store_change_map.pop user }

/-- Whether the answer of `on_datachange` says that the write was filed. -/
def isFiled (answer : Except PyError Bool) : Bool :=
  match answer with
  | .ok filed => filed
  | .error _ => false

/-! ## The subscriptions -/

/-- The set that is pushed is the set of the index. -/
theorem toFinset_subscribedTables (desk : DeliveryDesk V) :
    desk.subscribedTables.toFinset = desk.page_subscriptions.tables :=
  toFinset_sorted _

/-- The table set that is pushed determines the set of the index. -/
theorem subscribedTables_inj {desk desk' : DeliveryDesk V} :
    desk.subscribedTables = desk'.subscribedTables ↔
      desk.page_subscriptions.tables = desk'.page_subscriptions.tables := by
  constructor
  · intro h
    rw [← toFinset_subscribedTables, h, toFinset_subscribedTables]
  · intro h
    simp only [subscribedTables, h]

/-- A table is pushed exactly when some page subscribes it. -/
theorem mem_subscribedTables (desk : DeliveryDesk V) {t : Table} :
    t ∈ desk.subscribedTables ↔ ∃ p, p ∈ desk.page_subscriptions.pagesFor t := by
  rw [subscribedTables, mem_sorted, desk.page_subscriptions.mem_tables]

/-- The subscriptions after an announcement. -/
@[simp]
theorem mem_pagesFor_recordPageTableSubscriptions (desk : DeliveryDesk V) {p q : PageId}
    {ts : List Table} {u : Table} :
    q ∈ (desk.recordPageTableSubscriptions p ts).1.page_subscriptions.pagesFor u ↔
      q ∈ desk.page_subscriptions.pagesFor u ∨ (q = p ∧ u ∈ ts) :=
  SubscriptionIndex.mem_pagesFor_subscribeEach

/-- The subscriptions after a `subscribe_table`: one pair is as the call says. -/
@[simp]
theorem mem_pagesFor_subscribeTable (desk : DeliveryDesk V) {p q : PageId} {t u : Table}
    {subscribe : Bool} :
    q ∈ (desk.subscribeTable p t subscribe).1.page_subscriptions.pagesFor u ↔
      if q = p ∧ u = t then subscribe = true else q ∈ desk.page_subscriptions.pagesFor u := by
  cases subscribe with
  | true =>
    simp only [subscribeTable, if_true, SubscriptionIndex.mem_pagesFor_subscribe]
    by_cases h : q = p ∧ u = t
    · simp [h]
    · simp [h]
  | false =>
    simp only [subscribeTable, Bool.false_eq_true, if_false,
      SubscriptionIndex.mem_pagesFor_unsubscribe]
    by_cases h : q = p ∧ u = t
    · simp [h]
    · simp [h]

/-- The subscriptions after a `drop_page`: the page has none. -/
@[simp]
theorem mem_pagesFor_dropPage (desk : DeliveryDesk V) {p q : PageId} {u : Table} :
    q ∈ (desk.dropPage p).1.page_subscriptions.pagesFor u ↔
      q ∈ desk.page_subscriptions.pagesFor u ∧ q ≠ p :=
  desk.page_subscriptions.mem_pagesFor_dropPage

/-- `record_page_table_subscriptions` announces exactly when the table set moves. -/
theorem recordPageTableSubscriptions_moved_iff (desk : DeliveryDesk V) (p : PageId)
    (ts : List Table) :
    (desk.recordPageTableSubscriptions p ts).2 = true ↔
      (desk.recordPageTableSubscriptions p ts).1.subscribedTables ≠ desk.subscribedTables := by
  rw [ne_eq, subscribedTables_inj]
  exact SubscriptionIndex.subscribeEach_moved_iff p ts desk.page_subscriptions

/-- `subscribe_table` announces exactly when the table set moves. -/
theorem subscribeTable_moved_iff (desk : DeliveryDesk V) (p : PageId) (t : Table)
    (subscribe : Bool) :
    (desk.subscribeTable p t subscribe).2 = true ↔
      (desk.subscribeTable p t subscribe).1.subscribedTables ≠ desk.subscribedTables := by
  rw [ne_eq, subscribedTables_inj]
  cases subscribe with
  | true => exact desk.page_subscriptions.subscribe_moved_iff p t
  | false => exact desk.page_subscriptions.unsubscribe_moved_iff p t

/-- `drop_page` announces exactly when the table set moves. -/
theorem dropPage_moved_iff (desk : DeliveryDesk V) (p : PageId) :
    (desk.dropPage p).2 = true ↔
      (desk.dropPage p).1.subscribedTables ≠ desk.subscribedTables := by
  rw [ne_eq, subscribedTables_inj]
  exact desk.page_subscriptions.dropPage_moved_iff p

/-! ## The deposits -/

/-- The deposits that a page hears among those filed together, as its queue receives them. -/
def heardBy (desk : DeliveryDesk V) (page_id : PageId) (dbevents : List (DbEvent V × Instant)) :
    List (DbEvent V) :=
  (dbevents.filter fun deposit =>
    decide (page_id ∈ desk.page_subscriptions.pagesFor deposit.1.table)).map filedDeposit

/-- `file_dbevent` creates a queue for a subscriber and for nobody else. -/
theorem get_page_dbevent_map_fileDbevent (desk : DeliveryDesk V) (deposit : DbEvent V)
    (now : Instant) (q : PageId) :
    (desk.fileDbevent deposit now).page_dbevent_map.get q =
      if q ∈ desk.page_subscriptions.pagesFor deposit.table then
        some (desk.dbeventsFor q ++ [filedDeposit (deposit, now)])
      else desk.page_dbevent_map.get q := by
  simp only [fileDbevent, Dict.get_setAll, dbeventsFor]

/-- The loop of the filings leaves everything but the deposits as it was. -/
theorem fileDbevents_frame :
    ∀ (dbevents : List (DbEvent V × Instant)) (desk : DeliveryDesk V),
      desk.fileDbevents dbevents =
        { desk with page_dbevent_map := (desk.fileDbevents dbevents).page_dbevent_map }
  | [], _ => rfl
  | deposit :: dbevents, desk => by
    have ih := fileDbevents_frame dbevents (desk.fileDbevent deposit.1 deposit.2)
    simp only [fileDbevents, List.foldl_cons] at ih ⊢
    rw [ih]
    rfl

/-- The index after the filings. -/
@[simp]
theorem page_subscriptions_fileDbevents (desk : DeliveryDesk V)
    (dbevents : List (DbEvent V × Instant)) :
    (desk.fileDbevents dbevents).page_subscriptions = desk.page_subscriptions := by
  rw [fileDbevents_frame]

/-- The pending changes after the filings. -/
@[simp]
theorem page_datachange_map_fileDbevents (desk : DeliveryDesk V)
    (dbevents : List (DbEvent V × Instant)) :
    (desk.fileDbevents dbevents).page_datachange_map = desk.page_datachange_map := by
  rw [fileDbevents_frame]

/-- The pending STATE writes after the filings. -/
@[simp]
theorem user_store_change_map_fileDbevents (desk : DeliveryDesk V)
    (dbevents : List (DbEvent V × Instant)) :
    (desk.fileDbevents dbevents).user_store_change_map = desk.user_store_change_map := by
  rw [fileDbevents_frame]

/-- Each page's queue grows by what the page hears, in the order of the filings. -/
@[simp]
theorem dbeventsFor_fileDbevents (q : PageId) :
    ∀ (dbevents : List (DbEvent V × Instant)) (desk : DeliveryDesk V),
      (desk.fileDbevents dbevents).dbeventsFor q = desk.dbeventsFor q ++ desk.heardBy q dbevents
  | [], desk => by simp [fileDbevents, heardBy]
  | deposit :: dbevents, desk => by
    have ih := dbeventsFor_fileDbevents q dbevents (desk.fileDbevent deposit.1 deposit.2)
    have hheard : (desk.fileDbevent deposit.1 deposit.2).heardBy q dbevents =
        desk.heardBy q dbevents := rfl
    rw [show desk.fileDbevents (deposit :: dbevents) =
      (desk.fileDbevent deposit.1 deposit.2).fileDbevents dbevents from rfl, ih, hheard]
    have hget := desk.get_page_dbevent_map_fileDbevent deposit.1 deposit.2 q
    by_cases hq : q ∈ desk.page_subscriptions.pagesFor deposit.1.table
    · -- The first deposit joins the page's queue.
      rw [if_pos hq] at hget
      simp only [dbeventsFor, hget, heardBy, List.filter_cons, decide_eq_true hq]
      simp
    · rw [if_neg hq] at hget
      simp only [dbeventsFor, hget, heardBy, List.filter_cons, decide_eq_false hq]
      simp

/-- The filings create no queue for a page without subscriptions. -/
theorem get_page_dbevent_map_fileDbevents {q : PageId} :
    ∀ {dbevents : List (DbEvent V × Instant)} {desk : DeliveryDesk V},
      (∀ t, q ∉ desk.page_subscriptions.pagesFor t) →
        (desk.fileDbevents dbevents).page_dbevent_map.get q = desk.page_dbevent_map.get q
  | [], _, _ => rfl
  | deposit :: dbevents, desk, hq => by
    have hrest := @get_page_dbevent_map_fileDbevents q dbevents
      (desk.fileDbevent deposit.1 deposit.2) hq
    rw [show desk.fileDbevents (deposit :: dbevents) =
      (desk.fileDbevent deposit.1 deposit.2).fileDbevents dbevents from rfl, hrest,
      get_page_dbevent_map_fileDbevent, if_neg (hq deposit.1.table)]

/-! ## The exchange -/

/-- What an exchange answers. -/
theorem exchange_reply (desk : DeliveryDesk V) (p : PageId) (user : User)
    (dbevents : List (DbEvent V × Instant)) :
    (desk.exchange p user dbevents).2 =
      ⟨desk.datachangesFor p, desk.dbeventsFor p ++ desk.heardBy p dbevents,
        desk.storeChangesFor user⟩ := by
  have h := dbeventsFor_fileDbevents p dbevents desk
  simp only [dbeventsFor] at h
  simp only [exchange, drainPageDatachanges, drainPageDbevents, drainUserStoreChanges,
    datachangesFor, dbeventsFor, storeChangesFor, page_datachange_map_fileDbevents,
    user_store_change_map_fileDbevents, h]

/-- The index after an exchange. -/
@[simp]
theorem page_subscriptions_exchange (desk : DeliveryDesk V) (p : PageId) (user : User)
    (dbevents : List (DbEvent V × Instant)) :
    (desk.exchange p user dbevents).1.page_subscriptions = desk.page_subscriptions := by
  simp [exchange, drainPageDatachanges, drainPageDbevents, drainUserStoreChanges]

/-- The map of the pending changes after an exchange. -/
@[simp]
theorem page_datachange_map_exchange (desk : DeliveryDesk V) (p : PageId) (user : User)
    (dbevents : List (DbEvent V × Instant)) :
    (desk.exchange p user dbevents).1.page_datachange_map = desk.page_datachange_map.pop p := by
  simp [exchange, drainPageDatachanges, drainPageDbevents, drainUserStoreChanges]

/-- The map of the pending deposits after an exchange. -/
@[simp]
theorem page_dbevent_map_exchange (desk : DeliveryDesk V) (p : PageId) (user : User)
    (dbevents : List (DbEvent V × Instant)) :
    (desk.exchange p user dbevents).1.page_dbevent_map =
      (desk.fileDbevents dbevents).page_dbevent_map.pop p := rfl

/-- The map of the pending STATE writes after an exchange. -/
@[simp]
theorem user_store_change_map_exchange (desk : DeliveryDesk V) (p : PageId) (user : User)
    (dbevents : List (DbEvent V × Instant)) :
    (desk.exchange p user dbevents).1.user_store_change_map =
      desk.user_store_change_map.pop user := by
  simp [exchange, drainPageDatachanges, drainPageDbevents, drainUserStoreChanges]

/-- The pending changes of a page after an exchange. -/
theorem datachangesFor_exchange (desk : DeliveryDesk V) (p q : PageId) (user : User)
    (dbevents : List (DbEvent V × Instant)) :
    (desk.exchange p user dbevents).1.datachangesFor q =
      if q = p then [] else desk.datachangesFor q := by
  rw [datachangesFor, page_datachange_map_exchange, Dict.get_pop]
  split_ifs <;> rfl

/-- The pending STATE writes of a user after an exchange. -/
theorem storeChangesFor_exchange (desk : DeliveryDesk V) (p : PageId) (user owner : User)
    (dbevents : List (DbEvent V × Instant)) :
    (desk.exchange p user dbevents).1.storeChangesFor owner =
      if owner = user then [] else desk.storeChangesFor owner := by
  rw [storeChangesFor, user_store_change_map_exchange, Dict.get_pop]
  split_ifs <;> rfl

/-- The pending deposits of a page after an exchange: the exchanging page has none, and every other
page has received the deposits that came with the exchange. -/
theorem dbeventsFor_exchange (desk : DeliveryDesk V) (p q : PageId) (user : User)
    (dbevents : List (DbEvent V × Instant)) :
    (desk.exchange p user dbevents).1.dbeventsFor q =
      if q = p then [] else desk.dbeventsFor q ++ desk.heardBy q dbevents := by
  rw [dbeventsFor, page_dbevent_map_exchange, Dict.get_pop]
  split_ifs with hq
  · rfl
  · exact dbeventsFor_fileDbevents q dbevents desk

/-! ## The drop of a page -/

/-- The pending deposits of a page after a drop. -/
theorem dbeventsFor_dropPage (desk : DeliveryDesk V) (p q : PageId) :
    (desk.dropPage p).1.dbeventsFor q = if q = p then [] else desk.dbeventsFor q := by
  simp only [dropPage, dbeventsFor, Dict.get_pop]
  split_ifs <;> rfl

/-! ## The addressed writes -/

/-- What `on_datachange` does: it edits the store queue of a known user, or the queue of a known
page, or it files nothing and leaves the desk as it is. -/
theorem onDatachange_cases (desk : DeliveryDesk V) (population : Population) (message : Message V)
    (now : Instant) :
    (∃ target, message.target = some target ∧ message.filters = none ∧
        message.kind.isState = true ∧ population.known message.kind target = true ∧
        desk.onDatachange population message now =
          ({ desk with
              user_store_change_map := desk.user_store_change_map.set target
                (message.op.fileOn (desk.storeChangesFor target) now).1 },
            (message.op.fileOn (desk.storeChangesFor target) now).2.map fun _ => true)) ∨
      (∃ target, message.target = some target ∧ message.filters = none ∧
        message.kind.isState = false ∧ population.known message.kind target = true ∧
        desk.onDatachange population message now =
          ({ desk with
              page_datachange_map := desk.page_datachange_map.set target
                (message.op.fileOn (desk.datachangesFor target) now).1 },
            (message.op.fileOn (desk.datachangesFor target) now).2.map fun _ => true)) ∨
      ∃ answer, answer ≠ .ok true ∧ desk.onDatachange population message now = (desk, answer) := by
  unfold onDatachange
  -- A missing target, an unknown one and a filtered address leave the desk as it is.
  cases htarget : message.target with
  | none => exact Or.inr (Or.inr ⟨.ok false, by simp, rfl⟩)
  | some target =>
    dsimp only
    split_ifs with hknown
    · unfold fileDatachange
      cases hfilters : message.filters with
      | some filters => exact Or.inr (Or.inr ⟨_, by simp [Except.map], rfl⟩)
      | none =>
        cases hkind : message.kind.isState with
        | true => exact Or.inl ⟨target, rfl, rfl, rfl, hknown, rfl⟩
        | false => exact Or.inr (Or.inl ⟨target, rfl, rfl, rfl, hknown, rfl⟩)
    · exact Or.inr (Or.inr ⟨.ok false, by simp, rfl⟩)

/-- The pending changes of a page once a queue is replaced. -/
theorem datachangesFor_set (desk : DeliveryDesk V) (target p : PageId) (queue : List (Change V)) :
    ({ desk with page_datachange_map := desk.page_datachange_map.set target queue } :
      DeliveryDesk V).datachangesFor p = if p = target then queue else desk.datachangesFor p := by
  simp only [datachangesFor, Dict.get_set]
  split_ifs <;> rfl

/-- The pending STATE writes of a user once a queue is replaced. -/
theorem storeChangesFor_set (desk : DeliveryDesk V) (target u : User) (queue : List (Change V)) :
    ({ desk with user_store_change_map := desk.user_store_change_map.set target queue } :
      DeliveryDesk V).storeChangesFor u = if u = target then queue else desk.storeChangesFor u := by
  simp only [storeChangesFor, Dict.get_set]
  split_ifs <;> rfl

/-- What is filed on a stamped queue leaves it stamped. -/
theorem stamped_fileOn {queue : List (Change V)} (now : Instant)
    (h : ∀ change ∈ queue, change.arrival_ts.isSome = true) :
    ∀ op : Op V, ∀ change ∈ (op.fileOn queue now).1, change.arrival_ts.isSome = true
  | .resetDatachanges => fun _ hc => absurd hc List.not_mem_nil
  | .dropDatachanges _ => fun change hc => h change (List.mem_filter.1 hc).1
  | .setDatachange none _ => h
  | .setDatachange (some _) replace => by
    intro pending hpending
    rcases List.mem_append.1 hpending with hold | hnew
    · split_ifs at hold
      · exact h pending (List.mem_filter.1 hold).1
      · exact h pending hold
    · rw [List.mem_singleton] at hnew
      rw [hnew]
      rfl

/-- An addressed write keeps the queue of a page stamped. -/
theorem stamped_onDatachange (desk : DeliveryDesk V) (population : Population)
    (message : Message V) (now : Instant) {p : PageId}
    (h : ∀ change ∈ desk.datachangesFor p, change.arrival_ts.isSome = true) :
    ∀ change ∈ (desk.onDatachange population message now).1.datachangesFor p,
      change.arrival_ts.isSome = true := by
  rcases desk.onDatachange_cases population message now with
    ⟨target, _, _, _, _, heq⟩ | ⟨target, _, _, _, _, heq⟩ | ⟨answer, _, heq⟩
  · rw [heq]
    exact h
  · rw [heq]
    dsimp only
    rw [datachangesFor_set]
    by_cases hp : p = target
    · subst hp
      rw [if_pos rfl]
      exact stamped_fileOn now h message.op
    · rw [if_neg hp]
      exact h
  · rw [heq]
    exact h

/-- Every answer but the one `True` says that nothing was filed. -/
theorem isFiled_of_ne {answer : Except PyError Bool} (h : answer ≠ .ok true) :
    isFiled answer = false := by
  cases answer with
  | error e => rfl
  | ok filed =>
    cases filed with
    | false => rfl
    | true => exact absurd rfl h

/-- A write without `replace` adds its change to the queue of the page that it is filed for. -/
theorem datachangesFor_onDatachange (desk : DeliveryDesk V) (population : Population)
    (message : Message V) (now : Instant) (p : PageId) (hplain : message.PlainFor p) :
    ((desk.onDatachange population message now).1.datachangesFor p).map Change.unnumbered =
      (desk.datachangesFor p).map Change.unnumbered ++
        about p (if isFiled (desk.onDatachange population message now).2 then
          message.addressed now else []) := by
  rcases desk.onDatachange_cases population message now with
    ⟨target, htarget, _, hstate, _, heq⟩ | ⟨target, htarget, _, hstate, _, heq⟩ |
      ⟨answer, hanswer, heq⟩
  · have hnone : message.addressed now = [] := by simp [Message.addressed, hstate]
    rw [heq, hnone]
    simp [datachangesFor]
  · rw [heq]
    dsimp only
    rw [datachangesFor_set]
    by_cases hp : p = target
    · subst hp
      obtain ⟨change, hop⟩ := hplain hstate htarget
      rw [if_pos rfl, hop]
      -- A change that does not decode raises, and is neither filed nor accepted.
      cases change with
      | none => simp [Op.fileOn, isFiled, Except.map]
      | some change =>
        simp [Op.fileOn, isFiled, Except.map, Message.addressed, htarget, hop, hstate,
          Change.unnumbered, Change.arriving]
    · rw [if_neg hp]
      simp [Message.about_addressed_of_ne htarget hp]
  · rw [heq]
    simp [isFiled_of_ne hanswer]

/-- An addressed write leaves the store queue of a user alone, or it is addressed at it and edits
it. -/
theorem storeChangesFor_onDatachange (desk : DeliveryDesk V) (population : Population)
    (message : Message V) (now : Instant) (u : User) :
    ((desk.onDatachange population message now).1.storeChangesFor u = desk.storeChangesFor u ∧
        about u (if isFiled (desk.onDatachange population message now).2 then
          message.filed now else []) = []) ∨
      (message.kind.isState = true ∧ message.target = some u ∧
        (desk.onDatachange population message now).1.storeChangesFor u =
          (message.op.fileOn (desk.storeChangesFor u) now).1 ∧
        about u (if isFiled (desk.onDatachange population message now).2 then
          message.filed now else []) = about u (message.filed now)) := by
  rcases desk.onDatachange_cases population message now with
    ⟨target, htarget, _, hstate, _, heq⟩ | ⟨target, htarget, _, hstate, _, heq⟩ |
      ⟨answer, hanswer, heq⟩
  · rw [heq]
    dsimp only
    rw [storeChangesFor_set]
    by_cases hu : u = target
    · subst hu
      refine Or.inr ⟨hstate, htarget, if_pos rfl, ?_⟩
      split_ifs with hfiled
      · rfl
      · -- Only a change that does not decode is not filed, and it is no entry.
        unfold Message.filed
        split
        · next heq' _ _ hop =>
          rw [hop] at hfiled
          exact absurd rfl hfiled
        · rfl
    · refine Or.inl ⟨if_neg hu, ?_⟩
      rw [about_ite, Message.about_filed_of_ne htarget hu, ite_self]
  · -- The write is addressed at a page.
    have hnone : message.filed now = [] := by simp [Message.filed, hstate]
    rw [heq, hnone]
    exact Or.inl ⟨rfl, by rw [ite_self]; rfl⟩
  · rw [heq]
    refine Or.inl ⟨rfl, ?_⟩
    simp [isFiled_of_ne hanswer]

end DeliveryDesk
end GenropyAsgi
