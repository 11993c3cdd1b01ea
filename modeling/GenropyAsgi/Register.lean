import GenropyAsgi.LegacyBag
import GenropyAsgi.DeliveryDesk

/-!
# The page row and the registry

`GenropyPageRow` and `GenropyRegistry` of `genropy_register.py`. The row carries two facts as
fields: its queue holds stamped changes only, and its view holds none that is stamped. Both are what
tells, in a delivery, the changes of the row and the desk from those of the view.

The core's registers are dictionaries of rows with the fields that the bridge reads. That the user
of a connection has a row, and that no two users share a store, is carried by the registry itself;
both are the core's to keep, since the bridge writes no connection and no user row.
-/

namespace GenropyAsgi

open Library

variable {V : Type}

/-- The row of a page. -/
structure PageRow (V : Type) where
  /-- The connection that the page belongs to. -/
  connection_id : ConnectionId
  /-- The row's own queue. -/
  datachanges : List (Change V)
  /-- The index stamped on the last change of the queue. -/
  datachanges_idx : ℕ
  /-- The collector on the owner's store, once a prefix of it is subscribed. -/
  user_view : Option (LegacyBagCollector V)
  /-- The captured prefixes of the page's own store. -/
  subscribed_paths : Finset String
  /-- The watched prefixes of the user store. -/
  store_subscriptions : Finset String
  /-- The tables that the page subscribes. -/
  table_subscriptions : Finset Table
  /-- Every change of the queue is stamped with its arrival. -/
  stamped : ∀ change ∈ datachanges, change.arrival_ts.isSome = true
  /-- No change of the view is. -/
  unstamped : ∀ view ∈ user_view, view.Unstamped

namespace PageRow

/-- `default_fields`: the row of a newborn page. -/
def born (connection_id : ConnectionId) : PageRow V where
  connection_id := connection_id
  datachanges := []
  datachanges_idx := 0
  user_view := none
  subscribed_paths := ∅
  store_subscriptions := ∅
  table_subscriptions := ∅
  stamped _ h := absurd h List.not_mem_nil
  unstamped _ h := absurd h (Option.not_mem_none _)

/-- `append_page_datachange`, at the instant of the append. -/
def appendPageDatachange (page : PageRow V) (change : Change V) (replace : Bool) (now : Instant) :
    PageRow V :=
  { page with
    datachanges :=
      (if replace then
        page.datachanges.filter fun pending => decide (pending.key ≠ change.key)
      else page.datachanges) ++
        [{ change with change_idx := page.datachanges_idx + 1, arrival_ts := some now }]
    datachanges_idx := page.datachanges_idx + 1
    stamped := by
      intro pending hpending
      rcases List.mem_append.1 hpending with hold | hnew
      · split_ifs at hold
        · exact page.stamped pending (List.mem_filter.1 hold).1
        · exact page.stamped pending hold
      · rw [List.mem_singleton] at hnew
        rw [hnew]
        rfl }

/-- The tests of the `on_event` of `subscribe_page_store`: the autocreated nodes are skipped, and
the path falls under a subscribed one. -/
def captures (page : PageRow V) (event : BagEvent V) : Bool :=
  decide (event.reason ≠ some "autocreate") && underAny page.subscribed_paths event.path

/-- The change that the capture of the page's own store builds. -/
def serverChange [PyValue V] (event : BagEvent V) (written : Instant) : Change V :=
  event.change (some "serverChange") written

/-- The `on_event` of `subscribe_page_store`: the capture of the page's own store, with the instant
of the write and that of the append. -/
def onEvent [PyValue V] (page : PageRow V) (event : BagEvent V) (written arrived : Instant) :
    PageRow V :=
  if page.captures event then
    page.appendPageDatachange (serverChange event written) false arrived
  else page

/-- What `reset_datachanges` does on a row. -/
def resetDatachanges (page : PageRow V) : PageRow V :=
  { page with
    datachanges := []
    datachanges_idx := 0
    stamped := fun _ h => absurd h List.not_mem_nil }

/-- What `drop_datachanges` does on a row, its `prune`. -/
def prune (page : PageRow V) (path : String) : PageRow V :=
  { page with
    datachanges := page.datachanges.filter fun pending => !under pending.key.path path
    stamped := fun pending h => page.stamped pending (List.mem_filter.1 h).1 }

/-- `act_on_row`: what each verb does on the row when the road is local, and the exception of a
change that does not decode. -/
def actOnRow (page : PageRow V) (now : Instant) : Op V → PageRow V × Except PyError Unit
  | .resetDatachanges => (page.resetDatachanges, .ok ())
  | .dropDatachanges path => (page.prune path, .ok ())
  | .setDatachange none _ => (page, .error .decodeError)
  | .setDatachange (some change) replace =>
    (page.appendPageDatachange change replace now, .ok ())

/-- The events of a Bag reaching the row's view, if it observes that Bag; `clock` is what the
capture of each event reads. -/
def hear [PyValue V] (page : PageRow V) (bag : BagId) (events : List (BagEvent V))
    (clock : ℕ → Instant) : PageRow V :=
  { page with
    user_view := page.user_view.map fun view =>
      if view.bag = bag ∧ view.attached = true then
        events.zipIdx.foldl (fun view event => view.onEvent event.1 (clock event.2)) view
      else view
    unstamped := by
      intro view hview
      rw [Option.mem_map] at hview
      obtain ⟨old, hold, rfl⟩ := hview
      split_ifs
      · -- The capture stamps nothing, event after event.
        have hfold : ∀ (numbered : List (BagEvent V × ℕ)) (v : LegacyBagCollector V),
            v.Unstamped → (numbered.foldl (fun v e => v.onEvent e.1 (clock e.2)) v).Unstamped := by
          intro numbered
          induction numbered with
          | nil => exact fun _ hv => hv
          | cons e numbered ih => exact fun v hv => ih _ (hv.onEvent e.1 (clock e.2))
        exact hfold _ old (page.unstamped old hold)
      · exact page.unstamped old hold }

/-- The row as a collect leaves it: its queue and its view drained. -/
def drained (page : PageRow V) : PageRow V :=
  { page with
    datachanges := []
    datachanges_idx := 0
    user_view := page.user_view.map fun view => view.drain.1
    stamped := fun _ h => absurd h List.not_mem_nil
    unstamped := by
      intro view hview
      rw [Option.mem_map] at hview
      obtain ⟨old, _, rfl⟩ := hview
      exact old.unstamped_drain }

/-- What a collect drains off the row's view. -/
def viewChanges (page : PageRow V) : List (Change V) :=
  match page.user_view with
  | none => []
  | some view => view.drain.2

/-- The row's view moved to another store: a fresh collector with the same prefixes, re-deposited
with what the old one still held. A view that is already there is left alone. -/
def follow (page : PageRow V) (store : BagId) : PageRow V :=
  { page with
    user_view := page.user_view.map fun view =>
      if view.bag = store then view
      else view.changes.foldl (fun fresh change => fresh.append change false)
        (LegacyBagCollector.new store (some page.store_subscriptions))
    unstamped := by
      intro view hview
      rw [Option.mem_map] at hview
      obtain ⟨old, hold, rfl⟩ := hview
      split_ifs
      · exact page.unstamped old hold
      · -- What is re-deposited carried no stamp.
        have hfold : ∀ (changes : List (Change V)) (fresh : LegacyBagCollector V),
            (∀ change ∈ changes, change.arrival_ts = none) → fresh.Unstamped →
              (changes.foldl (fun fresh change => fresh.append change false) fresh).Unstamped := by
          intro changes
          induction changes with
          | nil => exact fun _ _ hf => hf
          | cons change changes ih =>
            intro fresh hchanges hf
            exact ih _ (fun c hc => hchanges c (List.mem_cons_of_mem change hc))
              (LegacyBagCollector.Unstamped.deposit hf (hchanges change List.mem_cons_self))
        exact hfold _ _ (page.unstamped old hold) (LegacyBagCollector.unstamped_new _ _) }

/-- `subscribeTable` on the row: the table joins or leaves its set. -/
def subscribeTable (page : PageRow V) (table : Table) (subscribe : Bool) : PageRow V :=
  { page with
    table_subscriptions :=
      if subscribe then insert table page.table_subscriptions
      else page.table_subscriptions.erase table }

/-- The tables of a row after a subscription: one of them is as the call says. -/
theorem mem_subscribeTable (page : PageRow V) {t u : Table} {subscribe : Bool} :
    u ∈ (page.subscribeTable t subscribe).table_subscriptions ↔
      if u = t then subscribe = true else u ∈ page.table_subscriptions := by
  cases subscribe with
  | true => by_cases hu : u = t <;> simp [subscribeTable, hu]
  | false => by_cases hu : u = t <;> simp [subscribeTable, hu]

/-- The row's queue as a delivery tells it: without the numbers. -/
def queue (page : PageRow V) : List (Change V) := page.datachanges.map Change.unnumbered

/-- The queue after an append without `replace`. -/
theorem queue_appendPageDatachange (page : PageRow V) (change : Change V) (now : Instant) :
    (page.appendPageDatachange change false now).queue =
      page.queue ++ [change.arriving now] := by
  simp [queue, appendPageDatachange, Change.unnumbered, Change.arriving]

/-- On the local road a verb does to the row's queue what the desk would do to its own. -/
theorem queue_actOnRow (page : PageRow V) (now : Instant) (op : Op V) :
    (page.actOnRow now op).1.queue = (op.fileOn page.datachanges now).1.map Change.unnumbered := by
  cases op with
  | resetDatachanges => rfl
  | dropDatachanges path => rfl
  | setDatachange change replace =>
    cases change with
    | none => rfl
    | some change =>
      cases replace <;>
        simp [queue, actOnRow, appendPageDatachange, Op.fileOn, Change.unnumbered]

/-- A capture leaves the prefixes of the row as they are. -/
theorem subscribed_paths_onEvent [PyValue V] (page : PageRow V) (event : BagEvent V)
    (written arrived : Instant) :
    (page.onEvent event written arrived).subscribed_paths = page.subscribed_paths := by
  unfold onEvent
  split_ifs
  · rfl
  · rfl

/-- No verb moves a row to another connection. -/
theorem connection_id_actOnRow (page : PageRow V) (now : Instant) (op : Op V) :
    (page.actOnRow now op).1.connection_id = page.connection_id := by
  cases op with
  | resetDatachanges => rfl
  | dropDatachanges path => rfl
  | setDatachange change replace =>
    cases change with
    | none => rfl
    | some change => rfl

/-- Both roads raise on the same changes. -/
theorem actOnRow_result (page : PageRow V) (now : Instant) (op : Op V) :
    (page.actOnRow now op).2 = (op.fileOn page.datachanges now).2 := by
  cases op with
  | resetDatachanges => rfl
  | dropDatachanges path => rfl
  | setDatachange change replace =>
    cases change with
    | none => rfl
    | some change => rfl

end PageRow

/-- The row of a connection. -/
structure ConnectionRow where
  /-- The user that the connection is labelled with. -/
  user : User
  /-- The pages of the connection. -/
  pages : Finset PageId

/-- The row of a user. -/
structure UserRow where
  /-- The user's own store. -/
  store : BagId

/-- The registry of a worker. -/
structure Registry (V : Type) where
  /-- The pages. -/
  page_register : Dict PageId (PageRow V)
  /-- The connections. -/
  connection_register : Dict ConnectionId ConnectionRow
  /-- The users. -/
  user_register : Dict User UserRow
  /-- The user of a connection has a row. -/
  owner_there : ∀ cid row, connection_register.get cid = some row →
    (user_register.get row.user).isSome = true
  /-- A store is one user's. -/
  own_store : ∀ u v row row', user_register.get u = some row → user_register.get v = some row' →
    row.store = row'.store → u = v

namespace Registry

/-- The registry of a newborn worker. -/
def empty : Registry V where
  page_register := ∅
  connection_register := ∅
  user_register := ∅
  owner_there cid row h := by simp at h
  own_store u v row row' h := by simp at h

/-- `page_user`: the user of the page's connection. -/
def pageUser (registry : Registry V) (page_id : PageId) : Option User :=
  (registry.page_register.get page_id).bind fun page =>
    (registry.connection_register.get page.connection_id).map ConnectionRow.user

/-- The registry with the row of one page replaced. -/
def setPage (registry : Registry V) (page_id : PageId) (page : PageRow V) : Registry V :=
  { registry with page_register := registry.page_register.set page_id page }

/-- The registry with every page row replaced by its image. -/
def mapPages (registry : Registry V) (f : PageId → PageRow V → PageRow V) : Registry V :=
  { registry with page_register := registry.page_register.mapVals f }

/-- A page with an owner has its row. -/
theorem row_there {registry : Registry V} {page_id : PageId} {user : User}
    (h : registry.pageUser page_id = some user) :
    ∃ row, registry.page_register.get page_id = some row := by
  obtain ⟨row, hrow, _⟩ := Option.bind_eq_some_iff.1 h
  exact ⟨row, hrow⟩

/-- The owner of a page has a row. -/
theorem user_there {registry : Registry V} {page_id : PageId} {user : User}
    (h : registry.pageUser page_id = some user) :
    (registry.user_register.get user).isSome = true := by
  unfold pageUser at h
  obtain ⟨page, _, hconnection⟩ := Option.bind_eq_some_iff.1 h
  obtain ⟨row, hrow, rfl⟩ := Option.map_eq_some_iff.1 hconnection
  exact registry.owner_there _ row hrow

/-- The owner of a page depends on the page's connection alone. -/
theorem pageUser_setPage {registry : Registry V} {p q : PageId} {page row : PageRow V}
    (hrow : registry.page_register.get p = some row)
    (hpage : page.connection_id = row.connection_id) :
    (registry.setPage p page).pageUser q = registry.pageUser q := by
  simp only [pageUser, setPage, Dict.get_set]
  by_cases hq : q = p
  · subst hq
    simp [hrow, hpage]
  · simp [hq]

/-- A map over the rows that keeps their connections keeps the owners of the pages. -/
theorem pageUser_mapPages {registry : Registry V} {f : PageId → PageRow V → PageRow V}
    (hf : ∀ p page, (f p page).connection_id = page.connection_id) (q : PageId) :
    (registry.mapPages f).pageUser q = registry.pageUser q := by
  simp only [pageUser, mapPages, Dict.get_mapVals]
  cases registry.page_register.get q with
  | none => rfl
  | some page => simp [hf]

end Registry

/-- The core's own steps on the registry: code outside the repository, which the bridge's drop verbs
and its `change_connection_user` call. -/
structure CoreRegister (V : Type) where
  /-- The cascading drop of a page, with the connection and the user that it empties. -/
  dropPage : Registry V → PageId → Registry V
  /-- `registry.drop_page(page_id, cascade=False)`: the page alone. -/
  dropPageAlone : Registry V → PageId → Registry V
  /-- The drop of a connection with its pages. -/
  dropConnection : Registry V → ConnectionId → Registry V
  /-- The re-labelling of a connection. -/
  changeConnectionUser : Registry V → ConnectionId → User → Registry V

namespace Registry

/-- `drop_page` of the bridge, on the registry: a page that is not there is left alone. -/
def dropPage (core : CoreRegister V) (registry : Registry V) (page_id : PageId) (cascade : Bool) :
    Registry V :=
  match registry.page_register.get page_id with
  | none => registry
  | some _ =>
    if cascade then core.dropPage registry page_id else core.dropPageAlone registry page_id

/-- `change_connection_user` of the bridge: the core's re-labelling, then every view of the moved
pages follows the new owner. -/
def changeConnectionUser (core : CoreRegister V) (registry : Registry V)
    (connection_id : ConnectionId) (user : User) : Registry V :=
  let relabelled := core.changeConnectionUser registry connection_id user
  match relabelled.connection_register.get connection_id, relabelled.user_register.get user with
  | some connection, some user_item =>
    relabelled.mapPages fun page_id page =>
      if page_id ∈ connection.pages then page.follow user_item.store else page
  | _, _ => relabelled

end Registry
end GenropyAsgi
