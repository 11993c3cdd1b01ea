import GenropyAsgi.Register

/-!
# The views of the user store

What moves a page's `user_view`: the subscriptions of `genropy_worker.py` and `genropy_register.py`,
the replay of a woken row, and the two re-attachments, on the new owner's store after a login and on
a carried store after an installation.

A collector numbers what it deposits from one on, so its pending changes are already in the order in
which `drain` sorts them (`Numbered.drain_eq`), and a collector that is fed with the
changes of another one holds them in the same order.
-/

namespace GenropyAsgi

open Library

variable {V : Type}

/-! ## The collectors -/

namespace LegacyBagCollector

/-- The events of a Bag reaching a collector, if it is attached to that Bag. -/
def hear [PyValue V] (collector : LegacyBagCollector V) (bag : BagId) (events : List (BagEvent V))
    (clock : ℕ → Instant) : LegacyBagCollector V :=
  if collector.bag = bag ∧ collector.attached = true then
    events.zipIdx.foldl (fun view event => view.onEvent event.1 (clock event.2)) collector
  else collector

/-- A fresh collector on a store, re-deposited with what this one still holds. -/
def refed (collector : LegacyBagCollector V) (store : BagId) (paths : Finset String) :
    LegacyBagCollector V :=
  collector.changes.foldl (fun fresh change => fresh.append change false)
    (new store (some paths))

/-- The pending changes stand in the order of their numbers, and the next number is free. -/
structure Numbered (collector : LegacyBagCollector V) : Prop where
  /-- The numbers grow along the list. -/
  increasing : collector.changes.Pairwise fun c d => c.change_idx < d.change_idx
  /-- None is past the last one given. -/
  bounded : ∀ change ∈ collector.changes, change.change_idx ≤ collector.change_idx

/-- A newborn collector is numbered. -/
theorem numbered_new (bag : BagId) (paths : Option (Finset String)) :
    (new bag paths : LegacyBagCollector V).Numbered where
  increasing := List.Pairwise.nil
  bounded := fun _ h => absurd h List.not_mem_nil

/-- A deposit takes the next number. -/
theorem Numbered.deposit {collector : LegacyBagCollector V} (h : collector.Numbered)
    (change : Change V) : (collector.deposit change).Numbered where
  increasing := by
    have hlast : ∀ c ∈ collector.changes, c.change_idx < collector.change_idx + 1 := by
      intro c hc
      exact Nat.lt_succ_of_le (h.bounded c hc)
    show (collector.changes ++ [_]).Pairwise _
    rw [List.pairwise_append]
    refine ⟨h.increasing, List.pairwise_singleton _ _, ?_⟩
    intro c hc d hd
    rw [List.mem_singleton] at hd
    rw [hd]
    exact hlast c hc
  bounded := by
    intro c hc
    show c.change_idx ≤ collector.change_idx + 1
    rcases List.mem_append.1 hc with hold | hnew
    · have hle := h.bounded c hold
      omega
    · rw [List.mem_singleton] at hnew
      rw [hnew]

/-- A capture takes the next number or none. -/
theorem Numbered.onEvent [PyValue V] {collector : LegacyBagCollector V} (h : collector.Numbered)
    (event : BagEvent V) (now : Instant) : (collector.onEvent event now).Numbered := by
  unfold LegacyBagCollector.onEvent
  split_ifs
  · exact h.deposit _
  · exact h

/-- What each deposit of a list preserves holds of a collector re-deposited with the list. -/
theorem foldl_append_invariant {P : LegacyBagCollector V → Prop} :
    ∀ (changes : List (Change V)) {fresh : LegacyBagCollector V},
      (∀ c, P c → ∀ change ∈ changes, P (c.append change false)) → P fresh →
        P (changes.foldl (fun fresh change => fresh.append change false) fresh)
  | [], _, _, h => h
  | change :: changes, fresh, hstep, h => by
    have hfirst := hstep fresh h change List.mem_cons_self
    exact foldl_append_invariant changes
      (fun c hc d hd => hstep c hc d (List.mem_cons_of_mem change hd)) hfirst

/-- What each capture preserves holds of a collector that has heard. -/
theorem hear_invariant [PyValue V] {P : LegacyBagCollector V → Prop}
    (hstep : ∀ c event now, P c → P (LegacyBagCollector.onEvent c event now))
    {collector : LegacyBagCollector V} (h : P collector) (bag : BagId) (events : List (BagEvent V))
    (clock : ℕ → Instant) : P (collector.hear bag events clock) := by
  have hfold : ∀ (numbered : List (BagEvent V × ℕ)) (c : LegacyBagCollector V), P c →
      P (numbered.foldl (fun view event => view.onEvent event.1 (clock event.2)) c) := by
    intro numbered
    induction numbered with
    | nil => exact fun _ hc => hc
    | cons event numbered ih => exact fun c hc => ih _ (hstep c event.1 (clock event.2) hc)
  unfold hear
  split_ifs
  · exact hfold _ collector h
  · exact h

/-- A collector that is not attached hears nothing. -/
theorem hear_of_detached [PyValue V] {collector : LegacyBagCollector V}
    (h : collector.attached = false) (bag : BagId) (events : List (BagEvent V))
    (clock : ℕ → Instant) : collector.hear bag events clock = collector := by
  have hnot : ¬ (collector.bag = bag ∧ collector.attached = true) := by
    rintro ⟨_, hattached⟩
    rw [h] at hattached
    cases hattached
  exact if_neg hnot

/-- A capture moves a collector's pending changes and their numbers alone. -/
theorem onEvent_frame [PyValue V] (collector : LegacyBagCollector V) (event : BagEvent V)
    (now : Instant) :
    (collector.onEvent event now).bag = collector.bag ∧
      (collector.onEvent event now).paths = collector.paths ∧
      (collector.onEvent event now).attached = collector.attached := by
  unfold onEvent
  split_ifs
  · exact ⟨rfl, rfl, rfl⟩
  · exact ⟨rfl, rfl, rfl⟩

/-- So does hearing. -/
theorem hear_frame [PyValue V] (collector : LegacyBagCollector V) (bag : BagId)
    (events : List (BagEvent V)) (clock : ℕ → Instant) :
    (collector.hear bag events clock).bag = collector.bag ∧
      (collector.hear bag events clock).paths = collector.paths ∧
      (collector.hear bag events clock).attached = collector.attached := by
  refine hear_invariant (P := fun c => c.bag = collector.bag ∧ c.paths = collector.paths ∧
    c.attached = collector.attached) ?_ ⟨rfl, rfl, rfl⟩ bag events clock
  rintro c event now ⟨hbag, hpaths, hattached⟩
  obtain ⟨h₁, h₂, h₃⟩ := c.onEvent_frame event now
  exact ⟨h₁.trans hbag, h₂.trans hpaths, h₃.trans hattached⟩

/-- Hearing keeps the numbering. -/
theorem Numbered.hear [PyValue V] {collector : LegacyBagCollector V} (h : collector.Numbered)
    (bag : BagId) (events : List (BagEvent V)) (clock : ℕ → Instant) :
    (collector.hear bag events clock).Numbered :=
  hear_invariant (fun _ event now hc => hc.onEvent event now) h bag events clock

/-- A collector that is fed again is numbered anew. -/
theorem numbered_refed (collector : LegacyBagCollector V) (store : BagId)
    (paths : Finset String) : (collector.refed store paths).Numbered :=
  foldl_append_invariant collector.changes (fun _ hc change _ => hc.deposit change)
    (numbered_new store (some paths))

/-- A collector that is fed again with unstamped changes holds unstamped changes. -/
theorem Unstamped.refed {collector : LegacyBagCollector V} (h : collector.Unstamped)
    (store : BagId) (paths : Finset String) : (collector.refed store paths).Unstamped :=
  foldl_append_invariant collector.changes
    (fun _ hc change hchange => Unstamped.deposit hc (h change hchange))
    (unstamped_new store (some paths))

/-- The pending changes after a list of re-deposits: the list follows what was there. -/
theorem map_unnumbered_foldl_append :
    ∀ (changes : List (Change V)) (fresh : LegacyBagCollector V),
      (changes.foldl (fun fresh change => fresh.append change false) fresh).changes.map
          Change.unnumbered =
        fresh.changes.map Change.unnumbered ++ changes.map Change.unnumbered
  | [], fresh => by simp
  | change :: changes, fresh => by
    have hfirst : (fresh.append change false).changes.map Change.unnumbered =
        fresh.changes.map Change.unnumbered ++ [change.unnumbered] := by
      simp [append, deposit, Change.unnumbered]
    rw [List.foldl_cons, map_unnumbered_foldl_append changes, hfirst, List.map_cons,
      List.append_assoc, List.singleton_append]

/-- A collector that is fed again holds what the old one held, in its order. -/
theorem changes_refed (collector : LegacyBagCollector V) (store : BagId)
    (paths : Finset String) :
    (collector.refed store paths).changes.map Change.unnumbered =
      collector.changes.map Change.unnumbered := by
  rw [refed, map_unnumbered_foldl_append]
  rfl

/-- Where a collector that is fed again is attached, and what it captures. -/
theorem refed_frame (collector : LegacyBagCollector V) (store : BagId) (paths : Finset String) :
    (collector.refed store paths).bag = store ∧
      (collector.refed store paths).paths = some paths ∧
      (collector.refed store paths).attached = true :=
  foldl_append_invariant
    (P := fun c => c.bag = store ∧ c.paths = some paths ∧ c.attached = true) collector.changes
    (fun _ hc _ _ => hc) ⟨rfl, rfl, rfl⟩

/-- `drain` answers the pending changes as they stand. -/
theorem Numbered.drain_eq {collector : LegacyBagCollector V} (h : collector.Numbered) :
    collector.drain.2 = collector.changes := by
  have hsorted : collector.changes.Pairwise fun c d =>
      decide (c.change_idx ≤ d.change_idx) = true :=
    h.increasing.imp fun hlt => by simpa using Nat.le_of_lt hlt
  exact List.mergeSort_of_pairwise hsorted

/-- A drained collector is numbered. -/
theorem numbered_drain (collector : LegacyBagCollector V) : collector.drain.1.Numbered where
  increasing := List.Pairwise.nil
  bounded := fun _ h => absurd h List.not_mem_nil

end LegacyBagCollector

/-! ## The rows -/

/-- The exceptions of the store subscriptions, with the text and the value that each message
quotes. -/
inductive StoreError where
  /-- `KeyError`. -/
  | keyError (text argument : String)
  /-- `TypeError`: a `None` subscripted. -/
  | typeError (text : String)
  /-- `ValueError`. -/
  | valueError (text argument : String)
deriving DecidableEq

namespace PageRow

/-- What `subscribe_store_path` does on a row, given the store of its owner: the first prefix opens
the view, the next ones widen it. -/
def subscribeStore (page : PageRow V) (top : String) (store : BagId) : PageRow V :=
  { page with
    store_subscriptions := insert top page.store_subscriptions
    user_view :=
      match page.user_view with
      | none => some (LegacyBagCollector.new store (some {top}))
      | some view => some (view.subscribePath top)
    unstamped := by
      intro view hview
      cases hold : page.user_view with
      | none =>
        rw [hold] at hview
        cases hview
        exact LegacyBagCollector.unstamped_new store (some {top})
      | some old =>
        rw [hold] at hview
        cases hview
        exact page.unstamped old hold }

/-- What the closing of a store subscription does on a row that has a view. -/
def unsubscribeStore (page : PageRow V) (top : String) : PageRow V :=
  { page with
    store_subscriptions := page.store_subscriptions.erase top
    user_view := page.user_view.map fun view => view.unsubscribePath top
    unstamped := by
      intro view hview
      rw [Option.mem_map] at hview
      obtain ⟨old, hold, rfl⟩ := hview
      exact page.unstamped old hold }

/-- The re-attachment of a row's view on a store: a fresh collector with the same prefixes,
re-deposited with what the old one still held. -/
def reattach (page : PageRow V) (store : BagId) : PageRow V :=
  { page with
    user_view := page.user_view.map fun view => view.refed store page.store_subscriptions
    unstamped := by
      intro view hview
      rw [Option.mem_map] at hview
      obtain ⟨old, hold, rfl⟩ := hview
      exact (page.unstamped old hold).refed store page.store_subscriptions }

/-- A view that is on another store than the new owner's is re-attached. -/
theorem follow_user_view (page : PageRow V) (store : BagId) :
    (page.follow store).user_view = page.user_view.map fun view =>
      if view.bag = store then view else view.refed store page.store_subscriptions := rfl

/-- The view hears as a collector does. -/
theorem hear_user_view [PyValue V] (page : PageRow V) (bag : BagId) (events : List (BagEvent V))
    (clock : ℕ → Instant) :
    (page.hear bag events clock).user_view =
      page.user_view.map fun view => view.hear bag events clock := rfl

/-- The old views that a re-attachment leaves detached: the row's, if the move concerns it. -/
def leftBehind (page : PageRow V) (moves : LegacyBagCollector V → Bool) :
    List (LegacyBagCollector V) :=
  match page.user_view with
  | none => []
  | some view => if moves view then [view.detach] else []

end PageRow

/-! ## The registry -/

/-- What `storename` names in a store subscription. -/
inductive StoreName where
  /-- `"page"`. -/
  | page
  /-- `"user"`. -/
  | user
  /-- Any other text. -/
  | other (name : String)
deriving DecidableEq

/-- The core's own part of `_install_carried_store`: code outside the repository. -/
structure CoreStores (V : Type) where
  /-- The swap of the Bag under the user's row. -/
  installCarriedStore : Registry V → User → Option BagId → Bool → Registry V

namespace Registry

/-- The store of a page's owner. -/
def storeOf (registry : Registry V) (page_id : PageId) : Option BagId :=
  ((registry.pageUser page_id).bind registry.user_register.get).map UserRow.store

/-- The pages of a user's connections; those connections are the ones labelled with him. -/
def pagesOf (registry : Registry V) (user : User) : Finset PageId :=
  registry.connection_register.keys.biUnion fun connection_id =>
    match registry.connection_register.get connection_id with
    | some connection => if connection.user = user then connection.pages else ∅
    | none => ∅

/-- `subscribe_store_path`. The prefix joins the row before the owner's store is looked for. -/
def subscribeStorePath (registry : Registry V) (page_id : PageId) (top : String) :
    Registry V × Except StoreError Unit :=
  match registry.page_register.get page_id with
  | none => (registry, .error (.keyError "subscribe_store_path: unknown page" page_id))
  | some page =>
    match page.user_view, registry.storeOf page_id with
    -- The owner has no row: the subscript raises, with the prefix already on the page's row.
    | none, none =>
      (registry.setPage page_id
        { page with store_subscriptions := insert top page.store_subscriptions },
        .error (.typeError "'NoneType' object is not subscriptable"))
    | none, some store => (registry.setPage page_id (page.subscribeStore top store), .ok ())
    | some view, _ => (registry.setPage page_id (page.subscribeStore top view.bag), .ok ())

/-- `setStoreSubscription`. -/
def setStoreSubscription (registry : Registry V) (page_id : PageId) (storename : StoreName)
    (top : String) (active : Bool) : Registry V × Except StoreError Unit :=
  match registry.page_register.get page_id with
  | none => (registry, .error (.keyError "setStoreSubscription: unknown page" page_id))
  | some page =>
    match storename with
    | .page =>
      (registry.setPage page_id
        { page with
          subscribed_paths :=
            if active then insert top page.subscribed_paths
            else page.subscribed_paths.erase top }, .ok ())
    | .user =>
      if active then registry.subscribeStorePath page_id top
      -- Without a view there is nothing to close.
      else if page.user_view.isSome then
        (registry.setPage page_id (page.unsubscribeStore top), .ok ())
      else (registry, .ok ())
    | .other name =>
      (registry, .error (.valueError "setStoreSubscription: no store named" name))

/-- The loop of `replay_fields` over the prefixes of the user store. -/
def subscribeStorePaths (registry : Registry V) (page_id : PageId) :
    List String → Registry V × Except StoreError Unit
  | [] => (registry, .ok ())
  | top :: tops =>
    match registry.subscribeStorePath page_id top with
    | (subscribed, .ok _) => subscribed.subscribeStorePaths page_id tops
    -- The exception leaves the loop; what was subscribed before it stays.
    | (subscribed, .error error) => (subscribed, .error error)

/-- `replay_fields`, on the row of a page, with the three sets in the order in which they are
visited. -/
def replayFields (registry : Registry V) (page_id : PageId)
    (table_subscriptions : List Table) (subscribed_paths store_subscriptions : List String) :
    Registry V × Except StoreError Unit :=
  match registry.page_register.get page_id with
  | none => (registry, .ok ())
  | some page =>
    (registry.setPage page_id
      { page with
        table_subscriptions := page.table_subscriptions ∪ table_subscriptions.toFinset
        subscribed_paths :=
          page.subscribed_paths ∪ subscribed_paths.toFinset }).subscribeStorePaths
        page_id store_subscriptions

/-- `_install_carried_store`: the core's swap, then every view of the user's pages follows the
carried Bag, if one arrived for a user who was not resident. -/
def installCarriedStore (core : CoreStores V) (registry : Registry V) (user : User)
    (store : Option BagId) (resident : Bool) : Registry V :=
  let swapped := core.installCarriedStore registry user store resident
  match store, resident with
  | some store, false =>
    swapped.mapPages fun page_id page =>
      if page_id ∈ swapped.pagesOf user then page.reattach store else page
  | _, _ => swapped

/-- The views of a page that `change_connection_user` leaves detached. -/
def leftByLogin (core : CoreRegister V) (registry : Registry V) (connection_id : ConnectionId)
    (user : User) (page_id : PageId) : List (LegacyBagCollector V) :=
  let relabelled := core.changeConnectionUser registry connection_id user
  match relabelled.connection_register.get connection_id, relabelled.user_register.get user,
      relabelled.page_register.get page_id with
  | some connection, some user_item, some page =>
    if page_id ∈ connection.pages then
      page.leftBehind fun view => decide (view.bag ≠ user_item.store)
    else []
  | _, _, _ => []

/-- The views of a page that `_install_carried_store` leaves detached. -/
def leftByInstall (core : CoreStores V) (registry : Registry V) (user : User)
    (store : Option BagId) (resident : Bool) (page_id : PageId) : List (LegacyBagCollector V) :=
  let swapped := core.installCarriedStore registry user store resident
  match store, resident, swapped.page_register.get page_id with
  | some _, false, some page =>
    if page_id ∈ swapped.pagesOf user then page.leftBehind fun _ => true else []
  | _, _, _ => []

end Registry

/-- What the bridge relies on in the core's re-labelling: a connection that is there gets its new
label and keeps its pages; no page row is touched; and the users of the other connections keep
their Bags. -/
structure CoreRegister.Relabels (core : CoreRegister V) : Prop where
  /-- An unknown connection raises, and nothing moves. -/
  unknown : ∀ registry cid user, registry.connection_register.get cid = none →
    core.changeConnectionUser registry cid user = registry
  /-- The page rows stay as they are. -/
  pages : ∀ registry cid user,
    (core.changeConnectionUser registry cid user).page_register = registry.page_register
  /-- The connection is labelled with the user. -/
  label : ∀ registry cid user row, registry.connection_register.get cid = some row →
    (core.changeConnectionUser registry cid user).connection_register.get cid =
      some { row with user := user }
  /-- The other connections stay as they are. -/
  others : ∀ registry cid user cid', cid' ≠ cid →
    (core.changeConnectionUser registry cid user).connection_register.get cid' =
      registry.connection_register.get cid'
  /-- Their users keep their Bags. -/
  stores : ∀ registry cid user cid' row, cid' ≠ cid →
    registry.connection_register.get cid' = some row →
      ((core.changeConnectionUser registry cid user).user_register.get row.user).map
          UserRow.store =
        (registry.user_register.get row.user).map UserRow.store

/-- What the bridge relies on in the core's swap: a Bag that arrives for a user who is not resident
is put under his row, and nothing else is touched. -/
structure CoreStores.Swaps (core : CoreStores V) : Prop where
  /-- The page rows stay as they are. -/
  pages : ∀ registry user store resident,
    (core.installCarriedStore registry user store resident).page_register =
      registry.page_register
  /-- So do the connections. -/
  connections : ∀ registry user store resident,
    (core.installCarriedStore registry user store resident).connection_register =
      registry.connection_register
  /-- Without a Bag, or for a resident user, nothing moves. -/
  kept : ∀ registry user store resident, store = none ∨ resident = true →
    core.installCarriedStore registry user store resident = registry
  /-- A Bag that is nobody else's goes under the row of the user. -/
  installed : ∀ registry user row store, registry.user_register.get user = some row →
    (∀ v row', registry.user_register.get v = some row' → row'.store = store → v = user) →
      ∀ u, ((core.installCarriedStore registry user (some store) false).user_register.get u).map
          UserRow.store =
        if u = user then some store else (registry.user_register.get u).map UserRow.store

namespace Registry

/-- A page belongs to its owner's pages, if it belongs to those of its connection. -/
theorem mem_pagesOf {registry : Registry V} {p : PageId} {page : PageRow V}
    {connection : ConnectionRow}
    (hconnection : registry.connection_register.get page.connection_id = some connection)
    (hp : p ∈ connection.pages) : p ∈ registry.pagesOf connection.user := by
  unfold pagesOf
  rw [Finset.mem_biUnion]
  refine ⟨page.connection_id, ?_, ?_⟩
  · rw [Dict.mem_keys, hconnection]
    rfl
  · rw [hconnection]
    simpa using hp

/-- A page of a user's is on a connection labelled with him. -/
theorem connection_of_mem_pagesOf {registry : Registry V} {p : PageId} {user : User}
    (h : p ∈ registry.pagesOf user) :
    ∃ cid connection, registry.connection_register.get cid = some connection ∧
      connection.user = user ∧ p ∈ connection.pages := by
  unfold pagesOf at h
  obtain ⟨cid, _, hp⟩ := Finset.mem_biUnion.1 h
  -- A connection of somebody else adds no page.
  cases hconnection : registry.connection_register.get cid with
  | none =>
    rw [hconnection] at hp
    cases hp
  | some connection =>
    rw [hconnection] at hp
    dsimp only at hp
    split_ifs at hp with huser
    · exact ⟨cid, connection, hconnection, huser, hp⟩
    · cases hp

/-! ## What the subscriptions keep -/

/-- Two registries that differ in page rows alone, each page staying on its connection. -/
structure SameHomes (registry registry' : Registry V) : Prop where
  /-- The same connections. -/
  connections : registry'.connection_register = registry.connection_register
  /-- The same users. -/
  users : registry'.user_register = registry.user_register
  /-- The same pages, on the same connections. -/
  homes : ∀ q, (registry'.page_register.get q).map PageRow.connection_id =
    (registry.page_register.get q).map PageRow.connection_id

/-- Nothing moved. -/
theorem SameHomes.refl (registry : Registry V) : SameHomes registry registry :=
  ⟨rfl, rfl, fun _ => rfl⟩

/-- One after the other. -/
theorem SameHomes.trans {r₁ r₂ r₃ : Registry V} (h : SameHomes r₁ r₂) (h' : SameHomes r₂ r₃) :
    SameHomes r₁ r₃ where
  connections := h'.connections.trans h.connections
  users := h'.users.trans h.users
  homes := fun q => (h'.homes q).trans (h.homes q)

/-- A page keeps the store of its owner. -/
theorem SameHomes.storeOf_eq {registry registry' : Registry V} (h : SameHomes registry registry')
    (q : PageId) : registry'.storeOf q = registry.storeOf q := by
  have hhome := h.homes q
  have huser : registry'.pageUser q = registry.pageUser q := by
    unfold pageUser
    rw [h.connections]
    generalize registry'.page_register.get q = row' at hhome
    generalize registry.page_register.get q = row at hhome
    cases row' with
    | none =>
      cases row with
      | none => rfl
      | some page => cases hhome
    | some page' =>
      cases row with
      | none => cases hhome
      | some page =>
        rw [Option.map_some, Option.map_some, Option.some_inj] at hhome
        rw [Option.bind_some, Option.bind_some, hhome]
  rw [storeOf, storeOf, huser, h.users]

/-- The replacement of a row by one on the same connection. -/
theorem sameHomes_setPage {registry : Registry V} {p : PageId} {page row : PageRow V}
    (hrow : registry.page_register.get p = some row)
    (hpage : page.connection_id = row.connection_id) :
    SameHomes registry (registry.setPage p page) where
  connections := rfl
  users := rfl
  homes := by
    intro q
    rw [setPage, Dict.get_set]
    by_cases hq : q = p
    · rw [if_pos hq, hq, hrow, Option.map_some, Option.map_some, hpage]
    · rw [if_neg hq]

/-- A page that is there, with a row as a predicate says. -/
def RowHolds (p : PageId) (P : PageRow V → Prop) (registry : Registry V) : Prop :=
  ∃ page, registry.page_register.get p = some page ∧ P page

/-- A predicate on rows that the subscriptions of a page keep, given the store of its owner. -/
structure KeptBySubscriptions (store : Option BagId) (P : PageRow V → Prop) : Prop where
  /-- It does not depend on the tables and on the prefixes of the page's own store. -/
  sets : ∀ page tables tops, P page →
    P { page with table_subscriptions := tables, subscribed_paths := tops }
  /-- It is kept by the opening of a prefix; a first view is opened on the store of the owner. -/
  opened : ∀ page top bag, P page → (page.user_view = none → store = some bag) →
    P (page.subscribeStore top bag)
  /-- It is kept by the opening of a prefix that finds no store. -/
  missed : ∀ page top, P page → page.user_view = none → store = none →
    P { page with store_subscriptions := insert top page.store_subscriptions }
  /-- It is kept by the closing of a prefix. -/
  closed : ∀ page top, P page → P (page.unsubscribeStore top)

/-- Another row does not matter. -/
theorem RowHolds.setPage_of_ne {p q : PageId} {P : PageRow V → Prop} {registry : Registry V}
    (h : RowHolds p P registry) (hq : p ≠ q) {page : PageRow V} :
    RowHolds p P (registry.setPage q page) := by
  obtain ⟨old, hold, hP⟩ := h
  refine ⟨old, ?_, hP⟩
  rw [Registry.setPage, Dict.get_set, if_neg hq, hold]

/-- A row after the replacement of one that held what it was to hold before. -/
theorem RowHolds.replace {p q : PageId} {P Q : PageRow V → Prop} {registry : Registry V}
    (h : RowHolds p P registry) (hlater : RowHolds p Q registry) {page row : PageRow V}
    (hrow : registry.page_register.get q = some row) (hpage : P row → Q page) :
    RowHolds p Q (registry.setPage q page) := by
  by_cases hq : p = q
  · subst hq
    obtain ⟨old, hold, hP⟩ := h
    rw [hold] at hrow
    cases hrow
    refine ⟨page, ?_, hpage hP⟩
    rw [Registry.setPage, Dict.get_set, if_pos rfl]
  · exact hlater.setPage_of_ne hq

/-- A row after the replacement of one. -/
theorem RowHolds.setPage {p q : PageId} {P : PageRow V → Prop} {registry : Registry V}
    (h : RowHolds p P registry) {page row : PageRow V}
    (hrow : registry.page_register.get q = some row) (hpage : P row → P page) :
    RowHolds p P (registry.setPage q page) := h.replace h hrow hpage

/-- A row that holds what it held, and more. -/
theorem RowHolds.imp {p : PageId} {P Q : PageRow V → Prop} {registry : Registry V}
    (h : RowHolds p P registry) (hPQ : ∀ page, P page → Q page) : RowHolds p Q registry := by
  obtain ⟨page, hrow, hpage⟩ := h
  exact ⟨page, hrow, hPQ page hpage⟩

/-- A map over the rows, at one page. -/
theorem get_mapPages {registry : Registry V} {p : PageId} {page : PageRow V}
    (hrow : registry.page_register.get p = some page) (f : PageId → PageRow V → PageRow V) :
    (registry.mapPages f).page_register.get p = some (f p page) := by
  rw [Registry.mapPages, Dict.get_mapVals, hrow, Option.map_some]

/-- The rows after a map over them. -/
theorem RowHolds.mapPages {p : PageId} {P Q : PageRow V → Prop} {registry : Registry V}
    (h : RowHolds p P registry) {f : PageId → PageRow V → PageRow V}
    (hf : ∀ page, P page → Q (f p page)) : RowHolds p Q (registry.mapPages f) := by
  obtain ⟨page, hrow, hpage⟩ := h
  exact ⟨f p page, get_mapPages hrow f, hf page hpage⟩

/-- A row after a login: the core touches no page row, and the bridge re-attaches views. -/
theorem RowHolds.changeConnectionUser {p : PageId} {P : PageRow V → Prop} {registry : Registry V}
    {core : CoreRegister V} (laws : core.Relabels) (h : RowHolds p P registry)
    (hfollow : ∀ page store, P page → P (page.follow store)) (connection_id : ConnectionId)
    (user : User) : RowHolds p P (registry.changeConnectionUser core connection_id user) := by
  have hheld : RowHolds p P (core.changeConnectionUser registry connection_id user) := by
    obtain ⟨page, hrow, hpage⟩ := h
    refine ⟨page, ?_, hpage⟩
    rw [laws.pages]
    exact hrow
  unfold Registry.changeConnectionUser
  dsimp only
  split
  · refine hheld.mapPages fun page hpage => ?_
    split_ifs
    · exact hfollow page _ hpage
    · exact hpage
  · exact hheld

/-- A row after a carried store. -/
theorem RowHolds.installCarriedStore {p : PageId} {P : PageRow V → Prop} {registry : Registry V}
    {core : CoreStores V} (laws : core.Swaps) (h : RowHolds p P registry)
    (hreattach : ∀ page store, P page → P (page.reattach store)) (user : User)
    (store : Option BagId) (resident : Bool) :
    RowHolds p P (registry.installCarriedStore core user store resident) := by
  have hheld : RowHolds p P (core.installCarriedStore registry user store resident) := by
    obtain ⟨page, hrow, hpage⟩ := h
    refine ⟨page, ?_, hpage⟩
    rw [laws.pages]
    exact hrow
  unfold Registry.installCarriedStore
  dsimp only
  split
  · refine hheld.mapPages fun page hpage => ?_
    split_ifs
    · exact hreattach page _ hpage
    · exact hpage
  · exact hheld

section

variable {registry : Registry V} {p q : PageId} {P : PageRow V → Prop}

/-- What an opening does: nothing to a page that is not there; otherwise it opens or widens the view
of the row, or misses the store. -/
theorem subscribeStorePath_cases (registry : Registry V) (q : PageId) (top : String) :
    (registry.page_register.get q = none ∧ (registry.subscribeStorePath q top).1 = registry) ∨
      ∃ page, registry.page_register.get q = some page ∧
        ((∃ bag, (page.user_view = none → registry.storeOf q = some bag) ∧
            (registry.subscribeStorePath q top).1 =
              registry.setPage q (page.subscribeStore top bag)) ∨
          (page.user_view = none ∧ registry.storeOf q = none ∧
            (registry.subscribeStorePath q top).1 = registry.setPage q
              { page with store_subscriptions := insert top page.store_subscriptions })) := by
  unfold subscribeStorePath
  split
  · next hrow => exact Or.inl ⟨hrow, rfl⟩
  · next page hrow =>
    refine Or.inr ⟨page, hrow, ?_⟩
    split
    · next hview hstore => exact Or.inr ⟨hview, hstore, rfl⟩
    · next store _ hstore => exact Or.inl ⟨store, fun _ => hstore, rfl⟩
    · next view hview =>
      refine Or.inl ⟨view.bag, fun hnone => ?_, rfl⟩
      rw [hview] at hnone
      cases hnone

/-- An opening moves page rows alone. -/
theorem sameHomes_subscribeStorePath (registry : Registry V) (q : PageId) (top : String) :
    SameHomes registry (registry.subscribeStorePath q top).1 := by
  rcases registry.subscribeStorePath_cases q top with
    ⟨_, heq⟩ | ⟨page, hrow, ⟨bag, _, heq⟩ | ⟨_, _, heq⟩⟩
  · rw [heq]
    exact SameHomes.refl registry
  · rw [heq]
    exact sameHomes_setPage hrow rfl
  · rw [heq]
    exact sameHomes_setPage hrow rfl

/-- An opening keeps a row as the predicate says. -/
theorem RowHolds.subscribeStorePath (h : RowHolds p P registry)
    (hP : KeptBySubscriptions (registry.storeOf p) P) (q : PageId) (top : String) :
    RowHolds p P (registry.subscribeStorePath q top).1 := by
  rcases registry.subscribeStorePath_cases q top with
    ⟨_, heq⟩ | ⟨page, hrow, ⟨bag, hbag, heq⟩ | ⟨hview, hstore, heq⟩⟩
  · rw [heq]
    exact h
  · rw [heq]
    by_cases hq : p = q
    · subst hq
      exact h.setPage hrow fun h => hP.opened page top bag h hbag
    · exact h.setPage_of_ne hq
  · rw [heq]
    by_cases hq : p = q
    · subst hq
      exact h.setPage hrow fun h => hP.missed page top h hview hstore
    · exact h.setPage_of_ne hq

/-- The loop of the openings moves page rows alone. -/
theorem sameHomes_subscribeStorePaths (q : PageId) :
    ∀ (tops : List String) (registry : Registry V),
      SameHomes registry (registry.subscribeStorePaths q tops).1
  | [], registry => SameHomes.refl registry
  | top :: tops, registry => by
    have hfirst := registry.sameHomes_subscribeStorePath q top
    unfold subscribeStorePaths
    generalize registry.subscribeStorePath q top = subscribed at hfirst
    obtain ⟨subscribed, result⟩ := subscribed
    cases result with
    | error error => exact hfirst
    | ok _ => exact hfirst.trans (sameHomes_subscribeStorePaths q tops subscribed)

/-- The loop of the openings keeps a row as the predicate says. -/
theorem rowHolds_subscribeStorePaths (q : PageId) :
    ∀ (tops : List String) {registry : Registry V}, RowHolds p P registry →
      KeptBySubscriptions (registry.storeOf p) P →
        RowHolds p P (registry.subscribeStorePaths q tops).1
  | [], _, h, _ => h
  | top :: tops, registry, h, hP => by
    have hhomes := registry.sameHomes_subscribeStorePath q top
    have hfirst := h.subscribeStorePath hP q top
    unfold subscribeStorePaths
    generalize registry.subscribeStorePath q top = subscribed at hhomes hfirst
    obtain ⟨subscribed, result⟩ := subscribed
    cases result with
    | error error => exact hfirst
    | ok _ =>
      have hstore := hhomes.storeOf_eq p
      exact rowHolds_subscribeStorePaths q tops hfirst (hstore ▸ hP)

/-- `replay_fields` moves page rows alone. -/
theorem sameHomes_replayFields (registry : Registry V) (q : PageId)
    (tables : List Table) (tops stores : List String) :
    SameHomes registry (registry.replayFields q tables tops stores).1 := by
  unfold replayFields
  cases hrow : registry.page_register.get q with
  | none => exact SameHomes.refl registry
  | some page =>
    refine SameHomes.trans ?_ (sameHomes_subscribeStorePaths q stores _)
    exact sameHomes_setPage hrow rfl

/-- `replay_fields` keeps a row as the predicate says. -/
theorem RowHolds.replayFields (h : RowHolds p P registry)
    (hP : KeptBySubscriptions (registry.storeOf p) P) (q : PageId) (tables : List Table)
    (tops stores : List String) :
    RowHolds p P (registry.replayFields q tables tops stores).1 := by
  unfold Registry.replayFields
  cases hrow : registry.page_register.get q with
  | none => exact h
  | some page =>
    have hhomes : SameHomes registry (registry.setPage q
        { page with
          table_subscriptions := page.table_subscriptions ∪ tables.toFinset
          subscribed_paths := page.subscribed_paths ∪ tops.toFinset }) :=
      sameHomes_setPage hrow rfl
    refine rowHolds_subscribeStorePaths q stores (h.setPage hrow fun h => hP.sets page _ _ h) ?_
    rw [hhomes.storeOf_eq p]
    exact hP

/-- `setStoreSubscription` moves page rows alone. -/
theorem sameHomes_setStoreSubscription (registry : Registry V) (q : PageId)
    (storename : StoreName) (top : String) (active : Bool) :
    SameHomes registry (registry.setStoreSubscription q storename top active).1 := by
  unfold setStoreSubscription
  cases hrow : registry.page_register.get q with
  | none => exact SameHomes.refl registry
  | some page =>
    cases storename with
    | page => exact sameHomes_setPage hrow rfl
    | other name => exact SameHomes.refl registry
    | user =>
      dsimp only
      split_ifs
      · exact registry.sameHomes_subscribeStorePath q top
      · exact sameHomes_setPage hrow rfl
      · exact SameHomes.refl registry

/-- `setStoreSubscription` keeps a row as the predicate says. -/
theorem RowHolds.setStoreSubscription (h : RowHolds p P registry)
    (hP : KeptBySubscriptions (registry.storeOf p) P) (q : PageId) (storename : StoreName)
    (top : String) (active : Bool) :
    RowHolds p P (registry.setStoreSubscription q storename top active).1 := by
  unfold Registry.setStoreSubscription
  cases hrow : registry.page_register.get q with
  | none => exact h
  | some page =>
    cases storename with
    | page => exact h.setPage hrow fun h => hP.sets page page.table_subscriptions _ h
    | other name => exact h
    | user =>
      dsimp only
      split_ifs
      · exact h.subscribeStorePath hP q top
      · exact h.setPage hrow fun h => hP.closed page top h
      · exact h

end

end Registry
end GenropyAsgi
