import GenropyAsgi.Worker
import GenropyAsgi.Views.Following

/-!
# One Bag under two keys

A row holds its Bag under `store`, the core's name, and under `data`, the name that the legacy site
reads. The second key is an alias that `_ensure_item_data` sets on the row once, with the first
answer that needs it; a carried store replaces the Bag under the first key alone. The two keys are
one Bag, and a write of the site through the one is heard by the views on the other, as long as no
Bag is swapped under an alias (`one_bag_iff_no_swap_under_alias`).
-/

namespace GenropyAsgi.Views

open Library

variable {V B : Type}

/-- The registers that a `ServerStore` names. -/
inductive RegisterName where
  /-- `"page"`. -/
  | page
  /-- `"connection"`. -/
  | connection
  /-- `"user"`. -/
  | user
deriving DecidableEq

/-- A row, by its register and its id. -/
abbrev RowId := RegisterName × String

/-- The state of the machine: the worker, with the Bags under the two keys of the rows. -/
structure Stores (V B : Type) where
  /-- The registers, which hold the `store` of the users, and the Bags. -/
  worker : Worker V B
  /-- The `store` of the pages and of the connections, which nothing replaces. -/
  own_stores : RowId → BagId
  /-- The `data` of the rows that carry that key. -/
  data : Dict RowId BagId

namespace Stores

/-- The Bag under `store` of a row, if the row is there. -/
def store (s : Stores V B) (row : RowId) : Option BagId :=
  match row.1 with
  | .page => (s.worker.registry.page_register.get row.2).map fun _ => s.own_stores row
  | .connection => (s.worker.registry.connection_register.get row.2).map fun _ => s.own_stores row
  | .user => (s.worker.registry.user_register.get row.2).map UserRow.store

/-- `_ensure_item_data`: a row without the key `data` gets its Bag under it. -/
def ensureItemData (s : Stores V B) (row : RowId) : Stores V B :=
  match s.store row, s.data.get row with
  | some bag, none => { s with data := s.data.set row bag }
  | _, _ => s

/-- `ServerStore.data`: the Bag that the site reads and writes, with the state after the answer. -/
def serverData (s : Stores V B) (row : RowId) : Stores V B × Option BagId :=
  match s.store row with
  | none => (s, none)
  | some _ => (s.ensureItemData row, (s.ensureItemData row).data.get row)

/-- The events of a Bag reaching every view on it. -/
def heard [PyValue V] (s : Stores V B) (bag : BagId) (written : B × List (BagEvent V))
    (clock : ℕ → PageId → Instant) : Stores V B :=
  { s with
    worker := { s.worker with
      bags := fun b => if b = bag then written.1 else s.worker.bags b
      registry := s.worker.registry.mapPages fun page_id page =>
        page.hear bag written.2 fun i => clock i page_id } }

/-- What a write of the site does to a Bag: `ServerStore.setItem` or `ServerStore.delItem`. -/
inductive SiteWrite (V : Type) where
  /-- `setItem(path, value, _attributes=..., _reason=...)`. -/
  | setItem (path : String) (value : V) (attributes : Attributes V) (reason : Option String)
  /-- `delItem(path)`. -/
  | delItem (path : String)

/-- The write, on a Bag. -/
def SiteWrite.on [LegacyBag B V] (bag : B) : SiteWrite V → B × List (BagEvent V)
  | .setItem path value attributes reason => LegacyBag.setItem bag path value attributes reason
  | .delItem path => LegacyBag.pop bag path none

/-- A write of the site through the `ServerStore` of a row. -/
def siteWrite [PyValue V] [LegacyBag B V] (s : Stores V B) (row : RowId) (write : SiteWrite V)
    (clock : ℕ → PageId → Instant) : Stores V B :=
  match s.serverData row with
  | (answered, none) => answered
  | (answered, some bag) => answered.heard bag (write.on (answered.worker.bags bag)) clock

/-- The view of a page. -/
def view (s : Stores V B) (p : PageId) : Option (LegacyBagCollector V) :=
  (s.worker.registry.page_register.get p).bind PageRow.user_view

/-- The registry moved by a subscription or by a carried store. -/
def withRegistry (s : Stores V B) (registry : Registry V) : Stores V B :=
  { s with worker := { s.worker with registry := registry } }

/-- The actions. -/
inductive Act (V : Type) where
  /-- An answer that attaches the data of a row: `get_item`, `page`, `connection` or `user` with
  `include_data`, the answer of a lifecycle command, `handle_ping`, a read of the `ServerStore`. -/
  | answer (row : RowId)
  /-- A write of the site. -/
  | siteWrite (row : RowId) (write : SiteWrite V) (clock : ℕ → PageId → Instant)
  /-- `setStoreSubscription`. -/
  | setStoreSubscription (page_id : PageId) (storename : StoreName) (top : String) (active : Bool)
  /-- `_install_carried_store`. -/
  | installCarriedStore (user : User) (store : Option BagId) (resident : Bool)

/-- One action. A Bag is installed only as it can arrive. -/
def step [PyValue V] [LegacyBag B V] (core : CoreStores V) (s : Stores V B) :
    Act V → Option (Stores V B)
  | .answer row => some (s.serverData row).1
  | .siteWrite row write clock => some (s.siteWrite row write clock)
  | .setStoreSubscription page_id storename top active =>
    some (s.withRegistry (s.worker.registry.setStoreSubscription page_id storename top active).1)
  | .installCarriedStore user store resident =>
    if arrives s.worker.registry user store then
      some (s.withRegistry (s.worker.registry.installCarriedStore core user store resident))
    else none

/-- An event that a view has captured: among its pending changes is the one that the event makes. -/
def Captured [PyValue V] (view : LegacyBagCollector V) (event : BagEvent V) : Prop :=
  ∃ change ∈ view.changes, ∃ now, change.unnumbered = event.change event.reason now

/-- One Bag, two keys. -/
structure OneBag [PyValue V] [LegacyBag B V] (s : Stores V B) : Prop where
  /-- A row that carries `data` carries the Bag that it holds under `store`. -/
  alias_is_store : ∀ row bag, s.data.get row = some bag → s.store row = some bag
  /-- What the site reads as a user's data is the Bag that the views of his pages watch. -/
  read_is_watched : ∀ p user view, s.worker.registry.pageUser p = some user →
    s.view p = some view → (s.serverData (.user, user)).2 = some view.bag
  /-- What the site writes there under a prefix of a page is captured by the page. -/
  write_is_captured : ∀ p user page bag, s.worker.registry.pageUser p = some user →
    s.worker.registry.page_register.get p = some page →
      (s.serverData (.user, user)).2 = some bag → ∀ write clock,
        ∀ event ∈ (SiteWrite.on (s.worker.bags bag) write).2,
          underAny page.store_subscriptions event.path = true →
            ∃ view, (s.siteWrite (.user, user) write clock).view p = some view ∧
              Captured view event

/-- The condition on an installation: a Bag that goes under a user's `store` finds no alias on the
row, or the alias of the very Bag that arrives. -/
def NoSwapUnderAlias (s : Stores V B) : Act V → Prop
  | .installCarriedStore user (some bag) false =>
    arrives s.worker.registry user (some bag) = true →
      ∀ old, s.data.get (.user, user) = some old → old = bag
  | _ => True

/-! ## The views of every page -/

/-- Every page has an owner, whose store its view watches. -/
def Homed (registry : Registry V) : Prop :=
  ∀ p page, registry.page_register.get p = some page →
    Placed p page.connection_id (start registry)

/-- What an action keeps of each page, it keeps of all of them, if it leaves the pages on their
connections. -/
theorem Homed.of_placed {registry : Registry V} (h : Homed registry) (s' : State V)
    (hplaced : ∀ p cid, Placed p cid (start registry) → Placed p cid s')
    (hhomes : ∀ q, (s'.registry.page_register.get q).map PageRow.connection_id =
      (registry.page_register.get q).map PageRow.connection_id) : Homed s'.registry := by
  intro p page' hrow'
  have hhome := hhomes p
  rw [hrow', Option.map_some] at hhome
  obtain ⟨page, hrow, hconnection⟩ := Option.map_eq_some_iff.1 hhome.symm
  have hafter := hplaced p page.connection_id (h p page hrow)
  rw [hconnection] at hafter
  exact ⟨hafter.there, hafter.own, fun view hview => absurd hview List.not_mem_nil⟩

/-- The store of a user, by the label of a page's connection. -/
theorem store_of_pageUser {s : Stores V B} {p : PageId} {user : User}
    (h : s.worker.registry.pageUser p = some user) :
    s.store (.user, user) = s.worker.registry.storeOf p := by
  rw [Registry.storeOf, h, Option.bind_some]
  rfl

section

variable {s s' : Stores V B}

/-- A read answers the Bag under `store`, where the aliases are the stores. -/
theorem serverData_eq (h : ∀ row bag, s.data.get row = some bag → s.store row = some bag)
    (row : RowId) : (s.serverData row).2 = s.store row := by
  unfold serverData ensureItemData
  cases hstore : s.store row with
  | none => rfl
  | some bag =>
    dsimp only
    cases hdata : s.data.get row with
    | none =>
      dsimp only
      rw [Dict.get_set, if_pos rfl]
    | some old =>
      dsimp only
      rw [hdata, ← h row old hdata, hstore]

/-- A read moves the aliases alone. -/
theorem worker_serverData (s : Stores V B) (row : RowId) :
    (s.serverData row).1.worker = s.worker ∧
      (s.serverData row).1.own_stores = s.own_stores := by
  unfold serverData ensureItemData
  cases s.store row with
  | none => exact ⟨rfl, rfl⟩
  | some bag =>
    cases s.data.get row with
    | none => exact ⟨rfl, rfl⟩
    | some old => exact ⟨rfl, rfl⟩

/-- The stores after a read. -/
theorem store_serverData (s : Stores V B) (row row' : RowId) :
    (s.serverData row).1.store row' = s.store row' := by
  obtain ⟨hworker, hown⟩ := s.worker_serverData row
  unfold store
  rw [hworker, hown]

/-- The alias that a read sets is the store. -/
theorem alias_serverData (h : ∀ row bag, s.data.get row = some bag → s.store row = some bag)
    (row : RowId) : ∀ row' bag, (s.serverData row).1.data.get row' = some bag →
      (s.serverData row).1.store row' = some bag := by
  intro row' bag hdata
  rw [store_serverData]
  unfold serverData ensureItemData at hdata
  cases hstore : s.store row with
  | none =>
    rw [hstore] at hdata
    exact h row' bag hdata
  | some fresh =>
    rw [hstore] at hdata
    cases hold : s.data.get row with
    | some old =>
      rw [hold] at hdata
      exact h row' bag hdata
    | none =>
      rw [hold] at hdata
      dsimp only at hdata
      rw [Dict.get_set] at hdata
      split_ifs at hdata with hrow
      · cases hdata
        rw [hrow]
        exact hstore
      · exact h row' bag hdata

/-- A capture keeps what has been captured. -/
theorem Captured.onEvent [PyValue V] {view : LegacyBagCollector V} {event : BagEvent V}
    (h : Captured view event) (event' : BagEvent V) (now : Instant) :
    Captured (view.onEvent event' now) event := by
  obtain ⟨change, hchange, hmade⟩ := h
  refine ⟨change, ?_, hmade⟩
  unfold LegacyBagCollector.onEvent
  split_ifs
  · exact List.mem_append_left _ hchange
  · exact hchange

/-- Every event under the prefixes of a view is captured, one after another. -/
theorem captured_foldl [PyValue V] (clock : ℕ → Instant) :
    ∀ (numbered : List (BagEvent V × ℕ)) (view : LegacyBagCollector V),
      (∀ event, Captured view event → Captured (numbered.foldl
        (fun view event => view.onEvent event.1 (clock event.2)) view) event) ∧
      ∀ event ∈ numbered, view.captures event.1.path = true → Captured (numbered.foldl
        (fun view event => view.onEvent event.1 (clock event.2)) view) event.1
  | [], view => ⟨fun _ h => h, fun _ h => absurd h List.not_mem_nil⟩
  | first :: numbered, view => by
    obtain ⟨hkept, hnew⟩ := captured_foldl clock numbered
      (view.onEvent first.1 (clock first.2))
    refine ⟨fun event h => hkept event (h.onEvent first.1 _), ?_⟩
    intro event hevent hcaptures
    rw [List.foldl_cons]
    rcases List.mem_cons.1 hevent with rfl | hrest
    · -- The event is deposited, and stays.
      have hdeposited : ({ event.1.change event.1.reason (clock event.2) with
          change_idx := view.change_idx + 1 } : Change V) ∈
            (view.onEvent event.1 (clock event.2)).changes := by
        rw [LegacyBagCollector.onEvent, if_pos hcaptures]
        exact List.mem_append_right _ List.mem_cons_self
      exact hkept event.1 ⟨_, hdeposited, clock event.2, rfl⟩
    · refine hnew event hrest ?_
      rw [← hcaptures]
      unfold LegacyBagCollector.captures
      rw [(view.onEvent_frame first.1 (clock first.2)).2.1]

/-- Where every view watches its owner's store, the two keys are one Bag as soon as every alias is
the store of its row. -/
theorem oneBag_iff [PyValue V] [LegacyBag B V] (hhomed : Homed s.worker.registry) :
    OneBag s ↔ ∀ row bag, s.data.get row = some bag → s.store row = some bag := by
  refine ⟨OneBag.alias_is_store, fun halias => ⟨halias, ?_, ?_⟩⟩
  · intro p user view huser hview
    rw [serverData_eq halias, store_of_pageUser huser]
    obtain ⟨page, hrow, hpage⟩ := Option.bind_eq_some_iff.1 hview
    obtain ⟨store, hstore, page', hrow', hattached⟩ := (hhomed p page hrow).there
    have hsame : page = page' := Option.some_inj.1 (hrow.symm.trans hrow')
    subst hsame
    rcases hattached.watches.cases with ⟨hnone, _⟩ | ⟨view', hview', hbag, _, _⟩
    · rw [hpage] at hnone
      cases hnone
    · rw [hpage] at hview'
      cases hview'
      rw [hbag]
      exact hstore
  · intro p user page bag huser hrow hdata write clock event hevent hcovered
    rw [serverData_eq halias, store_of_pageUser huser] at hdata
    obtain ⟨store, hstore, page', hrow', hattached⟩ := (hhomed p page hrow).there
    have hsame : page = page' := Option.some_inj.1 (hrow.symm.trans hrow')
    subst hsame
    have hbag : bag = store := Option.some_inj.1 (hdata.symm.trans hstore)
    subst hbag
    rcases hattached.watches.cases with ⟨_, htops⟩ | ⟨view, hview, hbag, hpaths, hon⟩
    · rw [htops] at hcovered
      simp [underAny] at hcovered
    · -- The write goes to the Bag of the view, which hears it.
      have hserver : s.serverData (.user, user) =
          ((s.serverData (.user, user)).1, some bag) := by
        rw [← hdata, ← store_of_pageUser huser, ← serverData_eq halias]
      have hworker := (s.worker_serverData (.user, user)).1
      have hheard : (s.siteWrite (.user, user) write clock).view p = some
          (view.hear bag (SiteWrite.on (s.worker.bags bag) write).2 fun i => clock i p) := by
        rw [siteWrite, hserver]
        dsimp only
        rw [Stores.view, heard, hworker]
        dsimp only
        rw [Registry.mapPages, Dict.get_mapVals, hrow, Option.map_some, Option.bind_some,
          PageRow.hear_user_view, hview, Option.map_some]
      refine ⟨_, hheard, ?_⟩
      rw [LegacyBagCollector.hear, if_pos ⟨hbag, hon⟩]
      obtain ⟨i, hi⟩ := List.getElem_of_mem hevent
      have hnumbered : (event, i) ∈ (SiteWrite.on (s.worker.bags bag) write).2.zipIdx := by
        obtain ⟨hlt, hget⟩ := hi
        rw [← hget, List.mem_zipIdx_iff_getElem?]
        exact List.getElem?_eq_getElem hlt
      refine (captured_foldl (fun i => clock i p) _ view).2 (event, i) hnumbered ?_
      rw [captures_of_paths hpaths]
      exact hcovered

/-- The stores of two states whose registries have the same pages, connections and users. -/
theorem store_congr (hhomes : Registry.SameHomes s.worker.registry s'.worker.registry)
    (hown : s'.own_stores = s.own_stores) (row : RowId) : s'.store row = s.store row := by
  obtain ⟨register, name⟩ := row
  unfold store
  rw [hown]
  cases register with
  | user =>
    dsimp only
    rw [hhomes.users]
  | connection =>
    dsimp only
    rw [hhomes.connections]
  | page =>
    dsimp only
    have hhome := congrArg (Option.map fun _ => s.own_stores (.page, name)) (hhomes.homes name)
    rw [Option.map_map, Option.map_map] at hhome
    exact hhome

/-- The stores where the registry alone has moved. -/
theorem store_withRegistry {registry : Registry V}
    (hhomes : Registry.SameHomes s.worker.registry registry) (row : RowId) :
    (s.withRegistry registry).store row = s.store row := by
  have hhomes' : Registry.SameHomes s.worker.registry (s.withRegistry registry).worker.registry :=
    hhomes
  exact store_congr hhomes' rfl row

/-- The page rows that hear stay at home. -/
theorem sameHomes_heard [PyValue V] (s : Stores V B) (bag : BagId)
    (written : B × List (BagEvent V)) (clock : ℕ → PageId → Instant) :
    Registry.SameHomes s.worker.registry (s.heard bag written clock).worker.registry := by
  refine ⟨rfl, rfl, fun q => ?_⟩
  rw [heard, Registry.mapPages, Dict.get_mapVals, Option.map_map]
  rfl

/-- A write of the site moves page rows alone, and the aliases as a read does. -/
theorem siteWrite_frame [PyValue V] [LegacyBag B V] (s : Stores V B) (row : RowId)
    (write : SiteWrite V) (clock : ℕ → PageId → Instant) :
    (s.siteWrite row write clock).data = (s.serverData row).1.data ∧
      (s.siteWrite row write clock).own_stores = s.own_stores ∧
      ((s.siteWrite row write clock).worker = s.worker ∨ ∃ bag written,
        (s.siteWrite row write clock).worker = (s.heard bag written clock).worker) := by
  obtain ⟨hworker, hown⟩ := s.worker_serverData row
  unfold siteWrite
  generalize s.serverData row = answered at *
  obtain ⟨answered, bag⟩ := answered
  cases bag with
  | none => exact ⟨rfl, hown, Or.inl hworker⟩
  | some bag =>
    refine ⟨rfl, hown, Or.inr ⟨bag, write.on (answered.worker.bags bag), ?_⟩⟩
    dsimp only at hworker ⊢
    rw [heard, heard, hworker]

/-- The pages that hear keep their homes. -/
theorem Homed.heard [PyValue V] (h : Homed s.worker.registry) (bag : BagId)
    (written : B × List (BagEvent V)) (clock : ℕ → PageId → Instant) :
    Homed (s.heard bag written clock).worker.registry := by
  refine h.of_placed (start (s.heard bag written clock).worker.registry) ?_
    (s.sameHomes_heard bag written clock).homes
  intro p cid hplaced
  refine hplaced.of_sameHomes (s.sameHomes_heard bag written clock) ?_ hplaced.left
  rintro store _ ⟨page, hrow, hattached⟩
  refine ⟨page.hear bag written.2 fun i => clock i p, ?_, hattached.hear bag written.2 _⟩
  rw [start, Stores.heard, Registry.mapPages, Dict.get_mapVals]
  rw [show s.worker.registry.page_register.get p = some page from hrow, Option.map_some]

/-- So do the pages that subscribe. -/
theorem Homed.setStoreSubscription {registry : Registry V} (h : Homed registry) (q : PageId)
    (storename : StoreName) (top : String) (active : Bool) :
    Homed (registry.setStoreSubscription q storename top active).1 := by
  have hhomes := registry.sameHomes_setStoreSubscription q storename top active
  refine h.of_placed (start _) ?_ hhomes.homes
  intro p cid hplaced
  refine hplaced.of_sameHomes hhomes ?_ hplaced.left
  intro store hstore hrow
  exact hrow.setStoreSubscription (hstore ▸ attached_keptBySubscriptions) q storename top active

/-- A carried store leaves the pages on their connections. -/
theorem homes_installCarriedStore {core : CoreStores V} (laws : core.Swaps)
    (registry : Registry V) (user : User) (bag : Option BagId) (resident : Bool) (q : PageId) :
    ((registry.installCarriedStore core user bag resident).page_register.get q).map
        PageRow.connection_id =
      (registry.page_register.get q).map PageRow.connection_id := by
  unfold Registry.installCarriedStore
  split
  · dsimp only
    rw [Registry.mapPages, Dict.get_mapVals, Option.map_map, laws.pages]
    refine congrArg (fun f => Option.map f (registry.page_register.get q)) ?_
    funext page
    dsimp only [Function.comp_apply]
    split_ifs
    · rfl
    · rfl
  · dsimp only
    rw [laws.pages]

/-- A carried store keeps the views on their owners' stores. -/
theorem Homed.installCarriedStore {core : CoreStores V} (laws : core.Swaps)
    {registry : Registry V} (h : Homed registry) {user : User} {bag : Option BagId}
    (harrives : arrives registry user bag = true) (resident : Bool) :
    Homed (registry.installCarriedStore core user bag resident) := by
  refine h.of_placed (start _) ?_ (homes_installCarriedStore laws registry user bag resident)
  intro p cid hplaced
  obtain ⟨page, page', store, _, hrow', _, _, hstore, hattached, hsame⟩ :=
    hplaced.install laws user bag resident harrives
  refine ⟨⟨store, hstore, page', hrow', hattached⟩, ?_, hplaced.left⟩
  intro cid' connection hconnection
  refine hplaced.own cid' connection ?_
  rw [← hsame]
  exact hconnection

/-- A Bag that arrives goes under `store` of the user, and nothing else moves. -/
theorem store_installCarriedStore {core : CoreStores V} (laws : core.Swaps) {user : User}
    {bag : BagId} (harrives : arrives s.worker.registry user (some bag) = true) (row : RowId) :
    (s.withRegistry (s.worker.registry.installCarriedStore core user (some bag) false)).store row =
      if row = (.user, user) then some bag else s.store row := by
  have hhomes := homes_installCarriedStore laws s.worker.registry user (some bag) false
  have hconnections : (s.worker.registry.installCarriedStore core user (some bag)
      false).connection_register = s.worker.registry.connection_register :=
    laws.connections s.worker.registry user (some bag) false
  obtain ⟨register, name⟩ := row
  cases register with
  | page =>
    rw [if_neg (by rintro ⟨⟩)]
    have hhome := congrArg (Option.map fun _ => s.own_stores (.page, name)) (hhomes name)
    rw [Option.map_map, Option.map_map] at hhome
    exact hhome
  | connection =>
    rw [if_neg (by rintro ⟨⟩)]
    unfold store withRegistry
    dsimp only
    rw [hconnections]
  | user =>
    obtain ⟨user_item, huser⟩ := arrives_there harrives
    have hinstalled := laws.installed s.worker.registry user user_item bag huser
      (arrives_fresh harrives) name
    have hname : ((RegisterName.user, name) : RowId) = (.user, user) ↔ name = user := by
      simp
    rw [if_congr hname rfl rfl]
    exact hinstalled

/-- A write of the site keeps the views at home, and the two keys one Bag. -/
theorem siteWrite_keeps [PyValue V] [LegacyBag B V] (h : Homed s.worker.registry) (row : RowId)
    (write : SiteWrite V) (clock : ℕ → PageId → Instant) :
    Homed (s.siteWrite row write clock).worker.registry ∧
      (OneBag s → OneBag (s.siteWrite row write clock)) := by
  -- A write sets the alias, as an answer does, and moves views alone.
  obtain ⟨hdata, hown, hworker⟩ := s.siteWrite_frame row write clock
  have hhomes : Registry.SameHomes s.worker.registry
      (s.siteWrite row write clock).worker.registry := by
    rcases hworker with hworker | ⟨bag, written, hworker⟩
    · rw [hworker]
      exact Registry.SameHomes.refl _
    · rw [hworker]
      exact s.sameHomes_heard bag written clock
  have hhomed : Homed (s.siteWrite row write clock).worker.registry := by
    rcases hworker with hworker | ⟨bag, written, hworker⟩
    · rw [hworker]
      exact h
    · rw [hworker]
      exact h.heard bag written clock
  refine ⟨hhomed, fun hone => (oneBag_iff hhomed).2 fun row' bag hbag => ?_⟩
  rw [store_congr hhomes hown, ← s.store_serverData row row']
  rw [hdata] at hbag
  exact alias_serverData hone.alias_is_store row row' bag hbag

/-- A Bag that is installed keeps the two keys one Bag exactly when it is not swapped under an
alias. -/
theorem oneBag_installCarriedStore_iff [PyValue V] [LegacyBag B V] {core : CoreStores V}
    (laws : core.Swaps) (h : Homed s.worker.registry) {user : User} {bag : Option BagId}
    (harrives : arrives s.worker.registry user bag = true) (resident : Bool) (hone : OneBag s) :
    OneBag (s.withRegistry (s.worker.registry.installCarriedStore core user bag resident)) ↔
      NoSwapUnderAlias s (.installCarriedStore user bag resident) := by
  have hhomed := h.installCarriedStore laws harrives resident
  rw [oneBag_iff hhomed]
  -- Only a Bag that arrives for a user who is not resident moves a store.
  by_cases hmoves : ∃ fresh, bag = some fresh ∧ resident = false
  · obtain ⟨fresh, rfl, rfl⟩ := hmoves
    constructor
    · -- An alias that is still the store after the swap is the Bag that arrived.
      intro halias _ old hold
      have hstore := halias (.user, user) old hold
      rw [store_installCarriedStore laws harrives, if_pos rfl] at hstore
      exact (Option.some_inj.1 hstore).symm
    · intro hcond row old hold
      rw [store_installCarriedStore laws harrives]
      split_ifs with hrow
      · subst hrow
        rw [hcond harrives old hold]
      · exact hone.alias_is_store row old hold
  · have hkept : s.worker.registry.installCarriedStore core user bag resident =
        s.worker.registry := (installCarriedStore_kept laws s.worker.registry user hmoves).1
    rw [hkept]
    refine ⟨fun _ => ?_, fun _ => hone.alias_is_store⟩
    cases bag with
    | none => trivial
    | some fresh =>
      cases resident with
      | true => trivial
      | false => exact absurd ⟨fresh, rfl, rfl⟩ hmoves

/-- One action keeps the views where they belong, and the two keys one Bag exactly when no Bag is
swapped under an alias. -/
theorem step_spec [PyValue V] [LegacyBag B V] {core : CoreStores V} (laws : core.Swaps)
    (h : Homed s.worker.registry) {a : Act V} (hs : step core s a = some s') :
    Homed s'.worker.registry ∧ (OneBag s → (OneBag s' ↔ NoSwapUnderAlias s a)) := by
  cases a with
  | answer row =>
    cases hs
    have hhomed : Homed (s.serverData row).1.worker.registry := by
      rw [(s.worker_serverData row).1]
      exact h
    refine ⟨hhomed, fun hone => ⟨fun _ => trivial, fun _ => ?_⟩⟩
    exact (oneBag_iff hhomed).2 (alias_serverData hone.alias_is_store row)
  | siteWrite row write clock =>
    cases hs
    obtain ⟨hhomed, hkeeps⟩ := siteWrite_keeps h row write clock
    exact ⟨hhomed, fun hone => ⟨fun _ => trivial, fun _ => hkeeps hone⟩⟩
  | setStoreSubscription q storename top active =>
    cases hs
    have hhomes := s.worker.registry.sameHomes_setStoreSubscription q storename top active
    have hhomed := h.setStoreSubscription q storename top active
    refine ⟨hhomed, fun hone => ⟨fun _ => trivial, fun _ => ?_⟩⟩
    refine (oneBag_iff hhomed).2 ?_
    intro row bag hbag
    rw [store_withRegistry hhomes]
    exact hone.alias_is_store row bag hbag
  | installCarriedStore user bag resident =>
    simp only [step] at hs
    split_ifs at hs with harrives
    cases hs
    exact ⟨h.installCarriedStore laws harrives resident,
      oneBag_installCarriedStore_iff laws h harrives resident⟩

end

/-- One Bag, two keys. Take a worker each of whose pages has an owner whose store its view watches,
and rows that carry no `data` yet. In every state of a run of answers, reads and writes of the site,
subscriptions and carried stores, a row that carries `data` carries the Bag under its `store`, the
data of a user is the Bag that the views of his pages watch, and what the site writes there under a
prefix of a page is captured by the page, if and only if every Bag that is installed finds its row
without the key `data`, or with that very Bag under it. -/
theorem one_bag_iff_no_swap_under_alias [PyValue V] [LegacyBag B V] (core : CoreStores V)
    (laws : core.Swaps) (worker : Worker V B) (own_stores : RowId → BagId)
    (hhomed : Homed worker.registry) (acts : List (Act V)) :
    Throughout (step core) OneBag (⟨worker, own_stores, ∅⟩ : Stores V B) acts ↔
      Meets (step core) NoSwapUnderAlias (⟨worker, own_stores, ∅⟩ : Stores V B) acts := by
  have hstart : OneBag (⟨worker, own_stores, ∅⟩ : Stores V B) := by
    refine (oneBag_iff hhomed).2 ?_
    intro row bag hbag
    rw [show (⟨worker, own_stores, ∅⟩ : Stores V B).data = ∅ from rfl, Dict.get_empty] at hbag
    cases hbag
  have hnone : ∀ (s : Stores V B) a, step core s a = none → NoSwapUnderAlias s a := by
    intro s a hdisabled
    cases a with
    | installCarriedStore user bag resident =>
      cases bag with
      | none => trivial
      | some bag =>
        cases resident with
        | true => trivial
        | false =>
          -- A Bag that cannot arrive is not installed.
          intro harrives
          simp only [step, if_pos harrives] at hdisabled
          cases hdisabled
    | _ => trivial
  have hbase : ∀ (s : Stores V B) a s', Homed s.worker.registry → True → step core s a = some s' →
      Homed s'.worker.registry := fun s a s' h _ hs => (step_spec laws h hs).1
  have hstep : ∀ (s : Stores V B) a s', Homed s.worker.registry → True → OneBag s →
      step core s a = some s' → (OneBag s' ↔ NoSwapUnderAlias s a) :=
    fun s a s' h _ hone hs => (step_spec laws h hs).2 hone
  exact throughout_iff_meets hbase hnone hstep hhomed hstart (Meets.of_forall fun _ _ => trivial)

section

/-- A worker of one page of one user, which watches `a` in his store. -/
def watching : Worker Delivery.Sample.Value Delivery.Sample.FlatBag :=
  ⟨((Delivery.Sample.registry ["p"]).setStoreSubscription "p" .user "a" true).1, fun _ => ∅, ∅⟩

/-- Its page watches the store of its owner. -/
theorem homed_watching : Homed watching.registry := by
  have hborn : Homed (Delivery.Sample.registry ["p"]) := by
    intro p page hrow
    have hget : (Dict.set (∅ : Dict PageId (PageRow Delivery.Sample.Value)) "p"
        (PageRow.born "c")).get p = some page := hrow
    rw [Dict.get_set] at hget
    split_ifs at hget with hp
    · cases hget
      subst hp
      refine ⟨⟨0, rfl, PageRow.born "c", rfl, rfl, rfl, fun view hview => by cases hview⟩,
        Views.Sample.own_registry, fun view hview => absurd hview List.not_mem_nil⟩
    · simp at hget
  exact hborn.setStoreSubscription "p" .user "a" true

/-- A carried store that arrives before the data of its user is read, and a write of the site. -/
def swappedFirst : List (Act Delivery.Sample.Value) :=
  [.installCarriedStore "u" (some 7) false, .answer (.user, "u"),
    .siteWrite (.user, "u") (.setItem "a" (some 1) ∅ none) fun _ _ => 1]

/-- The two keys stay one Bag. -/
theorem one_bag_swapped_first :
    Throughout (step Views.Sample.carryingCore) OneBag (⟨watching, fun _ => 9, ∅⟩ : Stores
      Delivery.Sample.Value Delivery.Sample.FlatBag) swappedFirst := by
  refine (one_bag_iff_no_swap_under_alias Views.Sample.carryingCore
    Views.Sample.carryingCore_swaps watching _ homed_watching swappedFirst).2 ?_
  refine .cons rfl ?_ (.cons rfl trivial (.cons rfl trivial trivial))
  intro _ old hold
  rw [show (⟨watching, fun _ => 9, ∅⟩ : Stores Delivery.Sample.Value
    Delivery.Sample.FlatBag).data = ∅ from rfl, Dict.get_empty] at hold
  cases hold

/-- The data of the user is read, and then the carried store arrives. -/
def swappedUnderAlias : List (Act Delivery.Sample.Value) :=
  [.answer (.user, "u"), .installCarriedStore "u" (some 7) false]

/-- The site goes on writing the old Bag, which no view watches any more: the page captures
nothing of a write under its own prefix. -/
theorem write_after_swap_is_deaf :
    ∃ s : Stores Delivery.Sample.Value Delivery.Sample.FlatBag,
      run (step Views.Sample.carryingCore) ⟨watching, fun _ => 9, ∅⟩ swappedUnderAlias = some s ∧
        s.data.get (.user, "u") = some 0 ∧ s.store (.user, "u") = some 7 ∧
        ((s.siteWrite (.user, "u") (.setItem "a" (some 1) ∅ none) fun _ _ => 1).view "p").map
          (fun view => (view.bag, view.changes.map fun change => change.key.path)) =
            some (7, []) ∧
        ¬ OneBag s := by
  refine ⟨_, rfl, rfl, rfl, rfl, ?_⟩
  intro hone
  have halias := hone.alias_is_store (.user, "u") 0 rfl
  exact absurd halias (by decide)

end

end Stores
end GenropyAsgi.Views
