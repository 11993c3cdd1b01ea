import Mathlib.Order.Lattice.Nat
import GenropyAsgi.Library.Run
import GenropyAsgi.Delivery.Machine
import GenropyAsgi.Views.Attachment

/-!
# A page's view follows its owner's store

One worker's registry, with the collectors that the re-attachments have left behind. A page born
without a view opens one with its first subscription; a login and a carried store move it to another
Bag. In every state of a run the view watches the store of the page's present owner under the
prefixes of the row, or there is neither a view nor a prefix (`view_follows_owner`).
-/

namespace GenropyAsgi.Views

open Library

variable {V : Type}

/-- The state of the machine. -/
structure State (V : Type) where
  /-- The registers. -/
  registry : Registry V
  /-- The old views of each page, as the re-attachments left them. -/
  detached : PageId → List (LegacyBagCollector V)

/-- The actions. -/
inductive Act (V : Type) where
  /-- `setStoreSubscription`. -/
  | setStoreSubscription (page_id : PageId) (storename : StoreName) (top : String) (active : Bool)
  /-- `replay_fields` of a woken page. -/
  | replayFields (page_id : PageId) (table_subscriptions : List Table)
      (subscribed_paths store_subscriptions : List String)
  /-- `change_connection_user`. -/
  | changeConnectionUser (connection_id : ConnectionId) (user : User)
  /-- `_install_carried_store`. -/
  | installCarriedStore (user : User) (store : Option BagId) (resident : Bool)
  /-- A write of a Bag, with the events that it sends. -/
  | write (bag : BagId) (events : List (BagEvent V)) (clock : ℕ → PageId → Instant)
  /-- A collect drains a page. -/
  | drain (page_id : PageId)

/-- Whether a Bag can arrive for a user: he has a row, and the Bag is nobody else's store, as what
is unpickled is an object of its own. -/
def arrives (registry : Registry V) (user : User) (store : Option BagId) : Bool :=
  (registry.user_register.get user).isSome &&
    decide (∀ v ∈ registry.user_register.keys, v ≠ user →
      (registry.user_register.get v).map UserRow.store ≠ store)

/-- One action. A Bag is installed only as it can arrive. -/
def step [PyValue V] (core : CoreRegister V) (stores : CoreStores V) (s : State V) :
    Act V → Option (State V)
  | .setStoreSubscription page_id storename top active =>
    some { s with
      registry := (s.registry.setStoreSubscription page_id storename top active).1 }
  | .replayFields page_id table_subscriptions subscribed_paths store_subscriptions =>
    some { s with
      registry := (s.registry.replayFields page_id table_subscriptions subscribed_paths
        store_subscriptions).1 }
  | .changeConnectionUser connection_id user =>
    some {
      registry := s.registry.changeConnectionUser core connection_id user
      detached := fun q => s.detached q ++ s.registry.leftByLogin core connection_id user q }
  | .installCarriedStore user store resident =>
    if arrives s.registry user store then
      some {
        registry := s.registry.installCarriedStore stores user store resident
        detached := fun q =>
          s.detached q ++ s.registry.leftByInstall stores user store resident q }
    else none
  | .write bag events clock =>
    some {
      registry := s.registry.mapPages fun page_id page =>
        page.hear bag events fun i => clock i page_id
      detached := fun q => (s.detached q).map fun view => view.hear bag events fun i => clock i q }
  | .drain page_id =>
    match s.registry.page_register.get page_id with
    | none => none
    | some page => some { s with registry := s.registry.setPage page_id page.drained }

/-- The machine before the first action: no view has been left behind. -/
def start (registry : Registry V) : State V := ⟨registry, fun _ => []⟩

/-- The view of a page. -/
def State.view (s : State V) (p : PageId) : Option (LegacyBagCollector V) :=
  (s.registry.page_register.get p).bind PageRow.user_view

/-- What a collect would drain off the view of a page, without the numbers. -/
def State.pending (s : State V) (p : PageId) : List (Change V) :=
  match s.view p with
  | none => []
  | some view => view.drain.2.map Change.unnumbered

/-- A row whose view watches a store under the prefixes of the row, or which has neither a view nor
a prefix. -/
def Watches (page : PageRow V) (store : BagId) : Prop :=
  match page.user_view with
  | none => page.store_subscriptions = ∅
  | some view => view.bag = store ∧ view.paths = some page.store_subscriptions ∧
      (∀ path, view.captures path = underAny page.store_subscriptions path) ∧
      view.attached = true

/-- A page's view follows its owner's store, and its old views are detached. -/
def Follows (p : PageId) (s : State V) : Prop :=
  (∃ page store, s.registry.page_register.get p = some page ∧
      s.registry.storeOf p = some store ∧ Watches page store) ∧
    ∀ view ∈ s.detached p, view.attached = false

/-- What one action does to the views of a page: an old view stays as it was left; and a login or a
carried store keeps every pending change, in its order and once, with the view that was there or
with a fresh one, the old one being left detached. -/
def KeepsPending (p : PageId) (s : State V) (a : Act V) (s' : State V) : Prop :=
  s.detached p <+: s'.detached p ∧
    match a with
    | .changeConnectionUser .. | .installCarriedStore .. =>
      s'.pending p = s.pending p ∧
        (s'.view p = s.view p ∧ s'.detached p = s.detached p ∨
          ∃ old, s.view p = some old ∧ s'.detached p = s.detached p ++ [old.detach])
    | _ => True

/-- A row on a connection, whose view watches a store and is numbered. -/
structure Attached (cid : ConnectionId) (store : BagId) (page : PageRow V) : Prop where
  /-- The row stays on its connection. -/
  home : page.connection_id = cid
  /-- The view watches the store. -/
  watches : Watches page store
  /-- The view is numbered. -/
  numbered : ∀ view ∈ page.user_view, view.Numbered

/-- What holds of a page along a run. -/
structure Placed (p : PageId) (cid : ConnectionId) (s : State V) : Prop where
  /-- The page has an owner with a store, which its row is attached to. -/
  there : ∃ store, s.registry.storeOf p = some store ∧
    Registry.RowHolds p (Attached cid store) s.registry
  /-- It is a page of its own connection and of no other one. -/
  own : ∀ cid' connection, s.registry.connection_register.get cid' = some connection →
    (p ∈ connection.pages ↔ cid' = cid)
  /-- The old views are detached. -/
  left : ∀ view ∈ s.detached p, view.attached = false

/-- What a view with a set of prefixes captures. -/
theorem captures_of_paths {view : LegacyBagCollector V} {tops : Finset String}
    (h : view.paths = some tops) (path : String) : view.captures path = underAny tops path := by
  unfold LegacyBagCollector.captures
  rw [h]

/-- A row without a view and without prefixes watches any store. -/
theorem watches_of_none {page : PageRow V} {store : BagId} (hview : page.user_view = none)
    (htops : page.store_subscriptions = ∅) : Watches page store := by
  unfold Watches
  rw [hview]
  exact htops

/-- A row with a view on a store, under the prefixes of the row, watches that store. -/
theorem watches_of_some {page : PageRow V} {store : BagId} {view : LegacyBagCollector V}
    (hview : page.user_view = some view) (hbag : view.bag = store)
    (hpaths : view.paths = some page.store_subscriptions) (hattached : view.attached = true) :
    Watches page store := by
  unfold Watches
  rw [hview]
  exact ⟨hbag, hpaths, captures_of_paths hpaths, hattached⟩

/-- What `Watches` says of a row, by its view. -/
theorem Watches.cases {page : PageRow V} {store : BagId} (h : Watches page store) :
    (page.user_view = none ∧ page.store_subscriptions = ∅) ∨
      ∃ view, page.user_view = some view ∧ view.bag = store ∧
        view.paths = some page.store_subscriptions ∧ view.attached = true := by
  unfold Watches at h
  cases hview : page.user_view with
  | none =>
    rw [hview] at h
    exact Or.inl ⟨rfl, h⟩
  | some view =>
    rw [hview] at h
    exact Or.inr ⟨view, rfl, h.1, h.2.1, h.2.2.2⟩

section

variable {p : PageId} {cid : ConnectionId} {store : BagId} {s s' : State V}

/-- An opening keeps a row attached to the store of its owner. -/
theorem Attached.subscribeStore {page : PageRow V} (h : Attached cid store page) (top : String)
    {bag : BagId} (hbag : page.user_view = none → bag = store) :
    Attached cid store (page.subscribeStore top bag) := by
  rcases h.watches.cases with ⟨hview, htops⟩ | ⟨view, hview, hstore, hpaths, hattached⟩
  · -- The first prefix opens the view.
    have hnew : (page.subscribeStore top bag).user_view =
        some (LegacyBagCollector.new bag (some {top})) := by
      simp only [PageRow.subscribeStore, hview]
    refine ⟨h.home, watches_of_some hnew (hbag hview) ?_ rfl, ?_⟩
    · show some {top} = some (insert top page.store_subscriptions)
      rw [htops]
      rfl
    · rw [hnew]
      rintro _ ⟨⟩
      exact LegacyBagCollector.numbered_new bag (some {top})
  · -- The next ones widen it.
    have hnew : (page.subscribeStore top bag).user_view = some (view.subscribePath top) := by
      simp only [PageRow.subscribeStore, hview]
    refine ⟨h.home, watches_of_some hnew hstore ?_ hattached, ?_⟩
    · show some (insert top (view.paths.getD ∅)) = some (insert top page.store_subscriptions)
      rw [hpaths]
      rfl
    · rw [hnew]
      rintro _ ⟨⟩
      have hnumbered := h.numbered view hview
      exact ⟨hnumbered.increasing, hnumbered.bounded⟩

/-- A closing keeps a row attached. -/
theorem Attached.unsubscribeStore {page : PageRow V} (h : Attached cid store page)
    (top : String) : Attached cid store (page.unsubscribeStore top) := by
  rcases h.watches.cases with ⟨hview, htops⟩ | ⟨view, hview, hstore, hpaths, hattached⟩
  · have hnone : (page.unsubscribeStore top).user_view = none := by
      simp only [PageRow.unsubscribeStore, hview, Option.map_none]
    refine ⟨h.home, watches_of_none hnone ?_, ?_⟩
    · show page.store_subscriptions.erase top = ∅
      rw [htops]
      rfl
    · rw [hnone]
      intro view hview
      cases hview
  · have hsome : (page.unsubscribeStore top).user_view = some (view.unsubscribePath top) := by
      simp only [PageRow.unsubscribeStore, hview, Option.map_some]
    refine ⟨h.home, watches_of_some hsome hstore ?_ hattached, ?_⟩
    · show view.paths.map (fun paths => paths.erase top) =
        some (page.store_subscriptions.erase top)
      rw [hpaths]
      rfl
    · rw [hsome]
      rintro _ ⟨⟩
      have hnumbered := h.numbered view hview
      exact ⟨hnumbered.increasing, hnumbered.bounded⟩

/-- A row whose view is replaced by one with the same prefixes on another store. -/
theorem Attached.move {page page' : PageRow V} (h : Attached cid store page) {store' : BagId}
    (hhome : page'.connection_id = page.connection_id)
    (htops : page'.store_subscriptions = page.store_subscriptions)
    (f : LegacyBagCollector V → LegacyBagCollector V)
    (hviews : page'.user_view = page.user_view.map f)
    (hf : ∀ view, page.user_view = some view → view.bag = store →
      view.paths = some page.store_subscriptions → view.attached = true → view.Numbered →
        (f view).bag = store' ∧ (f view).paths = some page.store_subscriptions ∧
          (f view).attached = true ∧ (f view).Numbered) :
    Attached cid store' page' := by
  rcases h.watches.cases with ⟨hview, hnone⟩ | ⟨view, hview, hstore, hpaths, hattached⟩
  · rw [hview, Option.map_none] at hviews
    refine ⟨hhome.trans h.home, watches_of_none hviews (htops.trans hnone), ?_⟩
    rw [hviews]
    intro view hview
    cases hview
  · rw [hview, Option.map_some] at hviews
    obtain ⟨hbag, hpaths, hattached, hnumbered⟩ :=
      hf view hview hstore hpaths hattached (h.numbered view hview)
    refine ⟨hhome.trans h.home, ?_, ?_⟩
    · exact watches_of_some hviews hbag (hpaths.trans (congrArg some htops.symm)) hattached
    · rw [hviews]
      rintro _ ⟨⟩
      exact hnumbered

/-- A row that is re-attached on a store watches that store. -/
theorem Attached.reattach {page : PageRow V} (h : Attached cid store page) (store' : BagId) :
    Attached cid store' (page.reattach store') := by
  refine h.move rfl rfl (fun view => view.refed store' page.store_subscriptions) rfl ?_
  intro view _ _ _ _ _
  obtain ⟨hbag, hpaths, hattached⟩ := view.refed_frame store' page.store_subscriptions
  exact ⟨hbag, hpaths, hattached, view.numbered_refed store' page.store_subscriptions⟩

/-- A row that follows a new owner watches his store. -/
theorem Attached.follow {page : PageRow V} (h : Attached cid store page) (store' : BagId) :
    Attached cid store' (page.follow store') := by
  refine h.move rfl rfl _ (page.follow_user_view store') ?_
  intro view _ _ hpaths hattached hnumbered
  split_ifs with hbag
  · exact ⟨hbag, hpaths, hattached, hnumbered⟩
  · obtain ⟨hbag, hpaths, hattached⟩ := view.refed_frame store' page.store_subscriptions
    exact ⟨hbag, hpaths, hattached, view.numbered_refed store' page.store_subscriptions⟩

/-- A row that hears stays attached. -/
theorem Attached.hear [PyValue V] {page : PageRow V} (h : Attached cid store page) (bag : BagId)
    (events : List (BagEvent V)) (clock : ℕ → Instant) :
    Attached cid store (page.hear bag events clock) := by
  refine h.move rfl rfl (fun view => view.hear bag events clock)
    (page.hear_user_view bag events clock) ?_
  intro view _ hstore hpaths hattached hnumbered
  obtain ⟨h₁, h₂, h₃⟩ := view.hear_frame bag events clock
  exact ⟨h₁.trans hstore, h₂.trans hpaths, h₃.trans hattached,
    hnumbered.hear bag events clock⟩

/-- A drained row stays attached. -/
theorem Attached.drained {page : PageRow V} (h : Attached cid store page) :
    Attached cid store page.drained := by
  refine h.move rfl rfl (fun view => view.drain.1) rfl ?_
  intro view _ hstore hpaths hattached _
  exact ⟨hstore, hpaths, hattached, view.numbered_drain⟩

/-- The subscriptions of a page keep its row attached to the store of its owner. -/
theorem attached_keptBySubscriptions :
    Registry.KeptBySubscriptions (some store) (Attached (V := V) cid store) where
  sets := fun page _ _ h => ⟨h.home, h.watches, h.numbered⟩
  opened := by
    intro page top bag h hbag
    refine h.subscribeStore top fun hview => ?_
    exact (Option.some_inj.1 (hbag hview)).symm
  missed := by
    intro page top _ _ hstore
    cases hstore
  closed := fun page top h => h.unsubscribeStore top

/-- An action that moves page rows alone, and keeps this one attached. -/
theorem Placed.of_sameHomes (h : Placed p cid s)
    (hhomes : Registry.SameHomes s.registry s'.registry)
    (hrow : ∀ store, s.registry.storeOf p = some store →
      Registry.RowHolds p (Attached cid store) s.registry →
        Registry.RowHolds p (Attached cid store) s'.registry)
    (hleft : ∀ view ∈ s'.detached p, view.attached = false) : Placed p cid s' where
  there := by
    obtain ⟨store, hstore, hattached⟩ := h.there
    exact ⟨store, (hhomes.storeOf_eq p).trans hstore, hrow store hstore hattached⟩
  own := by
    rw [hhomes.connections]
    exact h.own
  left := hleft

/-! ## The two re-attachments -/

/-- What a re-attachment does to the view of a row: nothing; or it puts a fresh collector in the
place of the old one, re-deposited with what that one held, and leaves the old one detached. -/
def Replaced (page page' : PageRow V) (left : List (LegacyBagCollector V)) : Prop :=
  (page'.user_view = page.user_view ∧ left = []) ∨
    ∃ old store, page.user_view = some old ∧
      page'.user_view = some (old.refed store page.store_subscriptions) ∧ left = [old.detach]

/-- A row that follows a new owner. -/
theorem replaced_follow (page : PageRow V) (store : BagId) :
    Replaced page (page.follow store) (page.leftBehind fun view => decide (view.bag ≠ store)) := by
  unfold Replaced PageRow.leftBehind
  rw [page.follow_user_view store]
  cases hview : page.user_view with
  | none => exact Or.inl ⟨rfl, rfl⟩
  | some old =>
    by_cases hbag : old.bag = store
    · refine Or.inl ⟨?_, ?_⟩
      · rw [Option.map_some, if_pos hbag]
      · simp [hbag]
    · refine Or.inr ⟨old, store, rfl, ?_, ?_⟩
      · rw [Option.map_some, if_neg hbag]
      · simp [hbag]

/-- A row that is re-attached on a carried store. -/
theorem replaced_reattach (page : PageRow V) (store : BagId) :
    Replaced page (page.reattach store) (page.leftBehind fun _ => true) := by
  unfold Replaced PageRow.leftBehind
  cases hview : page.user_view with
  | none =>
    refine Or.inl ⟨?_, rfl⟩
    simp only [PageRow.reattach, hview, Option.map_none]
  | some old =>
    refine Or.inr ⟨old, store, rfl, ?_, rfl⟩
    simp only [PageRow.reattach, hview, Option.map_some]

/-- A row that is left alone. -/
theorem replaced_refl (page : PageRow V) : Replaced page page [] := Or.inl ⟨rfl, rfl⟩

/-- A login to a user with a row, on a connection that is there. -/
theorem changeConnectionUser_of_there {core : CoreRegister V} {registry : Registry V}
    {connection_id : ConnectionId} {user : User} {connection : ConnectionRow}
    {user_item : UserRow}
    (hlabel : (core.changeConnectionUser registry connection_id user).connection_register.get
      connection_id = some connection)
    (huser : (core.changeConnectionUser registry connection_id user).user_register.get user =
      some user_item) :
    registry.changeConnectionUser core connection_id user =
        (core.changeConnectionUser registry connection_id user).mapPages (fun page_id page =>
          if page_id ∈ connection.pages then page.follow user_item.store else page) ∧
      ∀ p page, (core.changeConnectionUser registry connection_id user).page_register.get p =
        some page →
          registry.leftByLogin core connection_id user p =
            if p ∈ connection.pages then
              page.leftBehind fun view => decide (view.bag ≠ user_item.store)
            else [] := by
  refine ⟨?_, ?_⟩
  · simp only [Registry.changeConnectionUser, hlabel, huser]
  · intro p page hget
    simp only [Registry.leftByLogin, hlabel, huser, hget]

/-- The store of a page's owner, by the label of its connection. -/
theorem storeOf_of_home {registry : Registry V} {page : PageRow V} {home : ConnectionRow}
    (hrow : registry.page_register.get p = some page)
    (hhome : registry.connection_register.get page.connection_id = some home) :
    registry.storeOf p = (registry.user_register.get home.user).map UserRow.store := by
  rw [Registry.storeOf, Registry.pageUser, hrow, Option.bind_some, hhome]
  rfl

/-- The connection of a page whose owner has a store. -/
theorem home_of_storeOf {registry : Registry V} {page : PageRow V} {store : BagId}
    (hrow : registry.page_register.get p = some page) (hstore : registry.storeOf p = some store) :
    ∃ home, registry.connection_register.get page.connection_id = some home := by
  cases hhome : registry.connection_register.get page.connection_id with
  | none =>
    rw [Registry.storeOf, Registry.pageUser, hrow, Option.bind_some, hhome] at hstore
    cases hstore
  | some home => exact ⟨home, rfl⟩

/-- A map over the rows that keeps their connections keeps the store of a page's owner. -/
theorem storeOf_mapPages {registry : Registry V} {f : PageId → PageRow V → PageRow V}
    (hf : ∀ q row, (f q row).connection_id = row.connection_id) :
    (registry.mapPages f).storeOf p = registry.storeOf p := by
  rw [Registry.storeOf, Registry.storeOf, Registry.pageUser_mapPages hf]
  rfl

/-- After the core has re-labelled a connection, a page is still of its own one alone. -/
theorem own_relabelled {registry relabelled : Registry V} {connection_id : ConnectionId}
    {user : User} {connection : ConnectionRow}
    (hown : ∀ cid' connection, registry.connection_register.get cid' = some connection →
      (p ∈ connection.pages ↔ cid' = cid))
    (hconnection : registry.connection_register.get connection_id = some connection)
    (hlabel : relabelled.connection_register.get connection_id =
      some { connection with user := user })
    (hothers : ∀ cid', cid' ≠ connection_id →
      relabelled.connection_register.get cid' = registry.connection_register.get cid') :
    ∀ cid' connection', relabelled.connection_register.get cid' = some connection' →
      (p ∈ connection'.pages ↔ cid' = cid) := by
  intro cid' connection' hget
  by_cases hcid : cid' = connection_id
  · subst hcid
    rw [hlabel] at hget
    cases hget
    exact hown cid' connection hconnection
  · rw [hothers cid' hcid] at hget
    exact hown cid' connection' hget

/-- A login, on a page: the new owner's store is the one that its row is attached to. -/
theorem Placed.login {core : CoreRegister V} (laws : core.Relabels) (h : Placed p cid s)
    (connection_id : ConnectionId) (user : User) :
    ∃ page page' store,
      s.registry.page_register.get p = some page ∧
        (s.registry.changeConnectionUser core connection_id user).page_register.get p =
          some page' ∧
        Replaced page page' (s.registry.leftByLogin core connection_id user p) ∧
        (∀ view ∈ page.user_view, view.Numbered) ∧
        (s.registry.changeConnectionUser core connection_id user).storeOf p = some store ∧
        Attached cid store page' ∧
        ∀ cid' connection, (s.registry.changeConnectionUser core connection_id
          user).connection_register.get cid' = some connection →
            (p ∈ connection.pages ↔ cid' = cid) := by
  obtain ⟨store, hstore, page, hrow, hattached⟩ := h.there
  cases hconnection : s.registry.connection_register.get connection_id with
  | none =>
    -- The core raises, and nothing moves.
    have hkept : s.registry.changeConnectionUser core connection_id user = s.registry := by
      simp only [Registry.changeConnectionUser, laws.unknown _ _ _ hconnection, hconnection]
    have hleft : s.registry.leftByLogin core connection_id user p = [] := by
      simp only [Registry.leftByLogin, laws.unknown _ _ _ hconnection, hconnection]
    rw [hkept, hleft]
    exact ⟨page, page, store, hrow, hrow, replaced_refl page, hattached.numbered, hstore,
      hattached, h.own⟩
  | some connection =>
    have hlabel := laws.label s.registry connection_id user connection hconnection
    have hthere := (core.changeConnectionUser s.registry connection_id user).owner_there
      connection_id _ hlabel
    have hpages := laws.pages s.registry connection_id user
    have hothers := laws.others s.registry connection_id user
    have hstores := laws.stores s.registry connection_id user
    obtain ⟨user_item, huser⟩ := Option.isSome_iff_exists.1 hthere
    obtain ⟨hmoved, hleft⟩ := changeConnectionUser_of_there hlabel huser
    rw [hmoved, hleft p page (hpages ▸ hrow)]
    clear hmoved hleft hthere
    generalize core.changeConnectionUser s.registry connection_id user = relabelled at *
    dsimp only at huser
    have hown := own_relabelled h.own hconnection hlabel hothers
    have hmem := h.own connection_id connection hconnection
    have hget : relabelled.page_register.get p = some page := hpages ▸ hrow
    have hkeeps : ∀ q (row : PageRow V),
        (if q ∈ connection.pages then row.follow user_item.store else row).connection_id =
          row.connection_id := by
      intro q row
      split_ifs
      · rfl
      · rfl
    rw [Registry.get_mapPages hget, storeOf_mapPages hkeeps]
    by_cases hp : connection_id = cid
    · -- The page is on the connection that was moved.
      subst hp
      have hstore' : relabelled.storeOf p = some user_item.store := by
        rw [storeOf_of_home hget (hattached.home.symm ▸ hlabel), huser]
        rfl
      rw [if_pos (hmem.2 rfl), if_pos (hmem.2 rfl)]
      exact ⟨page, page.follow user_item.store, user_item.store, hrow, rfl,
        replaced_follow page user_item.store, hattached.numbered, hstore',
        hattached.follow user_item.store, hown⟩
    · -- It is on another one, whose user keeps his Bag.
      have hnot : p ∉ connection.pages := fun hmem' => hp (hmem.1 hmem')
      obtain ⟨home, hhome⟩ := home_of_storeOf hrow hstore
      have hother : page.connection_id ≠ connection_id := by
        rw [hattached.home]
        exact Ne.symm hp
      have hstore' : relabelled.storeOf p = some store := by
        rw [storeOf_of_home hget ((hothers _ hother).trans hhome),
          hstores page.connection_id home hother hhome, ← storeOf_of_home hrow hhome, hstore]
      rw [if_neg hnot, if_neg hnot]
      exact ⟨page, page, store, hrow, rfl, replaced_refl page, hattached.numbered, hstore',
        hattached, hown⟩

/-- A user for whom a Bag can arrive has a row. -/
theorem arrives_there {registry : Registry V} {user : User} {store : Option BagId}
    (h : arrives registry user store = true) :
    ∃ row, registry.user_register.get user = some row := by
  rw [arrives, Bool.and_eq_true] at h
  exact Option.isSome_iff_exists.1 h.1

/-- A Bag that can arrive for a user is nobody else's. -/
theorem arrives_fresh {registry : Registry V} {user : User} {bag : BagId}
    (h : arrives registry user (some bag) = true) :
    ∀ v row, registry.user_register.get v = some row → row.store = bag → v = user := by
  intro v row hv hbag
  rw [arrives, Bool.and_eq_true, decide_eq_true_eq] at h
  by_contra hne
  refine h.2 v ?_ hne ?_
  · rw [Dict.mem_keys, hv]
    rfl
  · rw [hv, Option.map_some, hbag]

/-- Without a Bag, or for a resident user, an installation moves nothing. -/
theorem installCarriedStore_kept {stores : CoreStores V} (laws : stores.Swaps)
    (registry : Registry V) (user : User) {store : Option BagId} {resident : Bool}
    (h : ¬ ∃ bag, store = some bag ∧ resident = false) :
    registry.installCarriedStore stores user store resident = registry ∧
      ∀ p, registry.leftByInstall stores user store resident p = [] := by
  have hnone : store = none ∨ resident = true := by
    cases store with
    | none => exact Or.inl rfl
    | some bag =>
      cases resident with
      | true => exact Or.inr rfl
      | false => exact absurd ⟨bag, rfl, rfl⟩ h
  unfold Registry.installCarriedStore Registry.leftByInstall
  rw [laws.kept _ _ _ _ hnone]
  rcases hnone with rfl | rfl
  · exact ⟨rfl, fun _ => rfl⟩
  · cases store with
    | none => exact ⟨rfl, fun _ => rfl⟩
    | some bag => exact ⟨rfl, fun _ => rfl⟩

/-- The swap of a carried Bag, for a user who was not resident. -/
theorem installCarriedStore_of_arrival (stores : CoreStores V) (registry : Registry V)
    (user : User) (bag : BagId) :
    registry.installCarriedStore stores user (some bag) false =
        (stores.installCarriedStore registry user (some bag) false).mapPages (fun page_id page =>
          if page_id ∈ (stores.installCarriedStore registry user (some bag) false).pagesOf user then
            page.reattach bag
          else page) ∧
      ∀ p page, (stores.installCarriedStore registry user (some bag) false).page_register.get p =
        some page →
          registry.leftByInstall stores user (some bag) false p =
            if p ∈ (stores.installCarriedStore registry user (some bag) false).pagesOf user then
              page.leftBehind fun _ => true
            else [] := by
  refine ⟨rfl, ?_⟩
  intro p page hget
  simp only [Registry.leftByInstall, hget]

/-- A carried store, on a page: the one that its row is attached to is its owner's. -/
theorem Placed.install {stores : CoreStores V} (laws : stores.Swaps) (h : Placed p cid s)
    (user : User) (store : Option BagId) (resident : Bool)
    (harrives : arrives s.registry user store = true) :
    ∃ page page' bag,
      s.registry.page_register.get p = some page ∧
        (s.registry.installCarriedStore stores user store resident).page_register.get p =
          some page' ∧
        Replaced page page' (s.registry.leftByInstall stores user store resident p) ∧
        (∀ view ∈ page.user_view, view.Numbered) ∧
        (s.registry.installCarriedStore stores user store resident).storeOf p = some bag ∧
        Attached cid bag page' ∧
        (s.registry.installCarriedStore stores user store resident).connection_register =
          s.registry.connection_register := by
  obtain ⟨old, hstore, page, hrow, hattached⟩ := h.there
  by_cases hmoves : ∃ bag, store = some bag ∧ resident = false
  · obtain ⟨bag, rfl, rfl⟩ := hmoves
    have hpages := laws.pages s.registry user (some bag) false
    have hconnections := laws.connections s.registry user (some bag) false
    -- The Bag is nobody else's, so that it goes under the row of the user.
    obtain ⟨user_item, huser⟩ := arrives_there harrives
    have hinstalled := laws.installed s.registry user user_item bag huser
      (arrives_fresh harrives)
    obtain ⟨hmoved, hleft⟩ := installCarriedStore_of_arrival stores s.registry user bag
    rw [hmoved, hleft p page (hpages ▸ hrow)]
    clear hmoved hleft
    generalize stores.installCarriedStore s.registry user (some bag) false = swapped at *
    have hget : swapped.page_register.get p = some page := hpages ▸ hrow
    obtain ⟨home, hhome⟩ := home_of_storeOf hrow hstore
    have hhome' : swapped.connection_register.get page.connection_id = some home := by
      rw [hconnections]
      exact hhome
    have hmem : p ∈ home.pages := by
      rw [hattached.home] at hhome
      exact (h.own cid home hhome).2 rfl
    have hkeeps : ∀ q (row : PageRow V),
        (if q ∈ swapped.pagesOf user then row.reattach bag else row).connection_id =
          row.connection_id := by
      intro q row
      split_ifs
      · rfl
      · rfl
    rw [Registry.get_mapPages hget, storeOf_mapPages hkeeps, storeOf_of_home hget hhome',
      hinstalled]
    by_cases howner : home.user = user
    · -- The carried store is the owner's.
      have hp : p ∈ swapped.pagesOf user := howner ▸ Registry.mem_pagesOf hhome' hmem
      rw [if_pos hp, if_pos hp, if_pos howner]
      exact ⟨page, page.reattach bag, bag, hrow, rfl, replaced_reattach page bag,
        hattached.numbered, rfl, hattached.reattach bag, hconnections⟩
    · -- It is somebody else's.
      have hp : p ∉ swapped.pagesOf user := by
        intro hp
        obtain ⟨cid', connection, hconnection, huser', hmem'⟩ :=
          Registry.connection_of_mem_pagesOf hp
        rw [hconnections] at hconnection
        have hcid := (h.own cid' connection hconnection).1 hmem'
        rw [hcid, ← hattached.home, hhome] at hconnection
        cases hconnection
        exact howner huser'
      rw [if_neg hp, if_neg hp, if_neg howner]
      rw [storeOf_of_home hrow hhome] at hstore
      exact ⟨page, page, old, hrow, rfl, replaced_refl page, hattached.numbered, hstore,
        hattached, hconnections⟩
  · -- Nothing arrives, or the user is resident.
    obtain ⟨hkept, hleft⟩ := installCarriedStore_kept laws s.registry user hmoves
    rw [hkept, hleft p]
    exact ⟨page, page, old, hrow, hrow, replaced_refl page, hattached.numbered, hstore,
      hattached, rfl⟩

/-- The pending changes of a page with a numbered view. -/
theorem pending_of_view {view : LegacyBagCollector V} (hview : s.view p = some view)
    (hnumbered : view.Numbered) : s.pending p = view.changes.map Change.unnumbered := by
  rw [State.pending, hview]
  dsimp only
  rw [hnumbered.drain_eq]

/-- A re-attachment keeps what is pending. -/
theorem Replaced.keeps {page page' : PageRow V} {left : List (LegacyBagCollector V)}
    (h : Replaced page page' left) (hrow : s.registry.page_register.get p = some page)
    (hrow' : s'.registry.page_register.get p = some page')
    (hnumbered : ∀ view ∈ page.user_view, view.Numbered)
    (hleft : s'.detached p = s.detached p ++ left) :
    s.detached p <+: s'.detached p ∧ s'.pending p = s.pending p ∧
      (s'.view p = s.view p ∧ s'.detached p = s.detached p ∨
        ∃ old, s.view p = some old ∧ s'.detached p = s.detached p ++ [old.detach]) := by
  have hview : s.view p = page.user_view := by rw [State.view, hrow, Option.bind_some]
  have hview' : s'.view p = page'.user_view := by rw [State.view, hrow', Option.bind_some]
  refine ⟨hleft ▸ List.prefix_append _ _, ?_, ?_⟩
  · rcases h with ⟨hsame, _⟩ | ⟨old, store, hold, hnew, _⟩
    · rw [State.pending, State.pending, hview, hview', hsame]
    · -- The fresh collector holds what the old one held.
      rw [pending_of_view (hview.trans hold) (hnumbered old hold),
        pending_of_view (hview'.trans hnew) (old.numbered_refed store _), old.changes_refed]
  · rcases h with ⟨hsame, hnone⟩ | ⟨old, store, hold, _, hone⟩
    · rw [hnone, List.append_nil] at hleft
      exact Or.inl ⟨hview'.trans (hsame.trans hview.symm), hleft⟩
    · rw [hone] at hleft
      exact Or.inr ⟨old, hview.trans hold, hleft⟩

/-- What a re-attachment leaves behind is detached. -/
theorem Replaced.detached {page page' : PageRow V} {left : List (LegacyBagCollector V)}
    (h : Replaced page page' left) : ∀ view ∈ left, view.attached = false := by
  rcases h with ⟨_, rfl⟩ | ⟨old, _, _, _, rfl⟩
  · intro view hview
    cases hview
  · intro view hview
    rw [List.mem_singleton] at hview
    rw [hview]
    rfl

/-- One action keeps a page's view where it belongs, and what is pending on it. -/
theorem Placed.step [PyValue V] {core : CoreRegister V} {stores : CoreStores V}
    (hcore : core.Relabels) (hstores : stores.Swaps) (h : Placed p cid s) {a : Act V}
    (hs : step core stores s a = some s') : Placed p cid s' ∧ KeepsPending p s a s' := by
  have hsame : ∀ {detached : List (LegacyBagCollector V)}, detached = s.detached p →
      s.detached p <+: detached := fun h => h ▸ List.prefix_rfl
  cases a with
  | setStoreSubscription q storename top active =>
    cases hs
    -- The owner and his store stay; only the prefixes of a row move.
    refine ⟨?_, hsame rfl, trivial⟩
    refine h.of_sameHomes (Registry.sameHomes_setStoreSubscription _ _ _ _ _) ?_ h.left
    intro store hstore hrow
    exact hrow.setStoreSubscription (hstore ▸ attached_keptBySubscriptions) q storename top active
  | replayFields q tables tops stores' =>
    cases hs
    refine ⟨?_, hsame rfl, trivial⟩
    refine h.of_sameHomes (Registry.sameHomes_replayFields _ _ _ _ _) ?_ h.left
    intro store hstore hrow
    exact hrow.replayFields (hstore ▸ attached_keptBySubscriptions) q tables tops stores'
  | changeConnectionUser connection_id user =>
    cases hs
    obtain ⟨page, page', store, hrow, hrow', hreplaced, hnumbered, hstore, hattached, hown⟩ :=
      h.login hcore connection_id user
    refine ⟨⟨⟨store, hstore, page', hrow', hattached⟩, hown, ?_⟩,
      hreplaced.keeps hrow hrow' hnumbered rfl⟩
    intro view hview
    rcases List.mem_append.1 hview with hold | hnew
    · exact h.left view hold
    · exact hreplaced.detached view hnew
  | installCarriedStore user store resident =>
    simp only [Views.step] at hs
    split_ifs at hs with harrives
    cases hs
    obtain ⟨page, page', bag, hrow, hrow', hreplaced, hnumbered, hstore, hattached, hsame⟩ :=
      h.install hstores user store resident harrives
    refine ⟨⟨⟨bag, hstore, page', hrow', hattached⟩, ?_, ?_⟩,
      hreplaced.keeps hrow hrow' hnumbered rfl⟩
    · dsimp only
      rw [hsame]
      exact h.own
    · intro view hview
      rcases List.mem_append.1 hview with hold | hnew
      · exact h.left view hold
      · exact hreplaced.detached view hnew
  | write bag events clock =>
    cases hs
    -- The old views are detached, and hear nothing.
    have hdeaf : (s.detached p).map (fun view => view.hear bag events fun i => clock i p) =
        s.detached p := by
      have hmap : (s.detached p).map (fun view => view.hear bag events fun i => clock i p) =
          (s.detached p).map id := by
        refine List.map_congr_left fun view hview => ?_
        exact LegacyBagCollector.hear_of_detached (h.left view hview) bag events _
      rw [hmap, List.map_id]
    refine ⟨?_, hsame hdeaf, trivial⟩
    refine h.of_sameHomes ?_ ?_ ?_
    · refine ⟨rfl, rfl, fun q => ?_⟩
      rw [Registry.mapPages, Dict.get_mapVals, Option.map_map]
      rfl
    · intro store _ hheld
      exact hheld.mapPages fun page hattached => hattached.hear bag events _
    · dsimp only
      rw [hdeaf]
      exact h.left
  | drain q =>
    simp only [Views.step] at hs
    cases hrow : s.registry.page_register.get q with
    | none =>
      rw [hrow] at hs
      cases hs
    | some page =>
      rw [hrow] at hs
      cases hs
      -- A drained view is the same view without its changes.
      refine ⟨?_, hsame rfl, trivial⟩
      refine h.of_sameHomes (Registry.sameHomes_setPage hrow rfl) ?_ h.left
      intro store _ hheld
      exact hheld.setPage hrow fun hattached => hattached.drained

end

/-- A page's view follows its owner's store and its prefixes. Take a newborn page of a connection,
and any run of store subscriptions, replays, logins, carried stores, writes and drains. In every
state of the run the page has no view and no prefix of the user store, or its view is attached to
the store of its present owner and captures what falls under the prefixes of the row; and its old
views are detached. Whatever action comes next, an old view stays as it was left, and a login or a
carried store keeps every pending change, in its order and once. -/
theorem view_follows_owner [PyValue V] (core : CoreRegister V) (stores : CoreStores V)
    (hcore : core.Relabels) (hstores : stores.Swaps) (registry : Registry V) (p : PageId)
    (cid : ConnectionId) (u : User)
    (hborn : registry.page_register.get p = some (PageRow.born cid))
    (howner : registry.pageUser p = some u)
    (hown : ∀ cid' connection, registry.connection_register.get cid' = some connection →
      (p ∈ connection.pages ↔ cid' = cid))
    (acts : List (Act V)) {s : State V}
    (hrun : run (step core stores) (start registry) acts = some s) :
    Follows p s ∧ ∀ a s', step core stores s a = some s' → KeepsPending p s a s' := by
  obtain ⟨user_item, huser⟩ := Option.isSome_iff_exists.1 (Registry.user_there howner)
  have hstart : Placed p cid (start registry) := {
    there := by
      refine ⟨user_item.store, ?_, PageRow.born cid, hborn, rfl, rfl, ?_⟩
      · rw [Registry.storeOf, start, howner, Option.bind_some, huser, Option.map_some]
      · intro view hview
        cases hview
    own := hown
    left := fun view hview => absurd hview List.not_mem_nil }
  have hplaced : Placed p cid s :=
    run_invariant' (fun _ _ _ h hs => (h.step hcore hstores hs).1) hstart hrun
  refine ⟨⟨?_, hplaced.left⟩, fun a s' hs => (hplaced.step hcore hstores hs).2⟩
  obtain ⟨store, hstore, page, hrow, hattached⟩ := hplaced.there
  exact ⟨page, store, hrow, hstore, hattached.watches⟩

/-! ## A concrete instance -/

namespace Sample

open Delivery.Sample

/-- A Bag that no user of a registry has. -/
def freshStore (registry : Registry Value) : BagId :=
  (registry.user_register.keys.sup fun u =>
    ((registry.user_register.get u).map UserRow.store).getD 0) + 1

/-- It is no user's. -/
theorem ne_freshStore {registry : Registry Value} {u : User} {row : UserRow}
    (h : registry.user_register.get u = some row) : row.store ≠ freshStore registry := by
  have hmem : u ∈ registry.user_register.keys := by
    rw [Dict.mem_keys, h]
    rfl
  have hle := Finset.le_sup (f := fun u =>
    ((registry.user_register.get u).map UserRow.store).getD 0) hmem
  rw [h, Option.map_some, Option.getD_some] at hle
  exact Nat.ne_of_lt (Nat.lt_succ_of_le hle)

/-- The registry with a user, who is born with a Bag of his own if he has no row. -/
def withUser (registry : Registry Value) (user : User) : Registry Value :=
  if h : (registry.user_register.get user).isSome = true then registry
  else { registry with
    user_register := registry.user_register.set user ⟨freshStore registry⟩
    owner_there := by
      intro cid row hrow
      rw [Dict.get_set]
      split_ifs
      · rfl
      · exact registry.owner_there cid row hrow
    own_store := by
      intro u v row row' hu hv heq
      rw [Dict.get_set] at hu hv
      split_ifs at hu hv with h₁ h₂ h₂
      · rw [h₁, h₂]
      · cases hu
        exact absurd heq.symm (ne_freshStore hv)
      · cases hv
        exact absurd heq (ne_freshStore hu)
      · exact registry.own_store u v row row' hu hv heq }

/-- A user who is there keeps his row. -/
theorem get_withUser {registry : Registry Value} {u : User}
    (h : (registry.user_register.get u).isSome = true) (user : User) :
    (withUser registry user).user_register.get u = registry.user_register.get u := by
  unfold withUser
  split_ifs with hthere
  · rfl
  · dsimp only
    rw [Dict.get_set, if_neg]
    rintro rfl
    exact hthere h

/-- The user who may be born is there. -/
theorem isSome_withUser (registry : Registry Value) (user : User) :
    ((withUser registry user).user_register.get user).isSome = true := by
  unfold withUser
  split_ifs with hthere
  · exact hthere
  · dsimp only
    rw [Dict.get_set, if_pos rfl]
    rfl

/-- A core that re-labels a connection to a user, who is born if he is not there. -/
def loginCore : CoreRegister Value where
  dropPage := core.dropPage
  dropPageAlone := core.dropPageAlone
  dropConnection := core.dropConnection
  changeConnectionUser registry connection_id user :=
    match registry.connection_register.get connection_id with
    | none => registry
    | some connection =>
      { withUser registry user with
        connection_register :=
          registry.connection_register.set connection_id { connection with user := user }
        owner_there := by
          intro cid row hrow
          rw [Dict.get_set] at hrow
          split_ifs at hrow
          · cases hrow
            exact isSome_withUser registry user
          · have hthere := registry.owner_there cid row hrow
            rw [get_withUser hthere]
            exact hthere }

/-- This core re-labels as the bridge expects. -/
theorem loginCore_relabels : loginCore.Relabels where
  unknown := by
    intro registry cid user h
    simp only [loginCore, h]
  pages := by
    intro registry cid user
    unfold loginCore withUser
    dsimp only
    split
    · rfl
    · dsimp only
      split_ifs
      · rfl
      · rfl
  label := by
    intro registry cid user row h
    simp only [loginCore, h, Dict.get_set, if_true]
  others := by
    intro registry cid user cid' hne
    unfold loginCore
    dsimp only
    split
    · rfl
    · dsimp only
      rw [Dict.get_set, if_neg hne]
  stores := by
    intro registry cid user cid' row _ hrow
    have hthere := registry.owner_there cid' row hrow
    unfold loginCore
    dsimp only
    split
    · rfl
    · exact congrArg _ (get_withUser hthere user)

/-- A core that puts a Bag that is nobody else's under the row of a user. -/
def carryingCore : CoreStores Value where
  installCarriedStore registry user store resident :=
    match store, resident with
    | some bag, false =>
      if h : arrives registry user (some bag) = true then
        { registry with
          user_register := registry.user_register.set user ⟨bag⟩
          owner_there := by
            intro cid row hrow
            rw [Dict.get_set]
            split_ifs
            · rfl
            · exact registry.owner_there cid row hrow
          own_store := by
            have hfresh := arrives_fresh h
            intro u v row row' hu hv heq
            rw [Dict.get_set] at hu hv
            split_ifs at hu hv with h₁ h₂ h₂
            · rw [h₁, h₂]
            · cases hu
              exact absurd (hfresh v row' hv heq.symm) h₂
            · cases hv
              exact absurd (hfresh u row hu heq) h₁
            · exact registry.own_store u v row row' hu hv heq }
      else registry
    | _, _ => registry

/-- This core swaps as the bridge expects. -/
theorem carryingCore_swaps : carryingCore.Swaps where
  pages := by
    intro registry user store resident
    unfold carryingCore
    dsimp only
    split
    · split_ifs
      · rfl
      · rfl
    · rfl
  connections := by
    intro registry user store resident
    unfold carryingCore
    dsimp only
    split
    · split_ifs
      · rfl
      · rfl
    · rfl
  kept := by
    rintro registry user store resident (rfl | rfl)
    · rfl
    · cases store with
      | none => rfl
      | some bag => rfl
  installed := by
    intro registry user row bag hrow hfresh u
    have harrives : arrives registry user (some bag) = true := by
      rw [arrives, Bool.and_eq_true, decide_eq_true_eq, hrow]
      refine ⟨rfl, fun v _ hne hbag => ?_⟩
      obtain ⟨row', hv, hbag'⟩ := Option.map_eq_some_iff.1 hbag
      exact hne (hfresh v row' hv hbag')
    simp only [carryingCore, dif_pos harrives, Dict.get_set]
    split_ifs
    · rfl
    · rfl

/-- The sample page is one of its own connection and of no other one. -/
theorem own_registry : ∀ cid connection,
    (registry ["p"]).connection_register.get cid = some connection →
      ("p" ∈ connection.pages ↔ cid = "c") := by
  intro cid connection hconnection
  have hget : (Dict.set (∅ : Dict ConnectionId ConnectionRow) "c" ⟨"u", {"p"}⟩).get cid =
      some connection := hconnection
  rw [Dict.get_set] at hget
  split_ifs at hget with hcid
  · cases hget
    simp [hcid]
  · simp at hget

/-- A prefix is opened and a write captured; the connection logs in as a user who is born; his
carried store arrives; and the prefix is closed. -/
def acts : List (Act Value) :=
  [.setStoreSubscription "p" .user "a" true,
    .write 0 [⟨"a", ∅, some 1, [], .ins, none⟩] fun _ _ => 1,
    .changeConnectionUser "c" "v", .installCarriedStore "v" (some 7) false,
    .setStoreSubscription "p" .user "a" false]

end Sample

/-- The view of a page that went through a login and a carried store. -/
theorem view_follows_owner_login :
    ∃ s, run (step Sample.loginCore Sample.carryingCore)
        (start (Delivery.Sample.registry ["p"])) Sample.acts = some s ∧
      Follows "p" s ∧ ∀ a s', step Sample.loginCore Sample.carryingCore s a = some s' →
        KeepsPending "p" s a s' := by
  refine ⟨_, rfl, ?_⟩
  exact view_follows_owner Sample.loginCore Sample.carryingCore Sample.loginCore_relabels
    Sample.carryingCore_swaps (Delivery.Sample.registry ["p"]) "p" "c" "u" rfl rfl
    Sample.own_registry Sample.acts rfl

end GenropyAsgi.Views
