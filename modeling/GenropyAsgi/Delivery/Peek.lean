import GenropyAsgi.Delivery.Readers
import GenropyAsgi.Views.Following

/-!
# The peek agrees with the pull

The two readers agree on a page exactly when nothing of it waits at the desk, no STATE write waiting
there would be heard by its view, and what its row and its view hold has arrived in the order in
which it was written. The runs are those of one worker under a wall clock that does not go back; the
desk serves CALLs and exchanges as it likes in between, whoever placed them.
-/

namespace GenropyAsgi.Peek

open Library Delivery

variable {V B : Type}

/-- The state of the machine. -/
structure State (V B : Type) where
  /-- The worker. -/
  worker : Worker V B
  /-- The desk. -/
  desk : DeliveryDesk V
  /-- The worker's clock at its last reading. -/
  clock : Instant

/-- The actions. -/
inductive Act (V B : Type) where
  /-- A verb of the site, up to its CALL; a thread outside any request speaks for nobody. -/
  | write (identity : Option User) (message : Message V) (now : Instant)
  /-- The desk serves an addressed write, of this worker or of another one. -/
  | serve (population : Population) (message : Message V) (now : Instant)
  /-- A write of a page's own store, heard by its capture. -/
  | capture (page_id : PageId) (event : BagEvent V) (written arrived : Instant)
  /-- A write of the site on the store of a user, heard by the views on it. -/
  | siteWrite (bag : BagId) (written : B × List (BagEvent V)) (clock : ℕ → PageId → Instant)
      (now : Instant)
  /-- The desk serves the exchange of a collect. -/
  | exchange (page_id : PageId) (user : User) (dbevents : List (DbEvent V × Instant))
  /-- The final critical section of a collect. -/
  | finish (page_id : PageId) (user : User) (reply : ExchangeReply V)
      (own_dbevents : List (DbEvent V)) (clock : ℕ → PageId → Instant) (now : Instant)
  /-- `setStoreSubscription`. -/
  | setStoreSubscription (page_id : PageId) (storename : StoreName) (top : String) (active : Bool)
  /-- `change_connection_user`. -/
  | changeConnectionUser (connection_id : ConnectionId) (user : User)
  /-- `_install_carried_store`. -/
  | installCarriedStore (user : User) (store : Option BagId) (resident : Bool)
  /-- A peek. -/
  | peek (register_item_id : String) (register_name : Option String)

/-- The worker after a verb of the site. The user of no page is nobody, so that a write for nobody
acts on no row. -/
def routed (worker : Worker V B) (identity : Option User) (message : Message V) (now : Instant) :
    Worker V B :=
  match identity with
  | none => worker
  | some identity => (worker.routeDatachange identity message now).1

/-- The worker with its registry moved. -/
def State.withRegistry (s : State V B) (registry : Registry V) : State V B :=
  { s with worker := { s.worker with registry := registry } }

/-- One action. -/
def step [PyValue V] [LegacyBag B V] (core : CoreRegister V) (stores : CoreStores V)
    (s : State V B) : Act V B → Option (State V B)
  | .write identity message now =>
    some { s with worker := routed s.worker identity message now, clock := now }
  | .serve population message now =>
    some { s with desk := (s.desk.onDatachange population message now).1 }
  | .capture page_id event written arrived =>
    some { s with worker := s.worker.capture page_id event written arrived, clock := arrived }
  | .siteWrite bag written clock now =>
    some { s with
      worker := { s.worker with
        bags := fun b => if b = bag then written.1 else s.worker.bags b
        registry := s.worker.registry.mapPages fun page_id page =>
          page.hear bag written.2 fun i => clock i page_id }
      clock := now }
  | .exchange page_id user dbevents =>
    some { s with desk := (s.desk.exchange page_id user dbevents).1 }
  | .finish page_id user reply own_dbevents clock now =>
    some { s with
      worker := (s.worker.collectFinish page_id user reply own_dbevents clock).1
      clock := now }
  | .setStoreSubscription page_id storename top active =>
    some (s.withRegistry (s.worker.registry.setStoreSubscription page_id storename top active).1)
  | .changeConnectionUser connection_id user =>
    some (s.withRegistry (s.worker.registry.changeConnectionUser core connection_id user))
  | .installCarriedStore user store resident =>
    some (s.withRegistry (s.worker.registry.installCarriedStore stores user store resident))
  | .peek register_item_id register_name =>
    some { s with worker := (pendingDatachanges s.worker register_item_id register_name).1 }

/-- The readings of the clock by the captures of one write, between two instants. -/
structure Readings (past : Instant) (clock : ℕ → PageId → Instant) (now : Instant) : Prop where
  /-- None is before the one, -/
  after : ∀ i q, past ≤ clock i q
  /-- none after the other, -/
  before : ∀ i q, clock i q ≤ now
  /-- and none before an earlier one. -/
  forward : ∀ i q, clock i q ≤ clock (i + 1) q

/-- No instant before the readings is after them. -/
theorem Readings.past_le {past now : Instant} {clock : ℕ → PageId → Instant}
    (h : Readings past clock now) : past ≤ now :=
  le_trans (h.after 0 "") (h.before 0 "")

/-- The same readings, since an earlier instant. -/
theorem Readings.since {past earlier now : Instant} {clock : ℕ → PageId → Instant}
    (h : Readings past clock now) (hearlier : earlier ≤ past) : Readings earlier clock now where
  after := fun i q => le_trans hearlier (h.after i q)
  before := h.before
  forward := h.forward

/-- The worker's clock does not go back. -/
def Timely (s : State V B) : Act V B → Prop
  | .write _ _ now => s.clock ≤ now
  | .capture _ _ _ arrived => s.clock ≤ arrived
  | .siteWrite _ _ clock now => Readings s.clock clock now
  | .finish _ _ _ _ clock now => Readings s.clock clock now
  | _ => True

/-! ## The order of what a page holds -/

/-- A view whose changes are in the order of writing, up to an instant. -/
structure SettledView (clock : Instant) (view : LegacyBagCollector V) : Prop where
  /-- They are in order. -/
  sorted : view.changes.Pairwise fun x y => x.change_ts ≤ y.change_ts
  /-- None is later than the instant. -/
  past : ∀ x ∈ view.changes, x.change_ts ≤ clock
  /-- They are numbered in that order. -/
  numbered : view.Numbered

/-- A row whose queue is in the order of arrival, and its view in the order of writing, up to an
instant. -/
structure Settled (clock : Instant) (page : PageRow V) : Prop where
  /-- The queue is in order. -/
  sorted : page.datachanges.Pairwise Earlier
  /-- None of it arrived later than the instant. -/
  past : ∀ x ∈ page.datachanges, x.arrivalOrder ≤ clock
  /-- So it is with the view. -/
  view : ∀ view ∈ page.user_view, SettledView clock view

section

variable {clock now : Instant} {page : PageRow V} {view : LegacyBagCollector V}

/-- A newborn row holds nothing. -/
theorem settled_born (clock : Instant) (cid : ConnectionId) :
    Settled clock (PageRow.born cid : PageRow V) where
  sorted := List.Pairwise.nil
  past := fun _ h => absurd h List.not_mem_nil
  view := fun _ h => absurd h (Option.not_mem_none _)

/-- A view without changes. -/
theorem SettledView.of_nil (hnil : view.changes = []) (hnumbered : view.Numbered) :
    SettledView clock view where
  sorted := hnil ▸ List.Pairwise.nil
  past := by
    rw [hnil]
    exact fun _ h => absurd h List.not_mem_nil
  numbered := hnumbered

/-- Later on the view is in order too. -/
theorem SettledView.later (h : SettledView clock view) (hnow : clock ≤ now) :
    SettledView now view where
  sorted := h.sorted
  past := fun x hx => le_trans (h.past x hx) hnow
  numbered := h.numbered

/-- So is the row. -/
theorem Settled.later (h : Settled clock page) (hnow : clock ≤ now) : Settled now page where
  sorted := h.sorted
  past := fun x hx => le_trans (h.past x hx) hnow
  view := fun view hview => (h.view view hview).later hnow

/-- A capture of the view is written now. -/
theorem SettledView.onEvent [PyValue V] (h : SettledView clock view) (hnow : clock ≤ now)
    (event : BagEvent V) : SettledView now (view.onEvent event now) := by
  refine ⟨?_, ?_, h.numbered.onEvent event now⟩
  -- What is deposited is written now, after all that the view holds.
  · unfold LegacyBagCollector.onEvent
    split_ifs
    · refine List.pairwise_append.2 ⟨h.sorted, List.pairwise_singleton _ _, ?_⟩
      intro x hx y hy
      rw [List.mem_singleton] at hy
      rw [hy]
      exact le_trans (h.past x hx) hnow
    · exact h.sorted
  · unfold LegacyBagCollector.onEvent
    split_ifs
    · intro x hx
      rcases List.mem_append.1 hx with hold | hnew
      · exact le_trans (h.past x hold) hnow
      · rw [List.mem_singleton] at hnew
        rw [hnew]
        exact le_refl now
    · exact fun x hx => le_trans (h.past x hx) hnow

/-- The captures of one write read the clock one after another. -/
theorem SettledView.foldl_onEvent [PyValue V] {clock : ℕ → Instant}
    (hforward : ∀ i, clock i ≤ clock (i + 1)) (hbefore : ∀ i, clock i ≤ now) :
    ∀ (events : List (BagEvent V)) (n : ℕ) {past : Instant} {view : LegacyBagCollector V},
      SettledView past view → past ≤ clock n →
        SettledView now ((events.zipIdx n).foldl
          (fun view event => view.onEvent event.1 (clock event.2)) view)
  | [], n, _, _, h, hpast => h.later (le_trans hpast (hbefore n))
  | event :: events, n, _, _, h, hpast => by
    -- The reading of this event is the bound on what the view holds for the next one.
    rw [List.zipIdx_cons, List.foldl_cons]
    exact foldl_onEvent hforward hbefore events (n + 1) (h.onEvent hpast event) (hforward n)

/-- A view that hears the events of one write. -/
theorem SettledView.hear [PyValue V] {readings : ℕ → PageId → Instant}
    (h : SettledView clock view) (hclock : Readings clock readings now) (q : PageId)
    (bag : BagId) (events : List (BagEvent V)) :
    SettledView now (view.hear bag events fun i => readings i q) := by
  unfold LegacyBagCollector.hear
  split_ifs
  · exact SettledView.foldl_onEvent (fun i => hclock.forward i q) (fun i => hclock.before i q)
      events 0 h (hclock.after 0 q)
  · exact h.later (le_trans (hclock.after 0 q) (hclock.before 0 q))

/-- A view that is fed again holds its changes in the same order. -/
theorem SettledView.refed (h : SettledView clock view) (store : BagId) (paths : Finset String) :
    SettledView clock (view.refed store paths) := by
  have hsame := view.changes_refed store paths
  -- Only the numbers are new: the instants of writing come in the same order.
  have hts : (view.refed store paths).changes.map Change.change_ts =
      view.changes.map Change.change_ts := by
    have h' := congrArg (List.map Change.change_ts) hsame
    rw [List.map_map, List.map_map] at h'
    exact h'
  refine ⟨?_, ?_, view.numbered_refed store paths⟩
  · have hsorted : (view.changes.map Change.change_ts).Pairwise (· ≤ ·) :=
      List.pairwise_map.2 h.sorted
    rw [← hts] at hsorted
    exact List.pairwise_map.1 hsorted
  · intro x hx
    have hmem : x.change_ts ∈ view.changes.map Change.change_ts := by
      rw [← hts]
      exact List.mem_map_of_mem hx
    obtain ⟨y, hy, heq⟩ := List.mem_map.1 hmem
    rw [← heq]
    exact h.past y hy

/-- A queue in order whose pending changes are thinned out and which then grows by a change that
arrives now. -/
theorem sorted_append_now {queue rest : List (Change V)} (hsorted : queue.Pairwise Earlier)
    (hpast : ∀ x ∈ queue, x.arrivalOrder ≤ clock) (hrest : rest.Sublist queue)
    (hnow : clock ≤ now) {change : Change V} (hchange : change.arrivalOrder = now) :
    (rest ++ [change]).Pairwise Earlier ∧
      ∀ x ∈ rest ++ [change], x.arrivalOrder ≤ now := by
  have hold : ∀ x ∈ rest, x.arrivalOrder ≤ now :=
    fun x hx => le_trans (hpast x (hrest.subset hx)) hnow
  have hnew : ∀ x ∈ [change], x.arrivalOrder = now := by
    intro x hx
    rw [List.mem_singleton] at hx
    rw [hx]
    exact hchange
  refine ⟨pairwise_grow (hsorted.sublist hrest) hold hnew, ?_⟩
  intro x hx
  rcases List.mem_append.1 hx with hx | hx
  · exact hold x hx
  · exact le_of_eq (hnew x hx)

/-- A row after the append of a change that arrives now. -/
theorem Settled.append (h : Settled clock page) (hnow : clock ≤ now) (change : Change V)
    (replace : Bool) : Settled now (page.appendPageDatachange change replace now) := by
  have hrest : (if replace then
      page.datachanges.filter fun pending => decide (pending.key ≠ change.key)
    else page.datachanges).Sublist page.datachanges := by
    split_ifs
    · exact List.filter_sublist
    · exact List.Sublist.refl _
  have harrives : ({ change with change_idx := page.datachanges_idx + 1, arrival_ts := some now } :
      Change V).arrivalOrder = now := rfl
  obtain ⟨hsorted, hpast⟩ := sorted_append_now h.sorted h.past hrest hnow harrives
  exact ⟨hsorted, hpast, fun view hview => (h.view view hview).later hnow⟩

/-- A row on which a verb acts now. -/
theorem Settled.actOnRow (h : Settled clock page) (hnow : clock ≤ now) (op : Op V) :
    Settled now (page.actOnRow now op).1 := by
  cases op with
  | resetDatachanges =>
    -- The queue is emptied, and the view is left alone.
    exact ⟨List.Pairwise.nil, fun _ hx => absurd hx List.not_mem_nil,
      fun view hview => (h.view view hview).later hnow⟩
  | dropDatachanges path =>
    refine ⟨h.sorted.filter _, ?_, fun view hview => (h.view view hview).later hnow⟩
    exact fun x hx => le_trans (h.past x (List.mem_filter.1 hx).1) hnow
  | setDatachange change replace =>
    cases change with
    | none => exact h.later hnow
    | some change => exact h.append hnow change replace

/-- A row whose view is replaced by one in order, and whose queue is the same or empty. -/
theorem Settled.of_view {page' : PageRow V} (h : Settled clock page) (hnow : clock ≤ now)
    (hqueue : page'.datachanges = page.datachanges ∨ page'.datachanges = [])
    (hview : ∀ view ∈ page'.user_view, SettledView now view) : Settled now page' := by
  rcases hqueue with hqueue | hqueue
  · refine ⟨hqueue ▸ h.sorted, ?_, hview⟩
    rw [hqueue]
    exact fun x hx => le_trans (h.past x hx) hnow
  · refine ⟨hqueue ▸ List.Pairwise.nil, ?_, hview⟩
    rw [hqueue]
    exact fun _ hx => absurd hx List.not_mem_nil

/-- A row that hears. -/
theorem Settled.hear [PyValue V] {readings : ℕ → PageId → Instant} (h : Settled clock page)
    (hclock : Readings clock readings now) (q : PageId) (bag : BagId)
    (events : List (BagEvent V)) :
    Settled now (page.hear bag events fun i => readings i q) := by
  refine h.of_view (le_trans (hclock.after 0 q) (hclock.before 0 q)) (Or.inl rfl) ?_
  intro view hview
  rw [PageRow.hear_user_view, Option.mem_map] at hview
  obtain ⟨old, hold, rfl⟩ := hview
  exact (h.view old hold).hear hclock q bag events

/-- A drained row. -/
theorem Settled.drained (h : Settled clock page) : Settled clock page.drained := by
  refine h.of_view (le_refl clock) (Or.inr rfl) ?_
  intro view hview
  obtain ⟨old, _, rfl⟩ := Option.mem_map.1 (show view ∈ page.user_view.map _ from hview)
  exact SettledView.of_nil rfl old.numbered_drain

/-- A row that follows a new owner. -/
theorem Settled.follow (h : Settled clock page) (store : BagId) :
    Settled clock (page.follow store) := by
  refine h.of_view (le_refl clock) (Or.inl rfl) ?_
  intro view hview
  rw [PageRow.follow_user_view, Option.mem_map] at hview
  obtain ⟨old, hold, rfl⟩ := hview
  split_ifs
  · exact h.view old hold
  · exact (h.view old hold).refed store page.store_subscriptions

/-- A row that is re-attached. -/
theorem Settled.reattach (h : Settled clock page) (store : BagId) :
    Settled clock (page.reattach store) := by
  refine h.of_view (le_refl clock) (Or.inl rfl) ?_
  intro view hview
  obtain ⟨old, hold, rfl⟩ := Option.mem_map.1 (show view ∈ page.user_view.map _ from hview)
  exact (h.view old hold).refed store page.store_subscriptions

/-- The subscriptions of a page move no pending change. -/
theorem settled_keptBySubscriptions (store : Option BagId) :
    Registry.KeptBySubscriptions store (Settled (V := V) clock) where
  sets := fun page _ _ h => ⟨h.sorted, h.past, h.view⟩
  missed := fun page _ h _ _ => ⟨h.sorted, h.past, h.view⟩
  opened := by
    intro page top bag h _
    refine h.of_view (le_refl clock) (Or.inl rfl) ?_
    intro view hview
    cases hold : page.user_view with
    | none =>
      simp only [PageRow.subscribeStore, hold] at hview
      cases hview
      exact SettledView.of_nil rfl (LegacyBagCollector.numbered_new bag _)
    | some old =>
      simp only [PageRow.subscribeStore, hold] at hview
      cases hview
      have hview := h.view old hold
      exact ⟨hview.sorted, hview.past, hview.numbered.increasing, hview.numbered.bounded⟩
  closed := by
    intro page top h
    refine h.of_view (le_refl clock) (Or.inl rfl) ?_
    intro view hview
    obtain ⟨old, hold, rfl⟩ := Option.mem_map.1 (show view ∈ page.user_view.map _ from hview)
    have hview := h.view old hold
    exact ⟨hview.sorted, hview.past, hview.numbered.increasing, hview.numbered.bounded⟩

/-! ## The runs -/

/-- A page whose row is settled. -/
def PageSettled (p : PageId) (s : State V B) : Prop :=
  Registry.RowHolds p (Settled s.clock) s.worker.registry

/-- A row after a final critical section of some page: it has heard, and has been drained if it is
that page's. -/
theorem rowHolds_collectFinish [PyValue V] [LegacyBag B V] {p : PageId} {P Q : PageRow V → Prop}
    {worker : Worker V B} (h : Registry.RowHolds p P worker.registry)
    {clock : ℕ → PageId → Instant} (hPQ : ∀ page, P page → Q page)
    (hhear : ∀ page bag events, P page → Q (page.hear bag events fun i => clock i p))
    (hdrained : ∀ page, Q page → Q page.drained) (page_id : PageId) (user : User)
    (reply : ExchangeReply V) (own_dbevents : List (DbEvent V)) :
    Registry.RowHolds p Q
      (worker.collectFinish page_id user reply own_dbevents clock).1.registry := by
  unfold Worker.collectFinish
  split
  · exact h.imp hPQ
  · next row hrow =>
    split
    · exact h.imp hPQ
    · next user_item huser =>
      have hheard : Registry.RowHolds p Q (worker.applyStoreChanges user_item.store
          reply.store_changes clock).registry :=
        h.mapPages fun page hpage => hhear page _ _ hpage
      dsimp only
      have hget := worker.get_applyStoreChanges user_item.store reply.store_changes clock page_id
      rw [hrow, Option.map_some] at hget
      -- The page of the section is drained after it has heard.
      exact hheard.setPage hget (hdrained _)

/-- A peek leaves the row as it is. -/
theorem peeked_eq (page : PageRow V) : peeked page = page := by
  have hview : page.user_view.map (fun view => (drain view false).1) = page.user_view := by
    cases page.user_view with
    | none => rfl
    | some view => rfl
  unfold peeked
  congr 1

/-- A peek leaves the worker as it is. -/
theorem pendingDatachanges_fst (worker : Worker V B) (register_item_id : String)
    (register_name : Option String) :
    (pendingDatachanges worker register_item_id register_name).1 = worker := by
  unfold pendingDatachanges
  split_ifs
  · split
    · rfl
    · next page hrow =>
      have hset : worker.registry.setPage register_item_id page = worker.registry := by
        have hregister : worker.registry.page_register.set register_item_id page =
            worker.registry.page_register := by
          refine Dict.ext fun q => ?_
          rw [Dict.get_set]
          split_ifs with hq
          · rw [hq, hrow]
          · rfl
        unfold Registry.setPage
        congr 1
      dsimp only
      rw [peeked_eq, hset]
  · rfl

/-- One action keeps a page settled, under a clock that does not go back. -/
theorem PageSettled.step [PyValue V] [LegacyBag B V] {core : CoreRegister V}
    {stores : CoreStores V} (hcore : core.Relabels) (hstores : stores.Swaps) {p : PageId}
    {s s' : State V B} (h : PageSettled p s) {a : Act V B} (ha : Timely s a)
    (hs : Peek.step core stores s a = some s') : PageSettled p s' := by
  cases a with
  | write identity message now =>
    cases hs
    have hnow : s.clock ≤ now := ha
    have hlater : Registry.RowHolds p (Settled now) s.worker.registry :=
      h.imp fun page hpage => hpage.later hnow
    cases identity with
    | none => exact hlater
    | some identity =>
      unfold PageSettled
      dsimp only [routed]
      -- The write acts on a row, on the spot, or it leaves the worker as it is.
      rcases s.worker.routeDatachange_cases identity message now with
        ⟨target, page, _, _, _, hrow, _, heq⟩ | ⟨error, heq⟩ | heq
      · rw [heq]
        exact h.replace hlater hrow fun hpage => hpage.actOnRow hnow message.op
      · rw [heq]
        exact hlater
      · rw [heq]
        exact hlater
  | serve population message now =>
    cases hs
    exact h
  | capture q event written arrived =>
    cases hs
    have hnow : s.clock ≤ arrived := ha
    have hlater : Registry.RowHolds p (Settled arrived) s.worker.registry :=
      h.imp fun page hpage => hpage.later hnow
    unfold PageSettled
    dsimp only [Worker.capture]
    split
    · exact hlater
    · next page hrow =>
      refine h.replace hlater hrow fun hpage => ?_
      unfold PageRow.onEvent
      split_ifs
      · exact hpage.append hnow _ false
      · exact hpage.later hnow
  | siteWrite bag written clock now =>
    cases hs
    exact h.mapPages fun page hpage => hpage.hear ha p bag written.2
  | exchange q user dbevents =>
    cases hs
    exact h
  | finish q user reply own_dbevents clock now =>
    cases hs
    have hnow : s.clock ≤ now := ha.past_le
    exact rowHolds_collectFinish h (fun page hpage => hpage.later hnow)
      (fun page bag events hpage => hpage.hear ha p bag events) (fun page hpage => hpage.drained)
      q user reply own_dbevents
  | setStoreSubscription q storename top active =>
    cases hs
    exact h.setStoreSubscription (settled_keptBySubscriptions _) q storename top active
  | changeConnectionUser connection_id user =>
    cases hs
    exact h.changeConnectionUser hcore (fun page store hpage => hpage.follow store)
      connection_id user
  | installCarriedStore user store resident =>
    cases hs
    exact h.installCarriedStore hstores (fun page store hpage => hpage.reattach store)
      user store resident
  | peek register_item_id register_name =>
    cases hs
    unfold PageSettled
    dsimp only
    rw [pendingDatachanges_fst]
    exact h

end

/-! ## The pull from a reachable state -/

/-- What a collector adds to its pending changes as it hears the events of a write: nothing but
autocreated parents exactly when everything else is outside its prefixes. -/
theorem foldl_onEvent_appends [PyValue V] (clock : ℕ → Instant) :
    ∀ (events : List (BagEvent V)) (n : ℕ) (view : LegacyBagCollector V),
      ∃ heard, ((events.zipIdx n).foldl
          (fun view event => view.onEvent event.1 (clock event.2)) view).changes =
            view.changes ++ heard ∧
        (kept heard = [] ↔ ∀ event ∈ events, view.captures event.path = true →
          event.reason = some "autocreate")
  | [], n, view => ⟨[], by simp, by simp [kept]⟩
  | event :: events, n, view => by
    obtain ⟨heard, hchanges, hkept⟩ :=
      foldl_onEvent_appends clock events (n + 1) (view.onEvent event (clock n))
    -- The prefixes stay as they are.
    have hcaptures : (view.onEvent event (clock n)).captures = view.captures := by
      funext path
      unfold LegacyBagCollector.captures
      rw [(view.onEvent_frame event (clock n)).2.1]
    rw [hcaptures] at hkept
    rw [List.zipIdx_cons, List.foldl_cons]
    by_cases hcaptured : view.captures event.path = true
    · -- The event is deposited.
      refine ⟨{ event.change event.reason (clock n) with change_idx := view.change_idx + 1 } ::
        heard, ?_, ?_⟩
      · rw [hchanges, LegacyBagCollector.onEvent, if_pos hcaptured]
        simp [LegacyBagCollector.deposit]
      · rw [List.forall_mem_cons, ← hkept]
        by_cases hreason : event.reason = some "autocreate"
        · simp [kept, isAutocreate, BagEvent.change, hreason]
        · simp [kept, isAutocreate, BagEvent.change, hreason, hcaptured]
    · refine ⟨heard, ?_, ?_⟩
      · rw [hchanges, LegacyBagCollector.onEvent, if_neg hcaptured]
      · rw [hkept, List.forall_mem_cons]
        simp [hcaptured]

/-- What the view of a settled row holds after it has heard the events of a store. -/
theorem viewChanges_hear [PyValue V] {past : Instant} {page : PageRow V} (h : Settled past page)
    (store : BagId) (events : List (BagEvent V)) (clock : ℕ → Instant) :
    ∃ heard, (page.hear store events clock).viewChanges = page.viewChanges ++ heard ∧
      (kept heard = [] ↔ Unheard page store events) := by
  unfold PageRow.viewChanges Unheard
  rw [page.hear_user_view store events clock]
  cases hview : page.user_view with
  | none => exact ⟨[], rfl, by simp [kept]⟩
  | some view =>
    have hnumbered := (h.view view hview).numbered
    rw [Option.map_some]
    dsimp only
    rw [(hnumbered.hear store events clock).drain_eq, hnumbered.drain_eq]
    by_cases hattached : view.bag = store ∧ view.attached = true
    · obtain ⟨heard, hchanges, hkept⟩ := foldl_onEvent_appends clock events 0 view
      refine ⟨heard, ?_, ?_⟩
      · rw [LegacyBagCollector.hear, if_pos hattached]
        exact hchanges
      · rw [hkept]
        simp [hattached.1, hattached.2]
    · refine ⟨[], ?_, ?_⟩
      · rw [LegacyBagCollector.hear, if_neg hattached, List.append_nil]
      · constructor
        · rintro _ _ ⟨⟩ hbag hon
          exact absurd ⟨hbag, hon⟩ hattached
        · exact fun _ => rfl

/-- The changes of a settled row's view are in the order of arrival, which for them is that of
writing. -/
theorem Settled.viewChanges {past : Instant} {page : PageRow V} (h : Settled past page) :
    page.viewChanges.Pairwise Earlier ∧
      ∀ change ∈ page.viewChanges, change.arrivalOrder = change.change_ts := by
  have hts : ∀ change ∈ page.viewChanges, change.arrivalOrder = change.change_ts := by
    intro change hchange
    unfold PageRow.viewChanges at hchange
    cases hview : page.user_view with
    | none =>
      rw [hview] at hchange
      cases hchange
    | some view =>
      rw [hview] at hchange
      have hmem := view.drain_perm.mem_iff.1 hchange
      unfold Change.arrivalOrder
      rw [page.unstamped view hview change hmem]
  refine ⟨?_, hts⟩
  have hsorted : page.viewChanges.Pairwise fun x y => x.change_ts ≤ y.change_ts := by
    unfold PageRow.viewChanges
    cases hview : page.user_view with
    | none => exact List.Pairwise.nil
    | some view =>
      have hsettled := h.view view hview
      dsimp only
      rw [hsettled.numbered.drain_eq]
      exact hsettled.sorted
  refine List.Pairwise.imp_of_mem ?_ hsorted
  intro x y hx hy hxy
  rw [Earlier, hts x hx, hts y hy]
  exact hxy

/-- The pull of a page that has an owner. -/
theorem collectLocalDatachanges_eq [PyValue V] [LegacyBag B V] {worker : Worker V B}
    (desk : DeliveryDesk V) {p : PageId} {u : User} {page : PageRow V} {user_item : UserRow}
    (hrow : worker.registry.page_register.get p = some page)
    (howner : worker.registry.pageUser p = some u)
    (huser : worker.registry.user_register.get u = some user_item)
    (dbevents : List (DbEvent V × Instant)) (own_dbevents : List (DbEvent V))
    (clock : ℕ → PageId → Instant) :
    collectLocalDatachanges p (worker, desk) dbevents own_dbevents clock =
      .ok (dressed (Worker.mergedDatachanges (page.hear user_item.store
          (applyEach (worker.bags user_item.store) (desk.storeChangesFor u)).2
            fun i => clock i p) (desk.datachangesFor p)),
        desk.dbeventsFor p ++ desk.heardBy p dbevents ++ own_dbevents) := by
  simp only [collectLocalDatachanges, collectPage, Worker.collectLookup_of_pageUser howner,
    Worker.collectFinish, hrow, huser, DeliveryDesk.exchange_reply]

/-- The peek of a page. -/
theorem pendingDatachanges_snd {worker : Worker V B} {p : PageId} {page : PageRow V}
    (hrow : worker.registry.page_register.get p = some page) :
    (pendingDatachanges worker p (some "page")).2 =
      dressed (sortOn Change.change_ts (page.datachanges ++ page.viewChanges)) := by
  unfold pendingDatachanges
  rw [if_pos (Or.inr (Or.inr rfl)), hrow]
  dsimp only
  cases hview : page.user_view with
  | none =>
    simp only [PageRow.viewChanges, hview]
    rfl
  | some view =>
    simp only [PageRow.viewChanges, hview]
    rfl

/-- The peek agrees with the pull. Take a page from its birth and any run of the worker and of the
desk, under a clock of the worker that does not go back. In the state reached, in which the page has
an owner, the pull answers; the datachanges of the peek are those of the pull, in the same order and
up to their numbers, if and only if nothing but autocreated parents waits for the page at the desk,
no STATE write of its owner that waits there would be heard by its view, and what its row and its
view hold has arrived in the order in which it was written; and no number of peeks changes
anything. -/
theorem peek_agrees_iff [PyValue V] [LegacyBag B V] (core : CoreRegister V)
    (stores : CoreStores V) (hcore : core.Relabels) (hstores : stores.Swaps)
    (worker : Worker V B) (desk : DeliveryDesk V) (clock : Instant) (p : PageId)
    (cid : ConnectionId)
    (hborn : worker.registry.page_register.get p = some (PageRow.born cid))
    (acts : List (Act V B)) (htimely : Meets (step core stores) Timely ⟨worker, desk, clock⟩ acts)
    {s : State V B} (hrun : run (step core stores) ⟨worker, desk, clock⟩ acts = some s) (u : User)
    (howner : s.worker.registry.pageUser p = some u) (dbevents : List (DbEvent V × Instant))
    (own_dbevents : List (DbEvent V)) (readings : ℕ → PageId → Instant) :
    ∃ page user_item pulled deposits,
      s.worker.registry.page_register.get p = some page ∧
        s.worker.registry.user_register.get u = some user_item ∧
        collectLocalDatachanges p (s.worker, s.desk) dbevents own_dbevents readings =
          .ok (pulled, deposits) ∧
        ((pendingDatachanges s.worker p (some "page")).2.map ClientDataChange.unnumbered =
            pulled.map ClientDataChange.unnumbered ↔
          Agrees s.worker s.desk p u page user_item.store) ∧
        ∀ n, (fun worker => (pendingDatachanges worker p (some "page")).1)^[n] s.worker =
          s.worker := by
  have hstart : PageSettled p (⟨worker, desk, clock⟩ : State V B) :=
    ⟨PageRow.born cid, hborn, settled_born clock cid⟩
  obtain ⟨page, hrow, hsettled⟩ : PageSettled p s :=
    run_invariant (fun _ _ _ h ha hs => h.step hcore hstores ha hs) hstart htimely hrun
  obtain ⟨user_item, huser⟩ := Option.isSome_iff_exists.1 (Registry.user_there howner)
  have hpull := collectLocalDatachanges_eq s.desk hrow howner huser dbevents own_dbevents readings
  refine ⟨page, user_item, _, _, hrow, huser, hpull, ?_, ?_⟩
  · obtain ⟨heard, hheard, hunheard⟩ := viewChanges_hear hsettled user_item.store
      (applyEach (s.worker.bags user_item.store) (s.desk.storeChangesFor u)).2
        fun i => readings i p
    obtain ⟨hview_sorted, hview_ts⟩ := hsettled.viewChanges
    have hiff := peek_eq_pull_iff hsettled.sorted hview_sorted hview_ts
      (s.desk.datachangesFor p) heard
    rw [pendingDatachanges_snd hrow, Worker.mergedDatachanges, hheard]
    refine hiff.trans ?_
    constructor
    · rintro ⟨hdesk, hnone, hwritten⟩
      exact ⟨hdesk, hunheard.1 hnone, hwritten⟩
    · intro h
      exact ⟨h.desk_empty, hunheard.2 h.store_unheard, h.written⟩
  · intro n
    refine Function.iterate_fixed ?_ n
    exact pendingDatachanges_fst s.worker p (some "page")

section

open Views.Sample (loginCore carryingCore loginCore_relabels carryingCore_swaps)

/-- The worker and the desk of the sample page, before the first action. -/
def begin : State Sample.Value Sample.FlatBag :=
  ⟨(Sample.start ["p"]).worker, (Sample.start ["p"]).desk, 0⟩

/-- A change that the owner of the page has put on the row is peeked as it is pulled. -/
theorem peek_agrees_own_write :
    ∃ s, run (step loginCore carryingCore) begin
        [.write (some "u") (Sample.message .page "p" "a" 1) 1] = some s ∧
      ∃ pulled deposits, collectLocalDatachanges "p" (s.worker, s.desk) [] [] (fun _ _ => 2) =
          .ok (pulled, deposits) ∧
        (pendingDatachanges s.worker "p" (some "page")).2.map ClientDataChange.unnumbered =
          pulled.map ClientDataChange.unnumbered := by
  refine ⟨_, rfl, ?_⟩
  have htimely : Meets (step loginCore carryingCore) Timely begin
      [.write (some "u") (Sample.message .page "p" "a" 1) 1] :=
    .cons rfl (show (0 : Instant) ≤ 1 by decide) trivial
  obtain ⟨page, user_item, pulled, deposits, hrow, huser, hpull, hiff, _⟩ :=
    peek_agrees_iff loginCore carryingCore loginCore_relabels carryingCore_swaps
      (Sample.start ["p"]).worker (Sample.start ["p"]).desk 0 "p" "c" rfl
      [.write (some "u") (Sample.message .page "p" "a" 1) 1] htimely rfl "u" rfl [] []
      fun _ _ => 2
  refine ⟨pulled, deposits, hpull, hiff.2 ?_⟩
  have hqueue : [{ Sample.change "a" 1 with change_idx := 1, arrival_ts := some 1 }] =
      page.datachanges := Option.some.inj (congrArg (Option.map PageRow.datachanges) hrow)
  have hview : none = page.user_view :=
    Option.some.inj (congrArg (Option.map PageRow.user_view) hrow)
  have hnone : kept page.viewChanges = [] := by
    rw [PageRow.viewChanges, ← hview]
    rfl
  refine ⟨rfl, ?_, ?_⟩
  · rw [Unheard, ← hview]
    intro view hview
    cases hview
  · rw [hnone, ← hqueue]
    refine ⟨List.pairwise_singleton _ _, fun _ _ y hy => absurd hy List.not_mem_nil, fun t => ?_⟩
    rw [show classOf Change.change_ts t ([] : List (Change Sample.Value)) = [] from rfl,
      List.append_nil, List.nil_append]

/-- A change addressed at the page by another user, or by a thread outside any request, waits at the
desk: the peek does not show it, and the pull made right after returns it. -/
theorem peek_misses_the_desk :
    ∃ s, run (step loginCore carryingCore) begin
        [.serve (Sample.start ["p"]).population (Sample.message .page "p" "a" 1) 1] = some s ∧
      ∃ pulled deposits, collectLocalDatachanges "p" (s.worker, s.desk) [] [] (fun _ _ => 2) =
          .ok (pulled, deposits) ∧
        pulled = [⟨"a", some 1, none, none, false, 0, 1, false⟩] ∧
        (pendingDatachanges s.worker "p" (some "page")).2 = [] ∧
        (pendingDatachanges s.worker "p" (some "page")).2.map ClientDataChange.unnumbered ≠
          pulled.map ClientDataChange.unnumbered := by
  refine ⟨_, rfl, _, _, rfl, rfl, ?_⟩
  have hrow : begin.worker.registry.page_register.get "p" = some (PageRow.born "c") := rfl
  have hpeek : (pendingDatachanges begin.worker "p" (some "page")).2 = [] := by
    rw [pendingDatachanges_snd hrow]
    simp [PageRow.born, PageRow.viewChanges, sortOn, dressed]
  refine ⟨hpeek, fun hsame => ?_⟩
  have hlength := congrArg List.length hsame
  rw [show (pendingDatachanges _ "p" (some "page")).2 = [] from hpeek] at hlength
  cases hlength

end

end GenropyAsgi.Peek
