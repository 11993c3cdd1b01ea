import GenropyAsgi.Delivery.Peek

/-!
# A collect merges in arrival order

The row, the desk and the view of a page stamp what they hold off one wall clock. As long as that
clock does not go back each of the three lists stays in its own order, through every append, drop,
reset and re-attachment, so that the two merges of a collect yield the order in which everything
arrived. The machine is the one of the peek, with the wall clock kept beside it: the desk reads it
too.

A collect is its exchange and, after whatever happens in between, its final critical section.
-/

namespace GenropyAsgi.OneClock

open Library Delivery Peek

variable {V B : Type}

/-- The worker and the desk, under the wall clock that both of them read. -/
structure State (V B : Type) where
  /-- The machine. -/
  machine : Peek.State V B
  /-- The wall clock at its last reading, by whichever of the two. -/
  wall : Instant

/-- The last reading of the wall clock once an action is over. -/
def wallAfter (wall : Instant) : Act V B → Instant
  | .write _ _ now => now
  | .serve _ _ now => now
  | .capture _ _ _ arrived => arrived
  | .siteWrite _ _ _ now => now
  | .finish _ _ _ _ _ now => now
  | _ => wall

/-- One action. -/
def step [PyValue V] [LegacyBag B V] (core : CoreRegister V) (stores : CoreStores V)
    (s : State V B) (a : Act V B) : Option (State V B) :=
  (Peek.step core stores s.machine a).map fun machine => ⟨machine, wallAfter s.wall a⟩

/-- The wall clock does not go back. -/
def NotBack (s : State V B) : Act V B → Prop
  | .write _ _ now => s.wall ≤ now
  | .serve _ _ now => s.wall ≤ now
  | .capture _ _ _ arrived => s.wall ≤ arrived
  | .siteWrite _ _ clock now => Readings s.wall clock now
  | .finish _ _ _ _ clock now => Readings s.wall clock now
  | _ => True

/-- The state after the exchange of a collect. -/
def State.exchanged (s : State V B) (p : PageId) (user : User)
    (dbevents : List (DbEvent V × Instant)) : State V B :=
  { s with machine := { s.machine with desk := (s.machine.desk.exchange p user dbevents).1 } }

/-! ## The three lists -/

/-- The pending list of a row's view. -/
def pendingOfView (page : PageRow V) : List (Change V) :=
  match page.user_view with
  | none => []
  | some view => view.changes

/-- The three lists of a page, each in its own order. -/
structure InOrder (p : PageId) (s : State V B) : Prop where
  /-- The row's queue is in the order of arrival, and the view's in that of writing. -/
  row : ∀ page, s.machine.worker.registry.page_register.get p = some page →
    page.datachanges.Pairwise Earlier ∧
      (∀ change ∈ page.datachanges, change.arrival_ts.isSome = true) ∧
      (pendingOfView page).Pairwise fun x y => x.change_ts ≤ y.change_ts
  /-- The desk's queue is in the order of arrival. -/
  desk : (s.machine.desk.datachangesFor p).Pairwise Earlier ∧
    ∀ change ∈ s.machine.desk.datachangesFor p, change.arrival_ts.isSome = true

/-- What a delivery is, made of the queue of a row, of what the desk handed back and of the pending
list of the view. -/
structure MergedInOrder (row desk view delivered : List (Change V)) : Prop where
  /-- It has the changes of the three lists, up to their numbers. -/
  perm : (delivered.map Change.unnumbered).Perm ((row ++ desk ++ view).map Change.unnumbered)
  /-- It keeps the order of the row's queue, -/
  row : (row.map Change.unnumbered).Sublist (delivered.map Change.unnumbered)
  /-- of the desk's -/
  desk : (desk.map Change.unnumbered).Sublist (delivered.map Change.unnumbered)
  /-- and of the view's. -/
  view : (view.map Change.unnumbered).Sublist (delivered.map Change.unnumbered)
  /-- It is in the order of arrival. -/
  sorted : delivered.Pairwise Earlier
  /-- It is numbered from one on. -/
  numbers : delivered.map Change.change_idx = List.range' 1 delivered.length

/-- The numbers of a merged list. -/
theorem change_idx_zipIdx :
    ∀ (datachanges : List (Change V)) (n : ℕ),
      ((datachanges.zipIdx n).map fun change =>
        ({ change.1 with change_idx := change.2 } : Change V)).map Change.change_idx =
          List.range' n datachanges.length
  | [], _ => rfl
  | change :: datachanges, n => by
    rw [List.zipIdx_cons, List.map_cons, List.map_cons, change_idx_zipIdx datachanges (n + 1)]
    rfl

/-- The merge of three lists that are in order. -/
theorem mergedInOrder {page : PageRow V} {desk_changes : List (Change V)}
    (hrow : page.datachanges.Pairwise Earlier) (hdesk : desk_changes.Pairwise Earlier)
    (hview : page.viewChanges.Pairwise Earlier) :
    MergedInOrder page.datachanges desk_changes page.viewChanges
      (Worker.mergedDatachanges page desk_changes) := by
  have hunnumbered : (Worker.mergedDatachanges page desk_changes).map Change.unnumbered =
      (mergeOn Change.arrivalOrder (mergeOn Change.arrivalOrder page.datachanges desk_changes)
        page.viewChanges).map Change.unnumbered := Worker.unnumbered_zipIdx _ 1
  have hlength : (Worker.mergedDatachanges page desk_changes).length =
      (mergeOn Change.arrivalOrder (mergeOn Change.arrivalOrder page.datachanges desk_changes)
        page.viewChanges).length := by
    have h := congrArg List.length hunnumbered
    rwa [List.length_map, List.length_map] at h
  -- The inner merge is found in the outer one, and the row and the desk in the inner one.
  have hinner := sublist_mergeOn_left Change.arrivalOrder
    (mergeOn Change.arrivalOrder page.datachanges desk_changes) page.viewChanges
  refine ⟨?_, ?_, ?_, ?_, ?_, ?_⟩
  · rw [hunnumbered]
    have houter := mergeOn_perm Change.arrivalOrder
      (mergeOn Change.arrivalOrder page.datachanges desk_changes) page.viewChanges
    have hboth := mergeOn_perm Change.arrivalOrder page.datachanges desk_changes
    exact (houter.trans (hboth.append_right _)).map _
  · rw [hunnumbered]
    exact ((sublist_mergeOn_left _ _ _).trans hinner).map _
  · rw [hunnumbered]
    exact ((sublist_mergeOn_right _ _ _).trans hinner).map _
  · rw [hunnumbered]
    exact (sublist_mergeOn_right _ _ _).map _
  · have hmerged := mergeOn_sorted (mergeOn_sorted hrow hdesk) hview
    rw [← pairwise_earlier_map_unnumbered, hunnumbered, pairwise_earlier_map_unnumbered]
    exact hmerged
  · rw [hlength]
    exact change_idx_zipIdx _ 1

/-- The view of a settled row is drained in the order of its pending list. -/
theorem viewChanges_eq {clock : Instant} {page : PageRow V} (h : Settled clock page) :
    page.viewChanges = pendingOfView page := by
  unfold PageRow.viewChanges pendingOfView
  cases hview : page.user_view with
  | none => rfl
  | some view => exact (h.view view hview).numbered.drain_eq

/-! ## The runs -/

/-- A queue of the desk in the order of arrival, up to an instant. -/
structure SettledQueue (wall : Instant) (queue : List (Change V)) : Prop where
  /-- It is in order. -/
  sorted : queue.Pairwise Earlier
  /-- None of it arrived later than the instant. -/
  past : ∀ x ∈ queue, x.arrivalOrder ≤ wall
  /-- All of it is stamped. -/
  stamped : ∀ x ∈ queue, x.arrival_ts.isSome = true

/-- A queue that holds nothing. -/
theorem settledQueue_nil (wall : Instant) : SettledQueue wall ([] : List (Change V)) where
  sorted := List.Pairwise.nil
  past := fun _ h => absurd h List.not_mem_nil
  stamped := fun _ h => absurd h List.not_mem_nil

/-- Later on the queue is in order too. -/
theorem SettledQueue.later {wall now : Instant} {queue : List (Change V)}
    (h : SettledQueue wall queue) (hnow : wall ≤ now) : SettledQueue now queue where
  sorted := h.sorted
  past := fun x hx => le_trans (h.past x hx) hnow
  stamped := h.stamped

/-- A queue that an addressed write edits now. -/
theorem SettledQueue.fileOn {wall now : Instant} {queue : List (Change V)}
    (h : SettledQueue wall queue) (hnow : wall ≤ now) (op : Op V) :
    SettledQueue now (op.fileOn queue now).1 := by
  have hstamped := DeliveryDesk.stamped_fileOn now h.stamped op
  cases op with
  | resetDatachanges => exact settledQueue_nil now
  | dropDatachanges path =>
    refine ⟨h.sorted.filter _, ?_, hstamped⟩
    exact fun x hx => le_trans (h.past x (List.mem_filter.1 hx).1) hnow
  | setDatachange change replace =>
    cases change with
    | none => exact h.later hnow
    | some change =>
      -- What is left of the queue keeps its order, and the change joins it at its end.
      have hrest : (if replace then
          queue.filter fun pending => decide (pending.key ≠ change.key)
        else queue).Sublist queue := by
        split_ifs
        · exact List.filter_sublist
        · exact List.Sublist.refl _
      have harrives : ({ change with arrival_ts := some now } : Change V).arrivalOrder = now := rfl
      obtain ⟨hsorted, hpast⟩ := sorted_append_now h.sorted h.past hrest hnow harrives
      exact ⟨hsorted, hpast, hstamped⟩

/-- The queue of a page at the desk after an addressed write. -/
theorem SettledQueue.onDatachange {wall now : Instant} {desk : DeliveryDesk V} {p : PageId}
    (h : SettledQueue wall (desk.datachangesFor p)) (hnow : wall ≤ now) (population : Population)
    (message : Message V) :
    SettledQueue now ((desk.onDatachange population message now).1.datachangesFor p) := by
  rcases desk.onDatachange_cases population message now with
    ⟨target, _, _, _, _, heq⟩ | ⟨target, _, _, _, _, heq⟩ | ⟨answer, _, heq⟩
  · rw [heq]
    exact h.later hnow
  · rw [heq]
    dsimp only
    rw [DeliveryDesk.datachangesFor_set]
    split_ifs with hp
    · subst hp
      exact h.fileOn hnow message.op
    · exact h.later hnow
  · rw [heq]
    exact h.later hnow

/-- The three lists of a page in order, up to the last reading of the wall clock. -/
structure Clocked (p : PageId) (s : State V B) : Prop where
  /-- The worker has read no later instant. -/
  clock : s.machine.clock ≤ s.wall
  /-- The row and its view are in order. -/
  row : PageSettled p s.machine
  /-- So is the desk's queue. -/
  desk : SettledQueue s.wall (s.machine.desk.datachangesFor p)

/-- Under a wall clock that does not go back the worker's clock does not either. -/
theorem NotBack.timely {s : State V B} (hclock : s.machine.clock ≤ s.wall) {a : Act V B}
    (ha : NotBack s a) : Timely s.machine a := by
  cases a with
  | write identity message now => exact le_trans hclock ha
  | capture page_id event written arrived => exact le_trans hclock ha
  | siteWrite bag written clock now => exact Readings.since ha hclock
  | finish page_id user reply own_dbevents clock now => exact Readings.since ha hclock
  | _ => trivial

/-- No action sets the wall clock back. -/
theorem NotBack.le_wallAfter {s : State V B} {a : Act V B} (ha : NotBack s a) :
    s.wall ≤ wallAfter s.wall a := by
  cases a with
  | write identity message now => exact ha
  | serve population message now => exact ha
  | capture page_id event written arrived => exact ha
  | siteWrite bag written clock now => exact Readings.past_le ha
  | finish page_id user reply own_dbevents clock now => exact Readings.past_le ha
  | _ => exact le_refl _

/-- The three lists are in order. -/
theorem Clocked.inOrder {p : PageId} {s : State V B} (h : Clocked p s) : InOrder p s := by
  refine ⟨?_, h.desk.sorted, h.desk.stamped⟩
  intro page hpage
  obtain ⟨row, hrow, hsettled⟩ := h.row
  rw [hpage] at hrow
  cases hrow
  refine ⟨hsettled.sorted, page.stamped, ?_⟩
  unfold pendingOfView
  cases hview : page.user_view with
  | none => exact List.Pairwise.nil
  | some view => exact (hsettled.view view hview).sorted

variable [PyValue V] [LegacyBag B V] {core : CoreRegister V} {stores : CoreStores V} {p : PageId}

/-- One action keeps the three lists of a page in order. -/
theorem Clocked.step (hcore : core.Relabels) (hstores : stores.Swaps) {s s' : State V B}
    (h : Clocked p s) {a : Act V B} (ha : NotBack s a)
    (hs : OneClock.step core stores s a = some s') : Clocked p s' := by
  obtain ⟨machine, hmachine, rfl⟩ := Option.map_eq_some_iff.1 hs
  have htimely := ha.timely h.clock
  have hwall := ha.le_wallAfter
  have hrow := h.row.step hcore hstores htimely hmachine
  cases a with
  | write identity message now =>
    cases hmachine
    exact ⟨le_refl now, hrow, h.desk.later hwall⟩
  | serve population message now =>
    cases hmachine
    exact ⟨le_trans h.clock hwall, hrow, h.desk.onDatachange ha population message⟩
  | capture q event written arrived =>
    cases hmachine
    exact ⟨le_refl arrived, hrow, h.desk.later hwall⟩
  | siteWrite bag written clock now =>
    cases hmachine
    exact ⟨le_refl now, hrow, h.desk.later hwall⟩
  | exchange q user dbevents =>
    cases hmachine
    refine ⟨h.clock, hrow, ?_⟩
    dsimp only
    rw [DeliveryDesk.datachangesFor_exchange]
    split_ifs
    · exact settledQueue_nil _
    · exact h.desk
  | finish q user reply own_dbevents clock now =>
    cases hmachine
    exact ⟨le_refl now, hrow, h.desk.later hwall⟩
  | _ =>
    cases hmachine
    exact ⟨h.clock, hrow, h.desk⟩

/-- The final critical section of a collect, on three lists that are in order. -/
theorem Clocked.collectFinish {s : State V B} (h : Clocked p s) {user : User}
    {user_item : UserRow}
    (huser : s.machine.worker.registry.user_register.get user = some user_item)
    {reply : ExchangeReply V} (hreply : reply.datachanges.Pairwise Earlier)
    (own_dbevents : List (DbEvent V)) {readings : ℕ → PageId → Instant} {now : Instant}
    (hreadings : Readings s.wall readings now) :
    ∃ row delivery after,
      s.machine.worker.registry.page_register.get p = some row ∧
        (s.machine.worker.collectFinish p user reply own_dbevents readings).2 = .ok delivery ∧
        (s.machine.worker.collectFinish p user reply own_dbevents
          readings).1.registry.page_register.get p = some after ∧
        (after.datachanges = [] ∧ after.datachanges_idx = 0) ∧
        MergedInOrder row.datachanges reply.datachanges
          (pendingOfView (row.hear user_item.store
            (applyEach (s.machine.worker.bags user_item.store) reply.store_changes).2
              fun i => readings i p))
          delivery.datachanges := by
  obtain ⟨row, hrow, hsettled⟩ := h.row
  have hheard := hsettled.hear (hreadings.since h.clock) p user_item.store
    (applyEach (s.machine.worker.bags user_item.store) reply.store_changes).2
  generalize hpage : row.hear user_item.store
    (applyEach (s.machine.worker.bags user_item.store) reply.store_changes).2
      (fun i => readings i p) = page at hheard
  have hmerged := mergedInOrder hheard.sorted hreply hheard.viewChanges.1
  rw [viewChanges_eq hheard] at hmerged
  have hqueue : page.datachanges = row.datachanges := by
    rw [← hpage]
    rfl
  refine ⟨row, ⟨Worker.mergedDatachanges page reply.datachanges, reply.dbevents ++ own_dbevents⟩,
    page.drained, hrow, ?_, ?_, ⟨rfl, rfl⟩, ?_⟩
  · simp only [Worker.collectFinish, hrow, huser, hpage]
  · simp only [Worker.collectFinish, hrow, huser, hpage, Registry.setPage, Dict.get_set, if_true]
  · rw [← hqueue, hpage]
    exact hmerged

/-- A collect merges in arrival order. Take a page from its birth, with nothing waiting for it at
the desk, and any run under a wall clock that does not go back. In the state reached the row's queue
and the desk's are in the order of arrival and the view's pending list is in that of writing. A
collect that makes its exchange in that state, and comes to its final critical section after any
further run, answers as soon as the row of its user is there: what it returns has the changes of the
three lists, keeps the order of each, is in the order of arrival and is numbered from one on, and
the row is left with an empty queue and its index at zero. -/
theorem collect_merges_in_arrival_order (core : CoreRegister V) (stores : CoreStores V)
    (hcore : core.Relabels) (hstores : stores.Swaps) (worker : Worker V B) (desk : DeliveryDesk V)
    (wall : Instant) (p : PageId) (cid : ConnectionId)
    (hborn : worker.registry.page_register.get p = some (PageRow.born cid))
    (hdesk : desk.datachangesFor p = []) (acts : List (Act V B))
    (hacts : Meets (step core stores) NotBack ⟨⟨worker, desk, wall⟩, wall⟩ acts) {s : State V B}
    (hrun : run (step core stores) ⟨⟨worker, desk, wall⟩, wall⟩ acts = some s) :
    InOrder p s ∧
      ∀ (user : User) (dbevents : List (DbEvent V × Instant)) (between : List (Act V B)),
        Meets (step core stores) NotBack (s.exchanged p user dbevents) between →
          ∀ s', run (step core stores) (s.exchanged p user dbevents) between = some s' →
            ∀ user_item, s'.machine.worker.registry.user_register.get user = some user_item →
              ∀ (own_dbevents : List (DbEvent V)) (readings : ℕ → PageId → Instant) (now : Instant),
                Readings s'.wall readings now →
                  ∃ row delivery after,
                    s'.machine.worker.registry.page_register.get p = some row ∧
                      (s'.machine.worker.collectFinish p user
                        (s.machine.desk.exchange p user dbevents).2 own_dbevents readings).2 =
                          .ok delivery ∧
                      (s'.machine.worker.collectFinish p user
                        (s.machine.desk.exchange p user dbevents).2 own_dbevents
                          readings).1.registry.page_register.get p = some after ∧
                      (after.datachanges = [] ∧ after.datachanges_idx = 0) ∧
                      MergedInOrder row.datachanges (s.machine.desk.datachangesFor p)
                        (pendingOfView (row.hear user_item.store
                          (applyEach (s'.machine.worker.bags user_item.store)
                            (s.machine.desk.storeChangesFor user)).2 fun i => readings i p))
                        delivery.datachanges := by
  have hstart : Clocked p (⟨⟨worker, desk, wall⟩, wall⟩ : State V B) := {
    clock := le_refl wall
    row := ⟨PageRow.born cid, hborn, settled_born wall cid⟩
    desk := by
      dsimp only
      rw [hdesk]
      exact settledQueue_nil wall }
  have hclocked : Clocked p s :=
    run_invariant (fun _ _ _ h ha hs => h.step hcore hstores ha hs) hstart hacts hrun
  refine ⟨hclocked.inOrder, ?_⟩
  intro user dbevents between hbetween s' hrun' user_item huser own_dbevents readings now hreadings
  -- The exchange takes the page's queue away and leaves everything else in order.
  have hexchanged : Clocked p (s.exchanged p user dbevents) :=
    hclocked.step hcore hstores (a := .exchange p user dbevents) trivial rfl
  have hclocked' : Clocked p s' :=
    run_invariant (fun _ _ _ h ha hs => h.step hcore hstores ha hs) hexchanged hbetween hrun'
  rw [DeliveryDesk.exchange_reply]
  exact hclocked'.collectFinish huser hclocked.desk.sorted own_dbevents hreadings

/-- The worker and the desk of the sample page, before the first action. -/
def begin : State Sample.Value Sample.FlatBag := ⟨Peek.begin, 0⟩

/-- A change of the owner's that another user's is filed after is returned before it. -/
theorem collect_merges_own_before_foreign :
    ∃ s, run (step Views.Sample.loginCore Views.Sample.carryingCore) begin
        [.write (some "u") (Sample.message .page "p" "a" 1) 1,
          .serve (Sample.start ["p"]).population (Sample.message .page "p" "b" 2) 2] = some s ∧
      ∃ delivery, (s.machine.worker.collectFinish "p" "u"
          (s.machine.desk.exchange "p" "u" []).2 [] fun _ _ => 3).2 = .ok delivery ∧
        delivery.datachanges.Pairwise Earlier ∧
        delivery.datachanges.map Change.change_idx = [1, 2] := by
  refine ⟨_, rfl, ?_⟩
  have hacts : Meets (step Views.Sample.loginCore Views.Sample.carryingCore) NotBack begin
      [.write (some "u") (Sample.message .page "p" "a" 1) 1,
        .serve (Sample.start ["p"]).population (Sample.message .page "p" "b" 2) 2] :=
    .cons rfl (show (0 : Instant) ≤ 1 by decide)
      (.cons rfl (show (1 : Instant) ≤ 2 by decide) trivial)
  obtain ⟨_, hcollect⟩ := collect_merges_in_arrival_order Views.Sample.loginCore
    Views.Sample.carryingCore Views.Sample.loginCore_relabels Views.Sample.carryingCore_swaps
    (Sample.start ["p"]).worker (Sample.start ["p"]).desk 0 "p" "c" rfl rfl _ hacts rfl
  obtain ⟨row, delivery, after, hrow, hok, _, _, hmerged⟩ :=
    hcollect "u" [] [] trivial _ rfl _ rfl [] (fun _ _ => 3) 3
      ⟨fun _ _ => by decide, fun _ _ => le_refl _, fun _ _ => le_refl _⟩
  refine ⟨delivery, hok, hmerged.sorted, ?_⟩
  -- The row and the desk hold one change each, and the page has no view.
  have hlength : delivery.datachanges.length = 2 := by
    have h := hmerged.perm.length_eq
    rw [List.length_map] at h
    rw [h]
    cases hrow
    rfl
  rw [hmerged.numbers, hlength]
  rfl

end GenropyAsgi.OneClock
