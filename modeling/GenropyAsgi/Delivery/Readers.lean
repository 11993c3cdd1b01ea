import GenropyAsgi.Library.StableSort
import GenropyAsgi.Delivery.OneList
import GenropyAsgi.Views.Attachment

/-!
# The peek and the pull

`ServerStore.datachanges` reads a page's pending changes without consuming them: the row's queue and
the view, sorted by the writers' clock. The pull exchanges with the desk and merges the row, what
the desk hands back and the view by arrival. Here the two readers are compared on given queues
(`peek_eq_pull_iff`); `Delivery/Peek` does it on the reachable states of a page.
-/

namespace GenropyAsgi.Peek

open Library Delivery

variable {V B : Type}

/-! ## The two readers -/

/-- A `ClientDataChange`. Its `change_ts` is the instant as a naive local clock shows it. -/
structure ClientDataChange (V : Type) where
  /-- The dotted path. -/
  path : String
  /-- The value. -/
  value : V
  /-- The node's attributes. -/
  attributes : Option (Attributes V)
  /-- The reason of the write. -/
  reason : Option String
  /-- Whether the write is a one-shot event. -/
  fired : Bool
  /-- The writer's clock. -/
  change_ts : Instant
  /-- The number. -/
  change_idx : ℕ
  /-- Whether the change removes the node. -/
  delete : Bool

/-- The change without its number. -/
def ClientDataChange.unnumbered (change : ClientDataChange V) : ClientDataChange V :=
  { change with change_idx := 0 }

/-- `_change_to_client`. -/
def changeToClient (change : Change V) : ClientDataChange V where
  path := change.key.path
  value := change.value
  attributes := change.attributes
  reason := change.key.reason
  fired := change.key.fired
  change_ts := change.change_ts
  change_idx := change.change_idx
  delete := change.delete

/-- Whether a change is one of the parents that the Bag inserts on a first write. -/
def isAutocreate (change : Change V) : Bool := decide (change.key.reason = some "autocreate")

/-- The changes as both readers dress them: without the autocreated parents. -/
def dressed (changes : List (Change V)) : List (ClientDataChange V) :=
  (changes.filter fun change => !isAutocreate change).map changeToClient

/-- `drain` of a collector, with its flag. -/
def drain (collector : LegacyBagCollector V) (reset : Bool) :
    LegacyBagCollector V × List (Change V) :=
  ({ collector with changes := if reset then [] else collector.changes },
    collector.changes.mergeSort fun c d => decide (c.change_idx ≤ d.change_idx))

/-- The row after its view has been drained without the flag. -/
def peeked (page : PageRow V) : PageRow V :=
  { page with
    user_view := page.user_view.map fun view => (drain view false).1
    unstamped := by
      intro view hview
      rw [Option.mem_map] at hview
      obtain ⟨old, hold, rfl⟩ := hview
      exact page.unstamped old hold }

/-- `_pending_datachanges`, with the worker after it. An empty name counts for `"page"`. -/
def pendingDatachanges (worker : Worker V B) (register_item_id : String)
    (register_name : Option String) : Worker V B × List (ClientDataChange V) :=
  if register_name = none ∨ register_name = some "" ∨ register_name = some "page" then
    match worker.registry.page_register.get register_item_id with
    | none => (worker, [])
    | some page =>
      let drained := (page.user_view.map fun view => (drain view false).2).getD []
      ({ worker with registry := worker.registry.setPage register_item_id (peeked page) },
        dressed (sortOn Change.change_ts (page.datachanges ++ drained)))
  else (worker, [])

/-- `_collect_local_datachanges`: the datachanges of the pull, and the deposits, whose dressing is
left to the client. -/
def collectLocalDatachanges [PyValue V] [LegacyBag B V] (page_id : PageId)
    (s : Worker V B × DeliveryDesk V) (dbevents : List (DbEvent V × Instant))
    (own_dbevents : List (DbEvent V)) (clock : ℕ → PageId → Instant) :
    Except PyError (List (ClientDataChange V) × List (DbEvent V)) :=
  match collectPage page_id s dbevents own_dbevents clock with
  | .ok delivery => .ok (dressed delivery.datachanges, delivery.dbevents)
  | .error (.keyError _ _) => .ok ([], [])
  | .error error => .error error

/-! ## The condition -/

/-- A change as the legacy client is told it, without the number. -/
def told (change : Change V) : ClientDataChange V := (changeToClient change).unnumbered

/-- What is told of a list: its changes without the autocreated parents. -/
def kept (changes : List (Change V)) : List (Change V) :=
  changes.filter fun change => !isAutocreate change

/-- The changes of a row that were written at an instant and joined the row later than that. -/
def late (t : Instant) (row : List (Change V)) : List (Change V) :=
  (classOf Change.change_ts t row).filter fun change => decide (t < change.arrivalOrder)

/-- The changes of a row and of a view have arrived in the order in which they were written. -/
structure InWritingOrder (row view : List (Change V)) : Prop where
  /-- Those of the row, among themselves. -/
  row_written : row.Pairwise fun x y => x.change_ts ≤ y.change_ts
  /-- A change of the row against one of the view, whichever arrived first. -/
  across : ∀ x ∈ row, ∀ y ∈ view, if x.arrivalOrder ≤ y.arrivalOrder then
    x.change_ts ≤ y.change_ts else y.change_ts ≤ x.change_ts
  /-- Where both hold changes written at one instant, and those of the row joined it later, their
  order makes no difference. -/
  ties : ∀ t, (late t row ++ classOf Change.change_ts t view).map told =
    (classOf Change.change_ts t view ++ late t row).map told

/-- The events of a store that a row's view would not hear, the autocreated parents aside. -/
def Unheard (page : PageRow V) (store : BagId) (events : List (BagEvent V)) : Prop :=
  ∀ view ∈ page.user_view, view.bag = store → view.attached = true →
    ∀ event ∈ events, view.captures event.path = true → event.reason = some "autocreate"

/-- The condition under which the two readers agree on a page of a user. -/
structure Agrees [PyValue V] [LegacyBag B V] (worker : Worker V B) (desk : DeliveryDesk V)
    (p : PageId) (u : User) (page : PageRow V) (store : BagId) : Prop where
  /-- Nothing of the page waits at the desk. -/
  desk_empty : kept (desk.datachangesFor p) = []
  /-- No STATE write of the user that waits there would be heard by the view of the page. -/
  store_unheard : Unheard page store (applyEach (worker.bags store) (desk.storeChangesFor u)).2
  /-- The row and the view hold what they hold in the order in which it was written. -/
  written : InWritingOrder (kept page.datachanges) (kept page.viewChanges)

/-! ## A merge by arrival and a sort by the writers' clock -/

/-- What is told shows the writer's clock. -/
theorem change_ts_told (change : Change V) : (told change).change_ts = change.change_ts := rfl

/-- A list in the order of the writers' clock, as it is told. -/
theorem pairwise_told {changes : List (Change V)} :
    ((changes.map told).Pairwise fun x y => x.change_ts ≤ y.change_ts) ↔
      changes.Pairwise fun x y => x.change_ts ≤ y.change_ts := by
  rw [List.pairwise_map]
  rfl

/-- A row sorted by arrival, merged with a view whose changes arrived as they were written, is told
as the stable sort of both by the writers' clock exactly when they are in the order of writing. -/
theorem sort_eq_merge_iff {row view : List (Change V)} (hrow : row.Pairwise Earlier)
    (hview : view.Pairwise Earlier) (hts : ∀ y ∈ view, y.arrivalOrder = y.change_ts) :
    (sortOn Change.change_ts (row ++ view)).map told =
        (mergeOn Change.arrivalOrder row view).map told ↔
      InWritingOrder row view := by
  have hview_written : view.Pairwise fun x y => x.change_ts ≤ y.change_ts := by
    refine List.Pairwise.imp_of_mem ?_ hview
    intro x y hx hy hxy
    rw [Earlier, hts x hx, hts y hy] at hxy
    exact hxy
  have hwritten := mergeOn_pairwise_iff (R := fun x y : Change V => x.change_ts ≤ y.change_ts)
    hrow hview
  have hsorted := sortOn_sorted Change.change_ts (row ++ view)
  -- The two readers on the changes that were written at one instant.
  have hclass : ∀ t,
      ((classOf Change.change_ts t (sortOn Change.change_ts (row ++ view))).map told =
          (classOf Change.change_ts t (mergeOn Change.arrivalOrder row view)).map told ↔
        (late t row ++ classOf Change.change_ts t view).map told =
          (classOf Change.change_ts t view ++ late t row).map told) := by
    intro t
    have hrow_t : (classOf Change.change_ts t row).Pairwise Earlier := hrow.filter _
    have hview_t : ∀ y ∈ classOf Change.change_ts t view, y.arrivalOrder = t := by
      intro y hy
      obtain ⟨hmem, hyt⟩ := mem_classOf.1 hy
      rw [hts y hmem, hyt]
    have hmerge : classOf Change.change_ts t (mergeOn Change.arrivalOrder row view) =
        mergeOn Change.arrivalOrder (classOf Change.change_ts t row)
          (classOf Change.change_ts t view) :=
      filter_mergeOn (dominates_of_sorted _ hrow) (dominates_of_sorted _ hview)
    have hnone : ∀ y ∈ ([] : List (Change V)), y.arrivalOrder = t :=
      fun y hy => absurd hy List.not_mem_nil
    have hsplit := mergeOn_const hrow_t hnone
    rw [mergeOn_nil_right, List.append_nil] at hsplit
    rw [hmerge, mergeOn_const hrow_t hview_t, sortOn_class, classOf_append]
    nth_rewrite 1 [hsplit]
    simp only [List.map_append, List.append_assoc, List.append_cancel_left_eq]
    rfl
  constructor
  · intro htold
    have hmerged : (mergeOn Change.arrivalOrder row view).Pairwise
        fun x y => x.change_ts ≤ y.change_ts := by
      rw [← pairwise_told, ← htold, pairwise_told]
      exact hsorted
    obtain ⟨hrow', _, hacross⟩ := hwritten.1 hmerged
    have hties := (map_eq_iff_classes change_ts_told hsorted hmerged).1 htold
    exact ⟨hrow', hacross, fun t => (hclass t).1 (hties t)⟩
  · intro h
    have hmerged := hwritten.2 ⟨h.row_written, hview_written, h.across⟩
    exact (map_eq_iff_classes change_ts_told hsorted hmerged).2 fun t => (hclass t).2 (h.ties t)

/-- The numbers of a delivery are not told. -/
theorem told_numbered (changes : List (Change V)) :
    (dressed (Worker.numbered changes)).map ClientDataChange.unnumbered =
      (kept changes).map told := by
  have hzip : ∀ (changes : List (Change V)) n,
      (kept ((changes.zipIdx n).map fun change =>
        ({ change.1 with change_idx := change.2 } : Change V))).map told =
          (kept changes).map told := by
    intro changes
    induction changes with
    | nil => exact fun _ => rfl
    | cons change changes ih =>
      intro n
      have hrest := ih (n + 1)
      unfold kept at hrest ⊢
      rw [List.zipIdx_cons, List.map_cons, List.filter_cons, List.filter_cons]
      have hkey : isAutocreate ({ change with change_idx := n } : Change V) =
          isAutocreate change := rfl
      dsimp only
      rw [hkey]
      split_ifs
      · rw [List.map_cons, List.map_cons, hrest]
        rfl
      · exact hrest
  rw [dressed, List.map_map]
  exact hzip changes 1

/-- What the peek tells of a row and of its view is what the pull tells of them, of the desk's
queue and of what the view hears in between, exactly when the desk's queue and what the view hears
are autocreated parents and the rest is in the order of writing. -/
theorem peek_eq_pull_iff {row view : List (Change V)} (hrow : row.Pairwise Earlier)
    (hview : view.Pairwise Earlier) (hts : ∀ y ∈ view, y.arrivalOrder = y.change_ts)
    (desk heard : List (Change V)) :
    (dressed (sortOn Change.change_ts (row ++ view))).map ClientDataChange.unnumbered =
        (dressed (Worker.numbered (mergeOn Change.arrivalOrder
          (mergeOn Change.arrivalOrder row desk) (view ++ heard)))).map
            ClientDataChange.unnumbered ↔
      kept desk = [] ∧ kept heard = [] ∧ InWritingOrder (kept row) (kept view) := by
  have hpeek : (dressed (sortOn Change.change_ts (row ++ view))).map ClientDataChange.unnumbered =
      (sortOn Change.change_ts (kept row ++ kept view)).map told := by
    rw [dressed, List.map_map, filter_sortOn, List.filter_append]
    rfl
  rw [hpeek, told_numbered]
  have hkept : ∀ y ∈ kept view, y.arrivalOrder = y.change_ts :=
    fun y hy => hts y (List.mem_filter.1 hy).1
  have hmerge := sort_eq_merge_iff (hrow.filter fun change => !isAutocreate change)
    (hview.filter fun change => !isAutocreate change) hkept
  -- Where nothing but autocreated parents is added, the pull merges the row and the view alone.
  have hpull : kept desk = [] → kept heard = [] →
      kept (mergeOn Change.arrivalOrder (mergeOn Change.arrivalOrder row desk) (view ++ heard)) =
        mergeOn Change.arrivalOrder (kept row) (kept view) := by
    intro hdesk hheard
    have hdropped : ∀ {changes : List (Change V)}, kept changes = [] →
        ∀ y ∈ changes, (!isAutocreate y) = false := by
      intro changes h y hy
      rw [kept, List.filter_eq_nil_iff] at h
      simpa using h y hy
    have hnone : Dominates Change.arrivalOrder (fun change : Change V => !isAutocreate change) [] :=
      List.Pairwise.nil
    have hdesk_dominates := hnone.append_dropped (hdropped hdesk)
    rw [List.nil_append] at hdesk_dominates
    rw [kept, filter_mergeOn (dominates_mergeOn hrow (hdropped hdesk))
        ((dominates_of_sorted _ hview).append_dropped (hdropped hheard)),
      filter_mergeOn (dominates_of_sorted _ hrow) hdesk_dominates, List.filter_append]
    rw [kept] at hdesk hheard
    rw [hdesk, hheard, mergeOn_nil_right, List.append_nil]
    rfl
  constructor
  · intro htold
    -- The pull tells as many changes as the peek.
    have hlength := congrArg List.length htold
    have hperm : (mergeOn Change.arrivalOrder (mergeOn Change.arrivalOrder row desk)
        (view ++ heard)).Perm (row ++ desk ++ (view ++ heard)) :=
      (mergeOn_perm _ _ _).trans ((mergeOn_perm _ _ _).append_right _)
    have hcount := (hperm.filter fun change => !isAutocreate change).length_eq
    rw [List.length_map, List.length_map, (sortOn_perm _ _).length_eq,
      List.length_append] at hlength
    unfold kept at hlength
    rw [hcount] at hlength
    simp only [List.filter_append, List.length_append] at hlength
    have hdesk : kept desk = [] := List.eq_nil_of_length_eq_zero (by unfold kept; omega)
    have hheard : kept heard = [] := List.eq_nil_of_length_eq_zero (by unfold kept; omega)
    rw [hpull hdesk hheard] at htold
    exact ⟨hdesk, hheard, hmerge.1 htold⟩
  · rintro ⟨hdesk, hheard, hwritten⟩
    rw [hpull hdesk hheard]
    exact hmerge.2 hwritten

end GenropyAsgi.Peek
