import GenropyAsgi.Library.Ledger
import GenropyAsgi.Delivery.ArrivalOrder

/-!
# The row and the desk as one list

The daemon kept one list of pending changes for a page: a `set` appended to it, after taking the
pending entry of the same key out when it was to replace, a `reset` emptied it, a `drop` took one
path out. Here each verb acts on the row's queue or on the desk's, as its caller is the page's owner
or somebody else. The verbs are executed one after another and the page then collects: what the
collect returns is what the one list would hold, ties aside, exactly when every change that some
later verb takes out is taken out by a later verb of its own road as well.
-/

namespace GenropyAsgi.Delivery

open Library

variable {V B : Type}

/-- What a verb called at an instant does to the list of pending changes of a page. -/
def editOf (now : Instant) : Op V → Edit (Change V)
  | .resetDatachanges => ⟨fun _ => true, none⟩
  | .dropDatachanges path => ⟨fun pending => under pending.key.path path, none⟩
  | .setDatachange none _ => ⟨fun _ => false, none⟩
  | .setDatachange (some change) replace =>
    ⟨fun pending => replace && decide (pending.key = change.key), some (change.arriving now)⟩

/-- A queue edited by a verb, without the numbers. -/
theorem map_fileOn (queue : List (Change V)) (now : Instant) (op : Op V) :
    (op.fileOn queue now).1.map Change.unnumbered =
      (editOf now op).apply (queue.map Change.unnumbered) := by
  -- No test reads the number.
  have hfilter : ∀ test : Change V → Bool, (∀ c, test c.unnumbered = test c) →
      (queue.filter test).map Change.unnumbered =
        (queue.map Change.unnumbered).filter test := by
    intro test htest
    rw [List.filter_map]
    congr 1
    exact List.filter_congr fun c _ => (htest c).symm
  cases op with
  | resetDatachanges => simp [Op.fileOn, editOf, Edit.apply]
  | dropDatachanges path =>
    simp only [Op.fileOn, editOf, Edit.apply, Option.toList_none, List.append_nil]
    exact hfilter _ fun _ => rfl
  | setDatachange change replace =>
    cases change with
    | none => simp [Op.fileOn, editOf, Edit.apply]
    | some change =>
      cases replace with
      | false => simp [Op.fileOn, editOf, Edit.apply, Change.unnumbered, Change.arriving]
      | true =>
        have hset := hfilter (fun pending => !decide (pending.key = change.key)) fun _ => rfl
        simp only [Op.fileOn, if_true, List.map_append, ne_eq, decide_not, hset, editOf,
          Edit.apply, Bool.true_and]
        rfl

/-- A verb called on the worker of a page, by somebody, at an instant. -/
structure Verb (V : Type) where
  /-- The user that the calling site speaks for. -/
  identity : User
  /-- The verb, with what it adds. -/
  op : Op V
  /-- The instant at which its change joins a queue. -/
  now : Instant

/-- The verb as the worker has it. -/
def Verb.call (verb : Verb V) (worker : Worker V B) (page_id : PageId) :
    Worker V B × Worker.Road V :=
  match verb.op with
  | .setDatachange change replace =>
    worker.setDatachange verb.identity change .page (some page_id) none replace verb.now
  | .resetDatachanges => worker.resetDatachanges verb.identity (some page_id) none verb.now
  | .dropDatachanges path =>
    worker.dropDatachanges verb.identity path (some page_id) none verb.now

/-- The verb executed to its end: its CALL, if it places one, is served before anything else. -/
def Verb.execute (population : Population) (page_id : PageId) (s : Worker V B × DeliveryDesk V)
    (verb : Verb V) : Worker V B × DeliveryDesk V :=
  let called := verb.call s.1 page_id
  (called.1,
    called.2.call.foldl (fun desk message => (desk.onDatachange population message verb.now).1)
      s.2)

/-- A `collect_page` executed to its end, with nothing between its three parts: what it answers. -/
def collectPage [PyValue V] [LegacyBag B V] (page_id : PageId) (s : Worker V B × DeliveryDesk V)
    (dbevents : List (DbEvent V × Instant)) (own_dbevents : List (DbEvent V))
    (clock : ℕ → PageId → Instant) : Except PyError (Worker.PageDelivery V) :=
  match s.1.collectLookup page_id with
  | .error error => .error error
  | .ok user =>
    (s.1.collectFinish page_id user (s.2.exchange page_id user dbevents).2 own_dbevents clock).2

/-- The edits of a sequence of verbs, each with its road: true for the row, where the caller is the
owner of the page. -/
def editsOf (owner : User) (verbs : List (Verb V)) : List (Bool × Edit (Change V)) :=
  verbs.map fun verb => (decide (verb.identity = owner), editOf verb.now verb.op)

/-- What the daemon's one list holds after a sequence of verbs. -/
def daemonList (verbs : List (Verb V)) : List (Change V) :=
  Edit.replay (verbs.map fun verb => editOf verb.now verb.op)

/-- Two lists that are the same but for ties of arrival: the same changes, both in the order of
arrival. -/
def SameUpToTies (xs ys : List (Change V)) : Prop :=
  xs.Perm ys ∧ xs.Pairwise Earlier ∧ ys.Pairwise Earlier

/-- What holds of the page after a sequence of verbs. -/
structure Executed (p : PageId) (u : User) (verbs : List (Verb V))
    (s : Worker V B × DeliveryDesk V) : Prop where
  /-- The page keeps its owner. -/
  owner : s.1.registry.pageUser p = some u
  /-- The row's queue is what the verbs of the owner leave. -/
  row : s.1.rowQueue p = Edit.replay (Edit.onRoad true (editsOf u verbs))
  /-- The desk's queue is what the verbs of the others leave. -/
  desk : (s.2.datachangesFor p).map Change.unnumbered =
    Edit.replay (Edit.onRoad false (editsOf u verbs))
  /-- What waits at the desk is stamped. -/
  stamped : ∀ change ∈ s.2.datachangesFor p, change.arrival_ts.isSome = true

/-- The verbs of the site all take the road of their message. -/
theorem Verb.call_eq (verb : Verb V) (worker : Worker V B) (p : PageId) :
    verb.call worker p =
      worker.routeDatachange verb.identity ⟨verb.op, .page, some p, none⟩ verb.now := by
  unfold call
  cases verb.op <;> rfl

/-- A verb of the owner edits the row, a verb of somebody else the desk. -/
theorem Executed.execute {population : Population} {p : PageId} {u : User}
    {verbs : List (Verb V)} {s : Worker V B × DeliveryDesk V}
    (hknown : (population.page_connection_map.get p).isSome = true)
    (h : Executed p u verbs s) (verb : Verb V) :
    Executed p u (verbs ++ [verb]) (verb.execute population p s) := by
  have hedits : editsOf u (verbs ++ [verb]) =
      editsOf u verbs ++ [(decide (verb.identity = u), editOf verb.now verb.op)] := by
    simp [editsOf]
  have hmessage : ∀ road, Edit.onRoad road (editsOf u (verbs ++ [verb])) =
      Edit.onRoad road (editsOf u verbs) ++
        if decide (verb.identity = u) = road then [editOf verb.now verb.op] else [] := by
    intro road
    rw [hedits, Edit.onRoad, Edit.onRoad, List.filter_append, List.map_append]
    congr 1
    by_cases hroad : decide (verb.identity = u) = road
    · simp [hroad]
    · simp [hroad]
  obtain ⟨page, hpage⟩ := Registry.row_there h.owner
  by_cases hu : verb.identity = u
  · -- The caller owns the page: the row is edited, and the desk hears nothing.
    have hown : s.1.registry.pageUser p = some verb.identity := by
      rw [hu]
      exact h.owner
    obtain ⟨hroute, hcalls⟩ := Worker.routeDatachange_own hpage hown verb.op verb.now
    refine ⟨?_, ?_, ?_, ?_⟩
    · simp only [Verb.execute, Verb.call_eq]
      rw [Worker.pageUser_routeDatachange]
      exact h.owner
    · simp only [Verb.execute, Verb.call_eq, hroute]
      rw [Worker.rowQueue_setPage, if_pos rfl, PageRow.queue_actOnRow, map_fileOn, hmessage,
        hu, decide_eq_true rfl, if_pos rfl, Edit.replay_snoc, ← h.row, Worker.rowQueue_of_get hpage]
      rfl
    · simp only [Verb.execute, Verb.call_eq, hcalls, List.foldl_nil]
      rw [h.desk, hmessage, hu]
      simp
    · simp only [Verb.execute, Verb.call_eq, hcalls, List.foldl_nil]
      exact h.stamped
  · -- Somebody else's verb: the row is left alone, and the desk serves the CALL.
    have hroute := Worker.routeDatachange_foreign h.owner (Ne.symm hu) verb.op verb.now
    have hserved : (s.2.onDatachange population ⟨verb.op, .page, some p, none⟩ verb.now).1 =
        { s.2 with
          page_datachange_map := s.2.page_datachange_map.set p
            (verb.op.fileOn (s.2.datachangesFor p) verb.now).1 } := by
      simp [DeliveryDesk.onDatachange, DeliveryDesk.fileDatachange, Population.known,
        Kind.isState, hknown, DeliveryDesk.datachangesFor]
    refine ⟨?_, ?_, ?_, ?_⟩
    · simp only [Verb.execute, Verb.call_eq, hroute]
      exact h.owner
    · simp only [Verb.execute, Verb.call_eq, hroute]
      rw [h.row, hmessage, decide_eq_false hu]
      simp
    · simp only [Verb.execute, Verb.call_eq, hroute, Worker.Road.call, List.foldl_cons,
        List.foldl_nil, hserved]
      rw [DeliveryDesk.datachangesFor_set, if_pos rfl, map_fileOn, hmessage, decide_eq_false hu,
        if_pos rfl, Edit.replay_snoc, ← h.desk]
    · simp only [Verb.execute, Verb.call_eq, hroute, Worker.Road.call, List.foldl_cons,
        List.foldl_nil]
      exact s.2.stamped_onDatachange population _ verb.now h.stamped

/-- The page after a sequence of verbs. -/
theorem executed_foldl {population : Population} {p : PageId} {u : User}
    (hknown : (population.page_connection_map.get p).isSome = true) :
    ∀ (verbs done : List (Verb V)) {s : Worker V B × DeliveryDesk V}, Executed p u done s →
      Executed p u (done ++ verbs) (verbs.foldl (Verb.execute population p) s)
  | [], done, _, h => by
    rw [List.append_nil]
    exact h
  | verb :: verbs, done, _, h => by
    have hrest := executed_foldl hknown verbs (done ++ [verb]) (h.execute hknown verb)
    rwa [List.append_assoc, List.singleton_append] at hrest

/-- A change that a verb appends arrives when the verb is called. -/
theorem arrivalOrder_of_mem_editOf {verb : Verb V} {change : Change V}
    (h : change ∈ (editOf verb.now verb.op).entry) : change.arrivalOrder = verb.now := by
  unfold editOf at h
  split at h
  · cases h
  · cases h
  · cases h
  · cases h
    rfl

/-- What a sequence of verbs leaves is in the order of arrival, if the clock does not go back. -/
theorem replay_sorted {verbs : List (Verb V)}
    (hclock : verbs.Pairwise fun verb later => verb.now ≤ later.now) :
    (Edit.replay (verbs.map fun verb => editOf verb.now verb.op)).Pairwise Earlier := by
  -- The entries of a replay are entries of its edits, in their order.
  refine List.Pairwise.sublist (Edit.replay_sublist _) ?_
  rw [List.filterMap_map, List.pairwise_filterMap]
  refine hclock.imp ?_
  intro verb later hle x hx y hy
  rw [Earlier, arrivalOrder_of_mem_editOf hx, arrivalOrder_of_mem_editOf hy]
  exact hle

/-- The edits of one road are those of the verbs that took it. -/
theorem onRoad_editsOf (u : User) (road : Bool) (verbs : List (Verb V)) :
    Edit.onRoad road (editsOf u verbs) =
      (verbs.filter fun verb => decide (verb.identity = u) == road).map fun verb =>
        editOf verb.now verb.op := by
  rw [Edit.onRoad, editsOf, List.filter_map, List.map_map]
  rfl

/-- Each of the two queues is in the order of arrival. -/
theorem onRoad_sorted (u : User) (road : Bool) {verbs : List (Verb V)}
    (hclock : verbs.Pairwise fun verb later => verb.now ≤ later.now) :
    (Edit.replay (Edit.onRoad road (editsOf u verbs))).Pairwise Earlier := by
  rw [onRoad_editsOf]
  exact replay_sorted (hclock.sublist List.filter_sublist)

/-- The numbers do not count for the order of arrival. -/
theorem pairwise_earlier_map_unnumbered {changes : List (Change V)} :
    (changes.map Change.unnumbered).Pairwise Earlier ↔ changes.Pairwise Earlier := by
  rw [List.pairwise_map]
  rfl

/-- The daemon's list is the one list of the edits, on whichever road they are. -/
theorem daemonList_eq (u : User) (verbs : List (Verb V)) :
    daemonList verbs = Edit.one (editsOf u verbs) := by
  rw [daemonList, Edit.one, editsOf, List.map_map]
  rfl

/-- The row and the desk as one list. Take a page with an owner, known at the vertex, with nothing
waiting for it, and a sequence of verbs addressed at it, each executed after the one before under a
clock that does not go back, the owner's on the row and everybody else's at the desk. The collect
that then comes answers, and what it returns of the row and of the desk is what the daemon's one
list would hold, ties of arrival aside, if and only if every pending change that some later verb
takes out is taken out by a later verb of its own road as well. -/
theorem collect_is_daemonList_iff [PyValue V] [LegacyBag B V] (population : Population)
    (worker : Worker V B) (desk : DeliveryDesk V) (p : PageId) (u : User)
    (howner : worker.registry.pageUser p = some u)
    (hknown : (population.page_connection_map.get p).isSome = true)
    (hrow : worker.rowQueue p = []) (hdesk : desk.datachangesFor p = []) (verbs : List (Verb V))
    (hclock : verbs.Pairwise fun verb later => verb.now ≤ later.now)
    (dbevents : List (DbEvent V × Instant)) (own_dbevents : List (DbEvent V))
    (clock : ℕ → PageId → Instant) :
    ∃ delivery,
      collectPage p (verbs.foldl (Verb.execute population p) (worker, desk)) dbevents own_dbevents
          clock = .ok delivery ∧
        (SameUpToTies (Worker.arrived delivery.datachanges) (daemonList verbs) ↔
          Edit.OwnRoad (editsOf u verbs)) := by
  have hstart : Executed p u [] (worker, desk) := {
    owner := howner
    row := hrow
    desk := by
      rw [hdesk]
      rfl
    stamped := by
      rw [hdesk]
      exact fun _ hc => absurd hc List.not_mem_nil }
  -- The two queues are the replays of the two roads.
  have hafter := executed_foldl hknown verbs [] hstart
  rw [List.nil_append] at hafter
  generalize verbs.foldl (Verb.execute population p) (worker, desk) = s at hafter ⊢
  obtain ⟨row, hget⟩ := Registry.row_there hafter.owner
  have hqueue := hafter.row
  rw [Worker.rowQueue_of_get hget] at hqueue
  -- The collect finds its page and its owner, and answers.
  have hreply : (s.2.exchange p u dbevents).2.datachanges = s.2.datachangesFor p := by
    rw [DeliveryDesk.exchange_reply]
  obtain ⟨_, delivery, hok, harrived⟩ := s.1.collectFinish_of_there
    (s.2.exchange p u dbevents).2 own_dbevents clock hget (Registry.user_there hafter.owner)
    (hreply ▸ hafter.stamped)
  rw [hreply] at harrived
  -- What is returned is the two queues together, in the order of arrival.
  have hperm : (Worker.arrived delivery.datachanges).Perm (Edit.two (editsOf u verbs)) := by
    have hmerge := (mergeOn_perm Change.arrivalOrder row.datachanges
      (s.2.datachangesFor p)).map Change.unnumbered
    rw [List.map_append, hafter.desk] at hmerge
    rw [harrived, Edit.two, ← hqueue]
    exact hmerge
  have hsorted : (Worker.arrived delivery.datachanges).Pairwise Earlier := by
    have hrows := onRoad_sorted u true hclock
    have hdesks := onRoad_sorted u false hclock
    rw [← hqueue, PageRow.queue, pairwise_earlier_map_unnumbered] at hrows
    rw [← hafter.desk, pairwise_earlier_map_unnumbered] at hdesks
    rw [harrived, pairwise_earlier_map_unnumbered]
    exact mergeOn_sorted hrows hdesks
  refine ⟨delivery, ?_, ?_⟩
  · simp only [collectPage, Worker.collectLookup_of_pageUser hafter.owner, hok]
  · rw [← Edit.two_perm_one_iff, ← daemonList_eq]
    constructor
    · intro h
      exact hperm.symm.trans h.1
    · intro h
      exact ⟨hperm.trans h, hsorted, replay_sorted hclock⟩

/-- The verbs of two users: each empties the pending changes after having set one. -/
def bothReset : List (Verb Sample.Value) :=
  [⟨"u", .setDatachange (some (Sample.change "a" 1)) false, 1⟩,
    ⟨"v", .setDatachange (some (Sample.change "b" 2)) false, 2⟩,
    ⟨"v", .resetDatachanges, 3⟩, ⟨"u", .resetDatachanges, 4⟩,
    ⟨"v", .setDatachange (some (Sample.change "c" 3)) true, 5⟩]

/-- What both roads take out is gone, and the last change is returned. -/
theorem collect_is_daemonList_both_reset :
    ∃ delivery,
      collectPage "p" (bothReset.foldl (Verb.execute (Sample.start ["p"]).population "p")
          ((Sample.start ["p"]).worker, (Sample.start ["p"]).desk)) [] [] (fun _ _ => 6) =
        .ok delivery ∧
      SameUpToTies (Worker.arrived delivery.datachanges) (daemonList bothReset) := by
  obtain ⟨delivery, hok, hiff⟩ := collect_is_daemonList_iff
    (Sample.start ["p"]).population (Sample.start ["p"]).worker (Sample.start ["p"]).desk "p" "u"
    rfl rfl rfl rfl bothReset (by decide) [] [] fun _ _ => 6
  refine ⟨delivery, hok, hiff.2 ?_⟩
  simp [bothReset, editsOf, Edit.OwnRoad, editOf, Edit.onRoad, Edit.survives]

/-- The owner sets a change, on the row, and another user empties the queue, at the desk. -/
def foreignReset : List (Verb Sample.Value) :=
  [⟨"u", .setDatachange (some (Sample.change "a" 1)) false, 1⟩, ⟨"v", .resetDatachanges, 2⟩]

/-- The change outlives the reset: the daemon's list would be empty, and the collect returns it. -/
theorem reset_misses_the_row :
    ∃ delivery,
      collectPage "p" (foreignReset.foldl (Verb.execute (Sample.start ["p"]).population "p")
          ((Sample.start ["p"]).worker, (Sample.start ["p"]).desk)) [] [] (fun _ _ => 3) =
        .ok delivery ∧
      Worker.arrived delivery.datachanges = [(Sample.change "a" 1).arriving 1] ∧
      daemonList foreignReset = [] ∧
      ¬ SameUpToTies (Worker.arrived delivery.datachanges) (daemonList foreignReset) := by
  refine ⟨_, rfl, rfl, rfl, ?_⟩
  intro hsame
  exact absurd hsame.1.length_eq (by decide)

end GenropyAsgi.Delivery
