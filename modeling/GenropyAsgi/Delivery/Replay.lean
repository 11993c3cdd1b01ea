import GenropyAsgi.Library.Replica
import GenropyAsgi.DottedPath
import GenropyAsgi.Delivery.Readers
import GenropyAsgi.GlobalStore.Value

/-!
# Replaying what a page is delivered

A page keeps a replica of what it watches in a store, its own or its owner's, and makes to it the
changes that it is delivered: the value set at the path, or the node removed. The store is a tree of
values, edited at dotted paths. Of the Bag it is assumed that its events carry the path of the node
written, inserted or removed, once for each edit, and that the parents that a write makes are
announced under the reason `autocreate` (`Sends`).

An edit above a watched prefix has a path that falls under none, so neither capture hears of it: the
replica is right as long as there are no such edits (`delivered_reproduces_watched`).
-/

namespace GenropyAsgi.Replay

open Library PathTree Peek

variable {V : Type}

/-! ## The store and its Bag -/

/-- A write or a deletion that the site makes on a store. -/
inductive StoreEdit (V : Type) where
  /-- `setItem(path, value, _reason=reason)`. -/
  | setItem (path : String) (value : V) (reason : Option String)
  /-- `pop(path, _reason=reason)`. -/
  | pop (path : String) (reason : Option String)

namespace StoreEdit

/-- The path. -/
def path : StoreEdit V → String
  | setItem path _ _ => path
  | pop path _ => path

/-- The reason that the site gives. -/
def reason : StoreEdit V → Option String
  | setItem _ _ reason => reason
  | pop _ reason => reason

/-- What it does to the tree of the store. -/
def edit : StoreEdit V → Edit String V
  | setItem path value _ => .put (labels path) value
  | pop path _ => .drop (labels path)

/-- It is an edit at the labels of its path. -/
theorem path_edit (made : StoreEdit V) : made.edit.path = labels made.path := by
  cases made with
  | setItem path value reason => rfl
  | pop path reason => rfl

end StoreEdit

/-- An event is about the node at a path: `ins` and `del` carry the path of its parent, and the
update events its own. -/
def Announces (event : BagEvent V) (path : String) : Prop :=
  match event.evt with
  | .ins => event.pathlist ++ [event.label] = labels path
  | .del => event.pathlist ++ [event.label] = labels path
  | .upd _ => event.pathlist = labels path

/-- The path that the captures rebuild is the one that the event is about. -/
theorem Announces.path_eq {event : BagEvent V} {path : String} (h : Announces event path) :
    event.path = path := by
  unfold Announces at h
  unfold BagEvent.path
  cases hevt : event.evt with
  | ins =>
    rw [hevt] at h
    dsimp only at h ⊢
    rw [h, intercalate_labels]
  | del =>
    rw [hevt] at h
    dsimp only at h ⊢
    rw [h, intercalate_labels]
  | upd name =>
    rw [hevt] at h
    dsimp only at h ⊢
    rw [h, intercalate_labels]

section

variable [Branching String V]

/-- What a Bag with the content `store` sends for an edit. -/
inductive Sends (store : V) : StoreEdit V → List (BagEvent V) → Prop where
  /-- A write announces the parents that it makes, and the node written. -/
  | setItem {path : String} {value : V} {reason : Option String} {parents : List (BagEvent V)}
    {event : BagEvent V} (hparents : ∀ parent ∈ parents, parent.reason = some "autocreate")
    (hpath : Announces event path) (hevt : event.evt ≠ .del) (hvalue : event.staticvalue = value)
    (hreason : event.reason = reason) :
    Sends store (.setItem path value reason) (parents ++ [event])
  /-- A deletion announces the node removed. -/
  | pop {path : String} {reason : Option String} {event : BagEvent V}
    (hpath : Announces event path) (hevt : event.evt = .del) (hreason : event.reason = reason) :
    Sends store (.pop path reason) [event]
  /-- An edit that changes nothing may announce nothing. -/
  | silent {made : StoreEdit V} (hsame : made.edit.on store = store) : Sends store made []

/-- A sequence of edits, with the store that it leaves and the events that the Bag sends. -/
inductive Edited : V → List (StoreEdit V) → V → List (BagEvent V) → Prop where
  /-- No edit. -/
  | nil (store : V) : Edited store [] store []
  /-- One edit, and the others. -/
  | cons {store store' : V} {made : StoreEdit V} {rest : List (StoreEdit V)}
    {events events' : List (BagEvent V)} (hsends : Sends store made events)
    (hrest : Edited (made.edit.on store) rest store' events') :
    Edited store (made :: rest) store' (events ++ events')

/-- The store that the edits leave. -/
theorem Edited.store_eq {store store' : V} {made : List (StoreEdit V)}
    {events : List (BagEvent V)} (h : Edited store made store' events) :
    store' = Edit.run store (made.map StoreEdit.edit) := by
  induction h with
  | nil store => rfl
  | cons hsends hrest ih => exact ih

/-! ## The replica -/

/-- What a page does with a change that it is delivered. -/
def editOf (change : ClientDataChange V) : Edit String V :=
  if change.delete then .drop (labels change.path) else .put (labels change.path) change.value

/-- The changes made to a replica, in order. -/
def replay (replica : V) (changes : List (ClientDataChange V)) : V :=
  Edit.run replica (changes.map editOf)

/-- The replica has what the store has at each of the prefixes. -/
def Reproduced (paths : Finset String) (replica store : V) : Prop :=
  ∀ top ∈ paths, lookup replica (labels top) = lookup store (labels top)

end

/-! ## What the captures tell -/

/-- The edit that an event announces. -/
def eventEdit (event : BagEvent V) : Edit String V :=
  if event.evt = .del then .drop (labels event.path) else .put (labels event.path) event.staticvalue

/-- What a replica is told of an event by a capture with these prefixes. -/
def told (paths : Finset String) (event : BagEvent V) : List (Edit String V) :=
  if event.reason ≠ some "autocreate" ∧ underAny paths event.path = true then [eventEdit event]
  else []

/-- The edits that pending changes stand for. -/
def pendingEdits (changes : List (Change V)) : List (Edit String V) := (dressed changes).map editOf

theorem pendingEdits_append (changes changes' : List (Change V)) :
    pendingEdits (changes ++ changes') = pendingEdits changes ++ pendingEdits changes' := by
  unfold pendingEdits dressed
  rw [List.filter_append, List.map_append, List.map_append]

/-- An autocreated parent stays out of the envelope. -/
theorem pendingEdits_of_autocreate {change : Change V}
    (h : change.key.reason = some "autocreate") : pendingEdits [change] = [] := by
  unfold pendingEdits dressed isAutocreate
  simp [h]

/-- The prefixes as paths of the tree. -/
def tops (paths : Finset String) : Set (List String) := {path | ∃ top ∈ paths, labels top = path}

/-- The test of the captures is that of the tree. -/
theorem watched_iff (paths : Finset String) (made : StoreEdit V) :
    made.edit.Watched (tops paths) ↔ underAny paths made.path = true := by
  unfold Edit.Watched tops underAny
  rw [decide_eq_true_iff, made.path_edit]
  constructor
  · rintro ⟨_, ⟨top, htop, rfl⟩, hprefix⟩
    exact ⟨top, htop, (under_iff made.path top).2 hprefix⟩
  · rintro ⟨top, htop, hunder⟩
    exact ⟨labels top, ⟨top, htop, rfl⟩, (under_iff made.path top).1 hunder⟩

/-- An edit is clear when, above a prefix, it is under one. -/
theorem clear_of_underAny {paths : Finset String} {made : StoreEdit V}
    (h : ∀ top ∈ paths, under top made.path = true → underAny paths made.path = true) :
    made.edit.Clear (tops paths) := by
  rintro ⟨_, ⟨top, htop, rfl⟩, hbelow⟩
  rw [made.path_edit] at hbelow
  exact (watched_iff paths made).2 (h top htop ((under_iff top made.path).2 hbelow))

/-- The event of an edit tells it when it is watched. -/
theorem told_of_edit (paths : Finset String) (made : StoreEdit V) {event : BagEvent V}
    (hpath : event.path = made.path) (hreason : event.reason ≠ some "autocreate")
    (hedit : eventEdit event = made.edit) :
    told paths event = if underAny paths made.path = true then [made.edit] else [] := by
  unfold told
  rw [hedit, hpath]
  by_cases hunder : underAny paths made.path = true
  · rw [if_pos ⟨hreason, hunder⟩, if_pos hunder]
  · rw [if_neg fun h => hunder h.2, if_neg hunder]

section

variable [Branching String V]

/-- What the captures tell of one edit: the edit itself if it is watched, and nothing if it is not,
or if it changed nothing. -/
theorem Sends.told_eq {store : V} {made : StoreEdit V} {events : List (BagEvent V)}
    (h : Sends store made events) (hreason : made.reason ≠ some "autocreate")
    (paths : Finset String) :
    events.flatMap (told paths) = (if underAny paths made.path = true then [made.edit] else []) ∨
      events.flatMap (told paths) = [] ∧ made.edit.on store = store := by
  cases h with
  | @setItem path value reason parents event hparents hpath hevt hvalue hevent =>
    left
    -- The captures, or the envelope, leave the parents out.
    have hsilent : parents.flatMap (told paths) = [] := by
      rw [List.flatMap_eq_nil_iff]
      intro parent hparent
      unfold told
      rw [if_neg fun h => h.1 (hparents parent hparent)]
    have hedit : eventEdit event = .put (labels path) value := by
      unfold eventEdit
      rw [if_neg hevt, hpath.path_eq, hvalue]
    have htold := told_of_edit paths (.setItem path value reason) hpath.path_eq
      (hevent.symm ▸ hreason) hedit
    rw [List.flatMap_append, hsilent, List.nil_append, List.flatMap_singleton, htold]
  | @pop path reason event hpath hevt hevent =>
    left
    have hedit : eventEdit event = .drop (labels path) := by
      unfold eventEdit
      rw [if_pos hevt, hpath.path_eq]
    have htold := told_of_edit paths (.pop path reason) hpath.path_eq
      (hevent.symm ▸ hreason) hedit
    rw [List.flatMap_singleton, htold]
  | silent hsame => exact Or.inr ⟨rfl, hsame⟩

/-- The captures feed the replica. -/
theorem Edited.fed {store store' : V} {made : List (StoreEdit V)} {events : List (BagEvent V)}
    (h : Edited store made store' events)
    (hreason : ∀ edit ∈ made, edit.reason ≠ some "autocreate") (paths : Finset String) :
    Fed (tops paths) store (made.map StoreEdit.edit) (events.flatMap (told paths)) := by
  induction h with
  | nil store => exact Fed.nil store
  | @cons store store' edit rest events events' hsends hrest ih =>
    have hrest := ih fun edit hedit => hreason edit (List.mem_cons_of_mem _ hedit)
    rw [List.map_cons, List.flatMap_append]
    -- One edit: told, not watched, or without effect.
    rcases hsends.told_eq (hreason edit List.mem_cons_self) paths with htold | ⟨htold, hsame⟩
    · rw [htold]
      by_cases hunder : underAny paths edit.path = true
      · rw [if_pos hunder]
        exact Fed.told ((watched_iff paths edit).2 hunder) hrest
      · rw [if_neg hunder]
        exact Fed.unwatched (fun h => hunder ((watched_iff paths edit).1 h)) hrest
    · rw [htold]
      exact Fed.silent hsame hrest

/-- What is told of the edits keeps the replica right. -/
theorem Edited.reproduced {store store' replica : V} {made : List (StoreEdit V)}
    {events : List (BagEvent V)} (h : Edited store made store' events) {paths : Finset String}
    (hreason : ∀ edit ∈ made, edit.reason ≠ some "autocreate")
    (habove : ∀ edit ∈ made, ∀ top ∈ paths,
      under top edit.path = true → underAny paths edit.path = true)
    (hreplica : Reproduced paths replica store) :
    Reproduced paths (Edit.run replica (events.flatMap (told paths))) store' := by
  have hagree : Agree (tops paths) store replica := by
    rintro _ ⟨top, htop, rfl⟩
    exact (hreplica top htop).symm
  have hpath : ∀ edit ∈ made.map StoreEdit.edit, edit.path ≠ [] := by
    intro edit hedit
    obtain ⟨edit, -, rfl⟩ := List.mem_map.1 hedit
    rw [edit.path_edit]
    exact labels_ne_nil edit.path
  -- An edit above a prefix is one of those told.
  have hclear : ∀ edit ∈ made.map StoreEdit.edit, edit.Clear (tops paths) := by
    intro edit hedit
    obtain ⟨edit, hmem, rfl⟩ := List.mem_map.1 hedit
    exact clear_of_underAny (habove edit hmem)
  have hafter := (h.fed hreason paths).agree hagree hpath hclear
  intro top htop
  rw [h.store_eq]
  exact (hafter (labels top) ⟨top, htop, rfl⟩).symm

end

/-! ## The two captures -/

/-- A fold over numbered events, each of which adds what it tells to a reading of the state, adds
what they tell. -/
theorem foldl_tells {S E F : Type} (inv : S → Prop) (reading : S → List F) {tell : E → List F}
    {hear : S → E × ℕ → S}
    (hstep : ∀ s e, inv s → inv (hear s e) ∧ reading (hear s e) = reading s ++ tell e.1)
    (events : List E) (n : ℕ) {s : S} (h : inv s) :
    reading ((events.zipIdx n).foldl hear s) = reading s ++ events.flatMap tell := by
  induction events generalizing n s with
  | nil =>
    rw [List.flatMap_nil, List.append_nil]
    rfl
  | cons event events ih =>
    obtain ⟨hkept, hread⟩ := hstep s (event, n) h
    rw [List.zipIdx_cons, List.foldl_cons, ih (n + 1) hkept, hread, List.flatMap_cons,
      List.append_assoc]

section

variable [PyValue V]

/-- The events of a page's own store reaching its row, with the instant of each write and that of
each append. -/
def hearOwn (page : PageRow V) (events : List (BagEvent V)) (clock : ℕ → Instant × Instant) :
    PageRow V :=
  events.zipIdx.foldl (fun page event =>
    page.onEvent event.1 (clock event.2).1 (clock event.2).2) page

/-- A change built from an event, under any other reason, stands for the edit of the event. -/
theorem pendingEdits_of_event (event : BagEvent V) (reason : Option String) (now : Instant)
    {change : Change V} (hkey : change.key = (event.change reason now).key)
    (hvalue : change.value = (event.change reason now).value)
    (hdelete : change.delete = (event.change reason now).delete)
    (hreason : reason ≠ some "autocreate") :
    pendingEdits [change] = [eventEdit event] := by
  have hkept : isAutocreate change = false := by
    unfold isAutocreate
    rw [hkey]
    exact decide_eq_false hreason
  have hedit : editOf (changeToClient change) = eventEdit event := by
    unfold editOf changeToClient
    dsimp only
    rw [hkey, hvalue, hdelete]
    unfold BagEvent.change eventEdit
    by_cases hevt : event.evt = .del
    · simp [hevt]
    · simp [hevt]
  unfold pendingEdits dressed
  rw [List.filter_cons_of_pos (by rw [hkept]; rfl), List.filter_nil, List.map_singleton,
    List.map_singleton, hedit]

/-- The capture of the page's own store queues what the event tells. -/
theorem pendingEdits_onEvent_row (page : PageRow V) (event : BagEvent V)
    (written arrived : Instant) :
    pendingEdits (page.onEvent event written arrived).datachanges =
      pendingEdits page.datachanges ++ told page.subscribed_paths event := by
  unfold PageRow.onEvent PageRow.captures told
  by_cases hheard : event.reason ≠ some "autocreate" ∧
      underAny page.subscribed_paths event.path = true
  · have hcaptures : (decide (event.reason ≠ some "autocreate") &&
        underAny page.subscribed_paths event.path) = true := by
      rw [decide_eq_true hheard.1, hheard.2]
      rfl
    rw [if_pos hcaptures, if_pos hheard]
    have hqueue : (page.appendPageDatachange (PageRow.serverChange event written) false
        arrived).datachanges = page.datachanges ++
          [{ PageRow.serverChange event written with
            change_idx := page.datachanges_idx + 1, arrival_ts := some arrived }] := rfl
    -- The capture stamps its own reason, which the envelope lets through.
    have hother : (some "serverChange" : Option String) ≠ some "autocreate" := by decide
    rw [hqueue, pendingEdits_append]
    exact congrArg _ (pendingEdits_of_event event _ written rfl rfl rfl hother)
  · have hcaptures : ¬ (decide (event.reason ≠ some "autocreate") &&
        underAny page.subscribed_paths event.path) = true := by
      intro h
      obtain ⟨hreason, hunder⟩ := Bool.and_eq_true_iff.1 h
      exact hheard ⟨of_decide_eq_true hreason, hunder⟩
    rw [if_neg hcaptures, if_neg hheard, List.append_nil]

/-- So does the collector; what it keeps of the autocreated parents stays out of the envelope. -/
theorem pendingEdits_onEvent_view {view : LegacyBagCollector V} {paths : Finset String}
    (hpaths : view.paths = some paths) (event : BagEvent V) (now : Instant) :
    pendingEdits (view.onEvent event now).changes =
      pendingEdits view.changes ++ told paths event := by
  have hcaptures : view.captures event.path = underAny paths event.path := by
    unfold LegacyBagCollector.captures
    rw [hpaths]
  unfold LegacyBagCollector.onEvent told
  rw [hcaptures]
  by_cases hunder : underAny paths event.path = true
  · rw [if_pos hunder]
    have hqueue : (view.deposit (event.change event.reason now)).changes = view.changes ++
        [{ event.change event.reason now with change_idx := view.change_idx + 1 }] := rfl
    rw [hqueue, pendingEdits_append]
    -- The collector keeps the autocreated parents; the envelope leaves them out.
    by_cases hreason : event.reason = some "autocreate"
    · rw [if_neg fun h => h.1 hreason]
      exact congrArg _ (pendingEdits_of_autocreate hreason)
    · rw [if_pos ⟨hreason, hunder⟩]
      exact congrArg _ (pendingEdits_of_event event _ now rfl rfl rfl hreason)
  · rw [if_neg hunder, if_neg fun h => hunder h.2, List.append_nil]

/-- What a row's queue stands for after the events of the page's own store. -/
theorem pendingEdits_hearOwn (page : PageRow V) (events : List (BagEvent V))
    (clock : ℕ → Instant × Instant) :
    pendingEdits (hearOwn page events clock).datachanges =
      pendingEdits page.datachanges ++ events.flatMap (told page.subscribed_paths) := by
  refine foldl_tells (fun row : PageRow V => row.subscribed_paths = page.subscribed_paths)
    (fun row => pendingEdits row.datachanges) ?_ events 0 rfl
  rintro row ⟨event, n⟩ hpaths
  refine ⟨(row.subscribed_paths_onEvent event _ _).trans hpaths, ?_⟩
  rw [pendingEdits_onEvent_row, hpaths]

/-- What a collector's pending changes stand for after the events of its Bag. -/
theorem pendingEdits_hear {view : LegacyBagCollector V} {paths : Finset String}
    (hpaths : view.paths = some paths) {bag : BagId} (hbag : view.bag = bag)
    (hattached : view.attached = true) (events : List (BagEvent V)) (clock : ℕ → Instant) :
    pendingEdits (view.hear bag events clock).changes =
      pendingEdits view.changes ++ events.flatMap (told paths) := by
  unfold LegacyBagCollector.hear
  rw [if_pos ⟨hbag, hattached⟩]
  refine foldl_tells (fun c : LegacyBagCollector V => c.paths = some paths)
    (fun c => pendingEdits c.changes) ?_ events 0 hpaths
  rintro c ⟨event, n⟩ hc
  have hframe := (c.onEvent_frame event (clock n)).2.1
  exact ⟨hframe.trans hc, pendingEdits_onEvent_view hc event (clock n)⟩

variable [Branching String V]

/-- Replaying what a page is delivered reproduces what it watches. Take a page's own store under any
`subscribed_paths`, or its owner's under any `store_subscriptions`, and any sequence of edits none
of which is above a prefix unless it is under one. A replica that, with the pending changes made to
it, has what the store has at every prefix, has it after the edits with the changes then pending. -/
theorem delivered_reproduces_watched (replica : V) {store store' : V} {made : List (StoreEdit V)}
    {events : List (BagEvent V)} (hedited : Edited store made store' events) {paths : Finset String}
    (hreason : ∀ edit ∈ made, edit.reason ≠ some "autocreate")
    (habove : ∀ edit ∈ made, ∀ top ∈ paths,
      under top edit.path = true → underAny paths edit.path = true) :
    (∀ (page : PageRow V) (clock : ℕ → Instant × Instant), page.subscribed_paths = paths →
      Reproduced paths (replay replica (dressed page.datachanges)) store →
      Reproduced paths (replay replica (dressed (hearOwn page events clock).datachanges)) store') ∧
    ∀ (view : LegacyBagCollector V) (clock : ℕ → Instant), view.attached = true →
      view.paths = some paths → view.Numbered →
      Reproduced paths (replay replica (dressed view.drain.2)) store →
      Reproduced paths
        (replay replica (dressed (view.hear view.bag events clock).drain.2)) store' := by
  constructor
  · intro page clock hpaths hreplica
    have hqueue := pendingEdits_hearOwn page events clock
    rw [hpaths] at hqueue
    have hreplay : replay replica (dressed (hearOwn page events clock).datachanges) =
        Edit.run (replay replica (dressed page.datachanges)) (events.flatMap (told paths)) := by
      calc replay replica (dressed (hearOwn page events clock).datachanges)
          = Edit.run replica (pendingEdits (hearOwn page events clock).datachanges) := rfl
        _ = Edit.run replica (pendingEdits page.datachanges ++ events.flatMap (told paths)) := by
          rw [hqueue]
        _ = _ := Edit.run_append _ _ _
    rw [hreplay]
    exact hedited.reproduced hreason habove hreplica
  · intro view clock hattached hpaths hnumbered hreplica
    have hqueue := pendingEdits_hear hpaths rfl hattached events clock
    rw [hnumbered.drain_eq] at hreplica
    rw [(hnumbered.hear view.bag events clock).drain_eq]
    have hreplay : replay replica (dressed (view.hear view.bag events clock).changes) =
        Edit.run (replay replica (dressed view.changes)) (events.flatMap (told paths)) := by
      calc replay replica (dressed (view.hear view.bag events clock).changes)
          = Edit.run replica (pendingEdits (view.hear view.bag events clock).changes) := rfl
        _ = Edit.run replica (pendingEdits view.changes ++ events.flatMap (told paths)) := by
          rw [hqueue]
        _ = _ := Edit.run_append _ _ _
    rw [hreplay]
    exact hedited.reproduced hreason habove hreplica

end

/-! ## Concrete runs -/

namespace Sample

open GlobalStore

/-- Values over the integers; `True` is one. -/
instance : PyValue (Value ℤ) where
  none := .none
  true := .scalar 1
  ofInstant instant := .datetime (.aware instant)
  truthy
    | .none => false
    | .scalar n => decide (n ≠ 0)
    | .datetime _ => true
    | .list items => !items.isEmpty
    | .dict items => !items.isEmpty
    | .bag nodes => !nodes.isEmpty

/-- A page born with these `subscribed_paths`. -/
def page (paths : Finset String) : PageRow (Value ℤ) :=
  { PageRow.born "c" with subscribed_paths := paths }

/-- A collector born with these prefixes. -/
def view (paths : Finset String) : LegacyBagCollector (Value ℤ) := .new 0 (some paths)

/-- A store with one leaf, under `a.b`. -/
def store : Value ℤ := .bag [("a", .bag [("b", .scalar 1)])]

/-- `form.name` written in an empty store, with its parent announced. -/
def written : List (BagEvent (Value ℤ)) :=
  [⟨"form", ∅, .bag [], [], .ins, some "autocreate"⟩, ⟨"name", ∅, .scalar 1, ["form"], .ins, none⟩]

/-- Writing `form.name`. -/
theorem edited : Edited (.bag [] : Value ℤ) [.setItem "form.name" (.scalar 1) none]
    (Edit.run (.bag []) [.put (labels "form.name") (.scalar 1)]) written := by
  have hsends : Sends (.bag [] : Value ℤ) (.setItem "form.name" (.scalar 1) none) written := by
    have hparents : ∀ parent ∈ written.take 1, parent.reason = some "autocreate" := by
      intro parent hparent
      rw [List.mem_singleton.1 hparent]
    have hlast : Announces (⟨"name", ∅, .scalar 1, ["form"], .ins, none⟩ : BagEvent (Value ℤ))
        "form.name" := by
      show ["form"] ++ ["name"] = labels "form.name"
      decide +kernel
    exact Sends.setItem hparents hlast nofun rfl rfl
  exact Edited.cons hsends (Edited.nil _)

/-- A write that makes no parents sends one event. -/
theorem sends_leaf {store value : Value ℤ} {path : String} {reason : Option String}
    {e : BagEvent (Value ℤ)} (hpath : Announces e path) (hevt : e.evt ≠ .del)
    (hvalue : e.staticvalue = value) (hreason : e.reason = reason) :
    Sends store (.setItem path value reason) [e] := by
  have hparents : ∀ parent ∈ ([] : List (BagEvent (Value ℤ))),
      parent.reason = some "autocreate" := fun parent h => absurd h List.not_mem_nil
  exact Sends.setItem hparents hpath hevt hvalue hreason

end Sample

/-- A page that watches `form` in both stores, when `form.name` is written. -/
theorem delivered_reproduces_watched_form :
    Reproduced {"form"}
        (replay (.bag []) (dressed (hearOwn (Sample.page {"form"}) Sample.written
          fun n => (n, n)).datachanges))
        (Edit.run (.bag []) [.put (labels "form.name") (.scalar 1)]) ∧
      Reproduced {"form"}
        (replay (.bag []) (dressed ((Sample.view {"form"}).hear 0 Sample.written
          fun n => n).drain.2))
        (Edit.run (.bag []) [.put (labels "form.name") (.scalar 1)]) := by
  have hreason : ∀ edit ∈ [StoreEdit.setItem "form.name" (GlobalStore.Value.scalar (1 : ℤ)) none],
      edit.reason ≠ some "autocreate" := by
    intro edit hedit
    rw [List.mem_singleton.1 hedit]
    exact nofun
  have habove : ∀ edit ∈ [StoreEdit.setItem "form.name" (GlobalStore.Value.scalar (1 : ℤ)) none],
      ∀ top ∈ ({"form"} : Finset String),
        under top edit.path = true → underAny {"form"} edit.path = true := by
    intro edit hedit top _ _
    rw [List.mem_singleton.1 hedit]
    decide +kernel
  have hnumbered : (Sample.view {"form"}).Numbered := LegacyBagCollector.numbered_new _ _
  have hview : Reproduced {"form"}
      (replay (.bag []) (dressed (Sample.view {"form"}).drain.2)) (.bag []) := by
    rw [hnumbered.drain_eq]
    exact fun _ _ => rfl
  have h := delivered_reproduces_watched (.bag []) Sample.edited hreason habove
  exact ⟨h.1 (Sample.page {"form"}) _ rfl fun _ _ => rfl,
    h.2 (Sample.view {"form"}) _ rfl rfl hnumbered hview⟩

/-- An edit above a watched prefix is not delivered: with `a.b` watched, neither a write of `a` on
the page's own store nor a deletion of `a` on its owner's. Nor is a write under the reason that a
Bag gives to the parents that it makes. -/
theorem edit_above_not_delivered :
    (∃ events store', Edited Sample.store [.setItem "a" (.scalar 5) none] store' events ∧
      ¬ Reproduced {"a.b"}
        (replay Sample.store (dressed (hearOwn (Sample.page {"a.b"}) events
          fun n => (n, n)).datachanges)) store') ∧
    (∃ events store', Edited Sample.store [.pop "a" none] store' events ∧
      ¬ Reproduced {"a.b"}
        (replay Sample.store (dressed ((Sample.view {"a.b"}).hear 0 events
          fun n => n).drain.2)) store') ∧
    ∃ events store', Edited (.bag []) [.setItem "a" (.scalar 5) (some "autocreate")] store' events ∧
      ¬ Reproduced {"a"}
        (replay (.bag []) (dressed (hearOwn (Sample.page {"a"}) events
          fun n => (n, n)).datachanges)) store' := by
  have hfails : ∀ {paths : Finset String} {top : String} {replica store' : GlobalStore.Value ℤ},
      top ∈ paths →
      (lookup replica (labels top)).isSome ≠ (lookup store' (labels top)).isSome →
      ¬ Reproduced paths replica store' := by
    intro paths top replica store' htop hne h
    exact hne (by rw [h top htop])
  have hlabel : ["a"] = labels "a" := by decide +kernel
  have hwrite : Sends Sample.store (.setItem "a" (.scalar 5) none)
      [⟨"a", ∅, .scalar 5, ["a"], .upd "upd_value", none⟩] :=
    Sample.sends_leaf hlabel nofun rfl rfl
  have hdelete : Sends Sample.store (.pop "a" none)
      [⟨"a", ∅, .bag [("b", .scalar 1)], [], .del, none⟩] := Sends.pop hlabel rfl rfl
  have hparent : Sends (.bag [] : GlobalStore.Value ℤ)
      (.setItem "a" (.scalar 5) (some "autocreate"))
      [⟨"a", ∅, .scalar 5, [], .ins, some "autocreate"⟩] :=
    Sample.sends_leaf hlabel nofun rfl rfl
  refine ⟨⟨_, _, Edited.cons hwrite (Edited.nil _), ?_⟩,
    ⟨_, _, Edited.cons hdelete (Edited.nil _), ?_⟩, ⟨_, _, Edited.cons hparent (Edited.nil _), ?_⟩⟩
  · exact hfails (Finset.mem_singleton_self "a.b") (by decide +kernel)
  · exact hfails (Finset.mem_singleton_self "a.b") (by decide +kernel)
  · exact hfails (Finset.mem_singleton_self "a") (by decide +kernel)

end GenropyAsgi.Replay
