import GenropyAsgi.Delivery.Replay

/-!
# What a page watches moves

The prefixes of its own store that a page watches are opened and closed one by one, by
`setStoreSubscription` with `storename='page'`, while the store is edited and the page collects.
`Watch` is the page's row, its store and the replica that the browser keeps. The replica stays right
through every such run as long as each prefix, at its opening, finds the replica with the pending
changes made to it right there; and no longer (`right_throughout_iff`).

`setPendingContext` writes the context of a page into its store, one path after another, and opens
each path once it is written. So the write itself is not delivered unless the path falls under one
that is open already, and the replica stays right exactly when the browser holds the values that it
is not delivered (`pending_context_right_iff`).
-/

namespace GenropyAsgi.Replay

open Library PathTree Peek

variable {V : Type}

/-- A page's row, its own store, and the replica that its browser keeps. -/
structure Watch (V : Type) where
  /-- The row. -/
  page : PageRow V
  /-- The store. -/
  store : V
  /-- The replica. -/
  replica : V

/-- What happens to a page and its store. -/
inductive WatchAct (V : Type) where
  /-- The store is edited, its Bag sends the events of the edit, and the capture hears them. -/
  | edit (made : StoreEdit V) (events : List (BagEvent V)) (clock : ℕ → Instant × Instant)
  /-- `setStoreSubscription(storename='page')`: a prefix is opened or closed. -/
  | setStoreSubscription (top : String) (active : Bool)
  /-- The page collects its row, and the browser makes the changes to the replica. -/
  | collect

/-- `setStoreSubscription` on the row, for `storename='page'`. -/
def setStoreSubscription (page : PageRow V) (top : String) (active : Bool) : PageRow V :=
  { page with
    subscribed_paths :=
      if active then insert top page.subscribed_paths else page.subscribed_paths.erase top }

/-- It is what the verb of the worker does to the row of the page. -/
theorem get_setStoreSubscription {registry : Registry V} {p : PageId} {page : PageRow V}
    (hrow : registry.page_register.get p = some page) (top : String) (active : Bool) :
    (registry.setStoreSubscription p .page top active).1.page_register.get p =
      some (setStoreSubscription page top active) := by
  simp only [Registry.setStoreSubscription, hrow, Registry.setPage, Dict.get_set, if_true]
  rfl

section

variable [PyValue V] [Branching String V]

/-- One step. -/
def watchStep (w : Watch V) : WatchAct V → Option (Watch V)
  | .edit made events clock =>
    some { w with page := hearOwn w.page events clock, store := made.edit.on w.store }
  | .setStoreSubscription top active =>
    some { w with page := setStoreSubscription w.page top active }
  | .collect =>
    some { w with page := w.page.drained, replica := replay w.replica (dressed w.page.datachanges) }

/-- The replica as it is once the pending changes are made to it. -/
def Watch.caughtUp (w : Watch V) : V := replay w.replica (dressed w.page.datachanges)

/-- Once the pending changes are made to it, the replica has what the store has at every open
prefix. -/
def Watch.Right (w : Watch V) : Prop :=
  Reproduced w.page.subscribed_paths w.caughtUp w.store

/-- The edits: the Bag sends what it has to, under no reason that it uses itself, and no edit is
above an open prefix unless it is under one. -/
def Regular (w : Watch V) : WatchAct V → Prop
  | .edit made events _ => Sends w.store made events ∧ made.reason ≠ some "autocreate" ∧
    ∀ top ∈ w.page.subscribed_paths,
      under top made.path = true → underAny w.page.subscribed_paths made.path = true
  | .setStoreSubscription .. => True
  | .collect => True

/-- A prefix that is opened finds the replica right there. -/
def OpensRight (w : Watch V) : WatchAct V → Prop
  | .setStoreSubscription top true => lookup w.caughtUp (labels top) = lookup w.store (labels top)
  | .setStoreSubscription _ false => True
  | .edit .. => True
  | .collect => True

omit [Branching String V] in
/-- The capture leaves the prefixes as they are. -/
theorem subscribed_paths_hearOwn (page : PageRow V) (events : List (BagEvent V))
    (clock : ℕ → Instant × Instant) :
    (hearOwn page events clock).subscribed_paths = page.subscribed_paths := by
  unfold hearOwn
  generalize events.zipIdx = numbered
  induction numbered generalizing page with
  | nil => rfl
  | cons event numbered ih =>
    rw [List.foldl_cons, ih, PageRow.subscribed_paths_onEvent]

/-- One step keeps the replica right exactly when a prefix that it opens finds it right. -/
theorem right_step {w w' : Watch V} {a : WatchAct V} (ha : Regular w a) (hright : w.Right)
    (h : watchStep w a = some w') : w'.Right ↔ OpensRight w a := by
  cases a with
  | edit made events clock =>
    cases h
    obtain ⟨hsends, hreason, habove⟩ := ha
    refine iff_of_true ?_ trivial
    -- One edit is a sequence of edits.
    have hedited : Edited w.store [made] (made.edit.on w.store) (events ++ []) :=
      Edited.cons hsends (Edited.nil _)
    rw [List.append_nil] at hedited
    have hqueue := pendingEdits_hearOwn w.page events clock
    have hreplay : replay w.replica (dressed (hearOwn w.page events clock).datachanges) =
        Edit.run w.caughtUp (events.flatMap (told w.page.subscribed_paths)) := by
      calc replay w.replica (dressed (hearOwn w.page events clock).datachanges)
          = Edit.run w.replica (pendingEdits (hearOwn w.page events clock).datachanges) := rfl
        _ = Edit.run w.replica (pendingEdits w.page.datachanges ++
              events.flatMap (told w.page.subscribed_paths)) := by rw [hqueue]
        _ = _ := Edit.run_append _ _ _
    unfold Watch.Right Watch.caughtUp
    dsimp only
    rw [subscribed_paths_hearOwn, hreplay]
    exact hedited.reproduced (fun edit hedit => by rw [List.mem_singleton.1 hedit]; exact hreason)
      (fun edit hedit => by rw [List.mem_singleton.1 hedit]; exact habove) hright
  | setStoreSubscription top active =>
    cases h
    cases active with
    | false =>
      refine iff_of_true ?_ trivial
      exact fun top' htop' => hright top' (Finset.mem_of_mem_erase htop')
    | true =>
      constructor
      · exact fun hafter => hafter top (Finset.mem_insert_self top _)
      · intro hopens top' htop'
        rcases Finset.mem_insert.1 htop' with rfl | hold
        · exact hopens
        · exact hright top' hold
  | collect =>
    cases h
    exact iff_of_true hright trivial

/-- The replica stays right. Take a page whose replica, once the pending changes are made to it, has
what the store has at every open prefix. Along every run of edits, none of them above an open prefix
unless it is under one, of prefixes opened and closed, and of collects: it is so in every state, if
and only if each prefix opened finds it so there. -/
theorem right_throughout_iff {w : Watch V} (hright : w.Right) {acts : List (WatchAct V)}
    (hregular : Meets watchStep Regular w acts) :
    Throughout watchStep Watch.Right w acts ↔ Meets watchStep OpensRight w acts := by
  have hbase : ∀ (s : Watch V) a s', (fun _ => True) s → Regular s a → watchStep s a = some s' →
      (fun _ : Watch V => True) s' := fun _ _ _ _ _ _ => trivial
  refine throughout_iff_meets hbase ?_ (fun s a s' _ ha hs h => right_step ha hs h) trivial hright
    hregular
  intro s a hnone
  cases a with
  | edit made events clock => cases hnone
  | setStoreSubscription top active => cases hnone
  | collect => cases hnone

/-! ## The pending context -/

omit [PyValue V] in
/-- Edits that go through paths which part from another one change nothing there. -/
theorem lookup_run_apart {paths : Finset String} {path : String}
    (hnot : underAny paths path = false)
    (habove : ∀ top ∈ paths, under top path = true → underAny paths path = true) :
    ∀ (edits : List (Edit String V)) (v : V), (∀ edit ∈ edits, edit.Watched (tops paths)) →
      lookup (Edit.run v edits) (labels path) = lookup v (labels path)
  | [], _, _ => rfl
  | edit :: edits, v, hedits => by
    obtain ⟨_, ⟨top, htop, rfl⟩, hle⟩ := hedits edit List.mem_cons_self
    -- The path is neither under the prefix nor above it.
    have hbelow : ¬ labels top <+: labels path := by
      intro h
      have hunder : underAny paths path = true :=
        decide_eq_true ⟨top, htop, (under_iff path top).2 h⟩
      rw [hnot] at hunder
      cases hunder
    have hbeyond : ¬ labels path <+: labels top := by
      intro h
      have hunder := habove top htop ((under_iff top path).2 h)
      rw [hnot] at hunder
      cases hunder
    have hapart : Apart edit.path (labels path) := by
      constructor
      · exact fun h => hbelow (hle.trans h)
      · intro h
        rcases List.prefix_or_prefix_of_prefix hle h with h' | h'
        · exact hbelow h'
        · exact hbeyond h'
    have hrest := lookup_run_apart hnot habove edits (edit.on v) fun later hlater =>
      hedits later (List.mem_cons_of_mem edit hlater)
    exact hrest.trans (Edit.lookup_on_apart hapart v)

omit [PyValue V] in
/-- Where the replica is right, it is right at every path under an open prefix. -/
theorem lookup_eq_of_underAny {paths : Finset String} {replica store : V}
    (h : Reproduced paths replica store) {path : String} (hunder : underAny paths path = true) :
    lookup replica (labels path) = lookup store (labels path) := by
  obtain ⟨top, htop, htop'⟩ := of_decide_eq_true hunder
  obtain ⟨rest, hrest⟩ := (under_iff path top).1 htop'
  rw [← hrest, lookup_append, lookup_append, h top htop]

/-- One path of the context of a page, with its value; and what the Bag sends for the write. -/
structure ContextEntry (V : Type) where
  /-- The path. -/
  serverpath : String
  /-- The value. -/
  value : V
  /-- The events of the write. -/
  events : List (BagEvent V)
  /-- The instants that the capture reads. -/
  clock : ℕ → Instant × Instant

/-- `setPendingContext`: each value is written, and then its path is opened. -/
def setPendingContext (pendingContext : List (ContextEntry V)) : List (WatchAct V) :=
  pendingContext.flatMap fun entry =>
    [.edit (.setItem entry.serverpath entry.value none) entry.events entry.clock,
      .setStoreSubscription entry.serverpath true]

omit [PyValue V] in
/-- The browser holds the values of the context that it is not delivered: those of the paths that
fall under none which is open when they are written. -/
def HoldsContext (replica : V) : Finset String → List (ContextEntry V) → Prop
  | _, [] => True
  | paths, entry :: rest =>
    (underAny paths entry.serverpath = false →
      lookup replica (labels entry.serverpath) = some entry.value) ∧
    HoldsContext replica (insert entry.serverpath paths) rest

/-- Everything pending is under an open prefix. -/
def PendingWatched (w : Watch V) : Prop :=
  ∀ edit ∈ pendingEdits w.page.datachanges, edit.Watched (tops w.page.subscribed_paths)

omit [PyValue V] [Branching String V] in
/-- What is watched stays so when another prefix is opened. -/
theorem watched_insert {paths : Finset String} {edit : Edit String V}
    (h : edit.Watched (tops paths)) (top : String) : edit.Watched (tops (insert top paths)) := by
  obtain ⟨_, ⟨top', htop', rfl⟩, hle⟩ := h
  exact ⟨_, ⟨top', Finset.mem_insert_of_mem htop', rfl⟩, hle⟩

/-- What a write adds to the pending changes: itself under an open prefix, and nothing elsewhere. -/
theorem pendingEdits_edit {w : Watch V} {made : StoreEdit V} {events : List (BagEvent V)}
    {clock : ℕ → Instant × Instant} (hregular : Regular w (.edit made events clock)) :
    (underAny w.page.subscribed_paths made.path = true ∧
        pendingEdits (hearOwn w.page events clock).datachanges =
          pendingEdits w.page.datachanges ++ [made.edit]) ∨
      pendingEdits (hearOwn w.page events clock).datachanges =
        pendingEdits w.page.datachanges := by
  rw [pendingEdits_hearOwn]
  rcases hregular.1.told_eq hregular.2.1 w.page.subscribed_paths with htold | ⟨htold, _⟩
  · rw [htold]
    split_ifs with hunder
    · exact Or.inl ⟨hunder, rfl⟩
    · exact Or.inr (List.append_nil _)
  · rw [htold]
    exact Or.inr (List.append_nil _)

/-- The write of one entry of the context. -/
def ContextEntry.write (entry : ContextEntry V) : WatchAct V :=
  .edit (.setItem entry.serverpath entry.value none) entry.events entry.clock

/-- The page and its store after the write of an entry. -/
def Watch.written (w : Watch V) (entry : ContextEntry V) : Watch V :=
  { w with
    page := hearOwn w.page entry.events entry.clock
    store := (StoreEdit.setItem entry.serverpath entry.value none).edit.on w.store }

/-- The page and its store once the path of the entry is open too. -/
def Watch.opened (w : Watch V) (entry : ContextEntry V) : Watch V :=
  { w.written entry with
    page := setStoreSubscription (w.written entry).page entry.serverpath true }

/-- The open prefixes after an entry. -/
theorem subscribed_paths_opened (w : Watch V) (entry : ContextEntry V) :
    (w.opened entry).page.subscribed_paths =
      insert entry.serverpath w.page.subscribed_paths := by
  have hpaths := subscribed_paths_hearOwn w.page entry.events entry.clock
  unfold Watch.opened setStoreSubscription Watch.written
  dsimp only
  rw [if_pos rfl, hpaths]

/-- An entry of the context keeps everything pending under an open prefix. -/
theorem pendingWatched_opened {w : Watch V} (hown : PendingWatched w) {entry : ContextEntry V}
    (hregular : Regular w entry.write) : PendingWatched (w.opened entry) := by
  intro edit hedit
  rw [subscribed_paths_opened]
  have hedit : edit ∈ pendingEdits (hearOwn w.page entry.events entry.clock).datachanges := hedit
  rcases pendingEdits_edit hregular with ⟨hunder, hpending⟩ | hpending
  · rw [hpending] at hedit
    rcases List.mem_append.1 hedit with hold | hnew
    · exact watched_insert (hown edit hold) entry.serverpath
    · rw [List.mem_singleton.1 hnew]
      exact watched_insert ((watched_iff _ _).2 hunder) entry.serverpath
  · rw [hpending] at hedit
    exact watched_insert (hown edit hedit) entry.serverpath

/-- The path of an entry, once it is written, finds the replica right exactly when it was under an
open prefix or the browser holds the value. -/
theorem opensRight_entry {w : Watch V} (hright : w.Right) (hown : PendingWatched w)
    {entry : ContextEntry V} (hregular : Regular w entry.write) :
    OpensRight (w.written entry) (.setStoreSubscription entry.serverpath true) ↔
      (underAny w.page.subscribed_paths entry.serverpath = false →
        lookup w.replica (labels entry.serverpath) = some entry.value) := by
  have hafter : (w.written entry).Right := (right_step hregular hright rfl).2 trivial
  have hwritten : lookup (w.written entry).store (labels entry.serverpath) = some entry.value :=
    lookup_write_self w.store (labels entry.serverpath) entry.value
  have hpaths : (w.written entry).page.subscribed_paths = w.page.subscribed_paths :=
    subscribed_paths_hearOwn w.page entry.events entry.clock
  unfold OpensRight
  dsimp only
  rw [hwritten]
  cases hunder : underAny w.page.subscribed_paths entry.serverpath with
  | true =>
    -- The write has been delivered, or had nothing to change.
    refine iff_of_true ?_ nofun
    have hread := lookup_eq_of_underAny hafter (hpaths.symm ▸ hunder)
    exact hread.trans hwritten
  | false =>
    -- The write has not been delivered, and nothing pending reaches its path.
    have hpending : pendingEdits (w.written entry).page.datachanges =
        pendingEdits w.page.datachanges := by
      rcases pendingEdits_edit hregular with ⟨hunder', _⟩ | hpending
      · have hpath : (StoreEdit.setItem entry.serverpath entry.value none).path =
            entry.serverpath := rfl
        rw [hpath, hunder] at hunder'
        cases hunder'
      · exact hpending
    have hlookup := lookup_run_apart hunder hregular.2.2 _ w.replica hown
    have hcaught : (w.written entry).caughtUp =
        Edit.run w.replica (pendingEdits w.page.datachanges) := by
      rw [← hpending]
      rfl
    rw [hcaught, hlookup]
    simp

/-- Along the calls of `setPendingContext` every path opened finds the replica right exactly when
the browser holds the context. -/
theorem meets_setPendingContext :
    ∀ (entries : List (ContextEntry V)) {w : Watch V}, w.Right → PendingWatched w →
      Meets watchStep Regular w (setPendingContext entries) →
      (Meets watchStep OpensRight w (setPendingContext entries) ↔
        HoldsContext w.replica w.page.subscribed_paths entries)
  | [], _, _, _, _ => Iff.rfl
  | entry :: entries, w, hright, hown, hregular => by
    obtain ⟨hedit, hregular⟩ := hregular
    have hafter : (w.written entry).Right := (right_step hedit hright rfl).2 trivial
    have hopens := opensRight_entry hright hown hedit
    have hlater : Meets watchStep Regular (w.opened entry) (setPendingContext entries) :=
      (hregular (w.written entry) rfl).2 (w.opened entry) rfl
    -- Once the path is open, the rest of the context goes on from there.
    have hrest : OpensRight (w.written entry) (.setStoreSubscription entry.serverpath true) →
        (Meets watchStep OpensRight (w.opened entry) (setPendingContext entries) ↔
          HoldsContext w.replica (insert entry.serverpath w.page.subscribed_paths) entries) := by
      intro hopen
      have hopened : watchStep (w.written entry) (.setStoreSubscription entry.serverpath true) =
          some (w.opened entry) := rfl
      have hopens' : Regular (w.written entry) (.setStoreSubscription entry.serverpath true) :=
        trivial
      have hright' : (w.opened entry).Right := (right_step hopens' hafter hopened).2 hopen
      have hih := meets_setPendingContext entries hright' (pendingWatched_opened hown hedit) hlater
      rwa [subscribed_paths_opened] at hih
    constructor
    · rintro ⟨_, hmeets⟩
      obtain ⟨hopen, hmeets⟩ := hmeets (w.written entry) rfl
      exact ⟨hopens.1 hopen, (hrest hopen).1 (hmeets (w.opened entry) rfl)⟩
    · rintro ⟨hvalue, hheld⟩
      have hopen := hopens.2 hvalue
      have hwrite : watchStep w entry.write = some (w.written entry) := rfl
      have hopened : watchStep (w.written entry) (.setStoreSubscription entry.serverpath true) =
          some (w.opened entry) := rfl
      exact Meets.cons hwrite trivial (Meets.cons hopened hopen ((hrest hopen).2 hheld))

end

/-! ## A concrete context -/

namespace Sample

open GlobalStore

/-- A page with nothing open, whose browser holds an empty `form`. -/
def opening : Watch (Value ℤ) := ⟨page ∅, .bag [], .bag [("form", .bag [])]⟩

/-- `form`, and then `form.name` under it. -/
def context : List (ContextEntry (Value ℤ)) :=
  [⟨"form", .bag [], [⟨"form", ∅, .bag [], [], .ins, none⟩], fun n => (n, n)⟩,
    ⟨"form.name", .scalar 1, [⟨"name", ∅, .scalar 1, ["form"], .ins, none⟩], fun n => (n, n)⟩]

end Sample

end GenropyAsgi.Replay
