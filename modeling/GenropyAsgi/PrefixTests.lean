import GenropyAsgi.DottedPath
import GenropyAsgi.Worker
import GenropyAsgi.Views.PendingList

/-!
# The prefix tests

Four places of the bridge ask whether a path falls under a prefix: the desk's `_under`, the
collector's `_under`, the capture of the page's own store, and the `prune` of `drop_datachanges`.
Each has its definition here, which the operations that use it are shown to apply, and all of them
compare labels (`under_intercalate_iff`).

So a drop takes the same changes out of a queue on the row (`datachanges_dropDatachanges`) and at
the desk (`datachangesFor_dropDatachanges`), and a capture that is widened by a prefix already
covered takes in what it took in before, for the collector (`serve_subscribePath`) and for the row
(`heard_widened`).
-/

namespace GenropyAsgi

open Library

variable {V B : Type}

/-! ## The four tests -/

/-- `_under` of the desk. -/
def DeliveryDesk.isUnder (path top : String) : Bool := under path top

/-- `_under` of the collector. -/
def LegacyBagCollector.isUnder (path top : String) : Bool := under path top

/-- The test of the capture of the page's own store, on the subscribed prefixes. -/
def PageRow.isCaptured (paths : Finset String) (path : String) : Bool := underAny paths path

/-- The test of `prune` on a pending change. -/
def PageRow.isPruned (path : String) (pending : Change V) : Bool := under pending.key.path path

/-- A drop at the desk keeps the changes that its test does not find. -/
theorem Op.fileOn_dropDatachanges (queue : List (Change V)) (now : Instant) (path : String) :
    ((Op.dropDatachanges path).fileOn queue now).1 =
      queue.filter fun pending => !DeliveryDesk.isUnder pending.key.path path := rfl

/-- A collector with prefixes captures what its test finds under one of them. -/
theorem LegacyBagCollector.captures_iff {collector : LegacyBagCollector V} {paths : Finset String}
    (h : collector.paths = some paths) (path : String) :
    collector.captures path = true ↔ ∃ top ∈ paths, isUnder path top = true := by
  unfold captures
  rw [h]
  exact decide_eq_true_iff

/-- The capture of the page's own store applies its test to the row's prefixes. -/
theorem PageRow.captures_eq (page : PageRow V) (event : BagEvent V) :
    page.captures event = (decide (event.reason ≠ some "autocreate") &&
      isCaptured page.subscribed_paths event.path) := rfl

/-- A drop on the row keeps the changes that its test does not find. -/
theorem PageRow.datachanges_prune (page : PageRow V) (path : String) :
    (page.prune path).datachanges =
      page.datachanges.filter fun pending => !isPruned path pending := rfl

namespace PrefixTests

/-! ## The drops -/

/-- What a drop keeps of a queue: the changes whose path does not go through the prefix. -/
def keptBy (path : String) (queue : List (Change V)) : List (Change V) :=
  queue.filter fun pending => !decide (labels path <+: labels pending.key.path)

/-- The changes that the tests do not find are those that a drop keeps. -/
theorem filter_not_under (path : String) (queue : List (Change V)) :
    queue.filter (fun pending => !under pending.key.path path) = keptBy path queue := by
  apply List.filter_congr
  intro pending _
  congr 1
  rw [Bool.eq_iff_iff, under_iff]
  exact decide_eq_true_iff.symm

/-- A drop on the row of a page of the caller's own. -/
theorem datachanges_dropDatachanges {worker : Worker V B} {identity : User} {target : PageId}
    {page : PageRow V} (hrow : worker.registry.page_register.get target = some page)
    (howner : worker.registry.pageUser target = some identity) (path : String) (now : Instant) :
    ((worker.dropDatachanges identity path (some target) none now).1.registry.page_register.get
      target).map PageRow.datachanges = some (keptBy path page.datachanges) := by
  have hroute := (Worker.routeDatachange_own hrow howner (.dropDatachanges path) now).1
  have hpruned : (page.prune path).datachanges = keptBy path page.datachanges := by
    rw [PageRow.datachanges_prune]
    exact filter_not_under path page.datachanges
  unfold Worker.dropDatachanges
  rw [hroute, Registry.setPage, Dict.get_set, if_pos rfl, Option.map_some]
  exact congrArg some hpruned

/-- A drop that the desk serves, on the queue of a known page. -/
theorem datachangesFor_dropDatachanges (desk : DeliveryDesk V) {population : Population}
    {target : PageId} (hknown : population.known .page target = true) (path : String)
    (now : Instant) :
    (desk.onDatachange population ⟨.dropDatachanges path, .page, some target, none⟩
      now).1.datachangesFor target = keptBy path (desk.datachangesFor target) := by
  have hserved : (desk.onDatachange population ⟨.dropDatachanges path, .page, some target, none⟩
      now).1 = { desk with
        page_datachange_map := desk.page_datachange_map.set target
          ((Op.dropDatachanges path).fileOn (desk.datachangesFor target) now).1 } := by
    simp [DeliveryDesk.onDatachange, DeliveryDesk.fileDatachange, hknown, Kind.isState,
      DeliveryDesk.datachangesFor]
  rw [hserved, DeliveryDesk.datachangesFor_set, if_pos rfl, Op.fileOn_dropDatachanges]
  exact filter_not_under path (desk.datachangesFor target)

/-! ## The widened captures -/

/-- A prefix already covered adds nothing. -/
theorem underAny_insert {paths : Finset String} {top : String} (h : underAny paths top = true)
    (path : String) : underAny (insert top paths) path = underAny paths path := by
  obtain ⟨cover, hcover, htop⟩ := of_decide_eq_true h
  unfold underAny
  rw [decide_eq_decide]
  constructor
  · rintro ⟨found, hfound, hpath⟩
    rcases Finset.mem_insert.1 hfound with rfl | hold
    · exact ⟨cover, hcover, under_trans hpath htop⟩
    · exact ⟨found, hold, hpath⟩
  · rintro ⟨found, hfound, hpath⟩
    exact ⟨found, Finset.mem_insert_of_mem hfound, hpath⟩

/-- Two sets of prefixes that cover the same paths do so with a prefix more. -/
theorem underAny_insert_congr {paths paths' : Finset String}
    (h : ∀ path, underAny paths' path = underAny paths path) (top path : String) :
    underAny (insert top paths') path = underAny (insert top paths) path := by
  have hiff := h path
  simp only [underAny, decide_eq_decide] at hiff ⊢
  simp only [Finset.mem_insert, exists_eq_or_imp, hiff]

/-- Two collectors that differ in their prefixes alone, which cover the same paths. -/
structure SameWindow (c c' : LegacyBagCollector V) : Prop where
  /-- Both have prefixes, and these cover the same paths. -/
  covers : ∃ paths paths', c.paths = some paths ∧ c'.paths = some paths' ∧
    ∀ path, underAny paths' path = underAny paths path
  /-- All else is the same. -/
  same : c' = { c with paths := c'.paths }

/-- Two such collectors capture the same paths. -/
theorem SameWindow.captures {c c' : LegacyBagCollector V} (h : SameWindow c c') (path : String) :
    c'.captures path = c.captures path := by
  obtain ⟨paths, paths', hpaths, hpaths', hcovers⟩ := h.covers
  unfold LegacyBagCollector.captures
  rw [hpaths, hpaths']
  exact hcovers path

/-- An operation other than `unsubscribe_path` is answered alike, and keeps the windows the same. -/
theorem SameWindow.act [PyValue V] {c c' : LegacyBagCollector V} (h : SameWindow c c')
    {a : PendingList.Act V} (ha : ∀ top, a ≠ .unsubscribePath top) :
    (PendingList.act c a).2 = (PendingList.act c' a).2 ∧
      SameWindow (PendingList.act c a).1 (PendingList.act c' a).1 := by
  have hcaptures := h.captures
  obtain ⟨⟨paths, paths', hpaths, hpaths', hcovers⟩, hsame⟩ := h
  -- The second collector is the first one with its own prefixes.
  rw [hpaths'] at hsame
  subst hsame
  have hwindow : ∃ tops tops', c.paths = some tops ∧ some paths' = some tops' ∧
      ∀ path, underAny tops' path = underAny tops path := ⟨paths, paths', hpaths, rfl, hcovers⟩
  cases a with
  | event event now =>
    -- Only an event reads the prefixes, and both captures take it or neither does.
    refine ⟨rfl, ?_⟩
    rw [PendingList.act_event, PendingList.act_event, hcaptures]
    split_ifs
    · exact ⟨hwindow, rfl⟩
    · exact ⟨hwindow, rfl⟩
  | append change replace => cases replace <;> exact ⟨rfl, hwindow, rfl⟩
  | drop top => exact ⟨rfl, hwindow, rfl⟩
  | reset => exact ⟨rfl, hwindow, rfl⟩
  | drain reset => exact ⟨rfl, hwindow, rfl⟩
  | subscribePath top =>
    refine ⟨rfl, ⟨insert top paths, insert top paths', ?_, rfl, ?_⟩, rfl⟩
    · simp [PendingList.act, LegacyBagCollector.subscribePath, hpaths]
    · exact underAny_insert_congr hcovers top
  | unsubscribePath top => exact absurd rfl (ha top)
  | detach => exact ⟨rfl, hwindow, rfl⟩

/-- A collector widened by a prefix that it covers already has the same window. -/
theorem sameWindow_subscribePath {collector : LegacyBagCollector V} {paths : Finset String}
    (hpaths : collector.paths = some paths) {top : String} (hcovered : underAny paths top = true) :
    SameWindow collector (collector.subscribePath top) where
  covers := by
    refine ⟨paths, insert top paths, hpaths, ?_, underAny_insert hcovered⟩
    simp [LegacyBagCollector.subscribePath, hpaths]
  same := rfl

/-- Along every sequence of operations, but for a later `unsubscribe_path`, a collector widened by a
prefix that it covers already answers and holds the same changes. -/
theorem serve_subscribePath [PyValue V] {collector : LegacyBagCollector V} {paths : Finset String}
    (hpaths : collector.paths = some paths) {top : String} (hcovered : underAny paths top = true)
    {acts : List (PendingList.Act V)} (hacts : ∀ a ∈ acts, ∀ top, a ≠ .unsubscribePath top) :
    (serve PendingList.act (collector.subscribePath top) acts).2 =
        (serve PendingList.act collector acts).2 ∧
      (serve PendingList.act (collector.subscribePath top) acts).1.changes =
        (serve PendingList.act collector acts).1.changes := by
  have hstep : ∀ (c c' : LegacyBagCollector V) (a : PendingList.Act V), SameWindow c c' →
      (∀ top, a ≠ .unsubscribePath top) →
        (PendingList.act c a).2 = (PendingList.act c' a).2 ∧
          SameWindow (PendingList.act c a).1 (PendingList.act c' a).1 :=
    fun _ _ _ h ha => h.act ha
  obtain ⟨hanswers, hlast⟩ :=
    serve_refines hstep (sameWindow_subscribePath hpaths hcovered) hacts
  refine ⟨hanswers.symm, ?_⟩
  rw [hlast.same]

/-- What `setStoreSubscription` makes of the row of a page, on the page's own store. -/
def widened (page : PageRow V) (top : String) : PageRow V :=
  { page with subscribed_paths := insert top page.subscribed_paths }

/-- The subscription of a prefix of the page's own store widens the row. -/
theorem setStoreSubscription_page {registry : Registry V} {page_id : PageId} {page : PageRow V}
    (hrow : registry.page_register.get page_id = some page) (top : String) :
    registry.setStoreSubscription page_id .page top true =
      (registry.setPage page_id (widened page top), .ok ()) := by
  unfold Registry.setStoreSubscription
  rw [hrow]
  rfl

/-- A row widened by a prefix that it covers already captures the same events. -/
theorem captures_widened {page : PageRow V} {top : String}
    (hcovered : underAny page.subscribed_paths top = true) (event : BagEvent V) :
    (widened page top).captures event = page.captures event := by
  rw [PageRow.captures_eq, PageRow.captures_eq]
  congr 1
  exact underAny_insert hcovered event.path

/-- The events of a page's own store, with the instants of each write and of each append, reaching
the capture of its row. -/
def heard [PyValue V] (page : PageRow V) (events : List (BagEvent V × Instant × Instant)) :
    PageRow V :=
  events.foldl (fun page event => page.onEvent event.1 event.2.1 event.2.2) page

/-- The capture of one event does to the widened row what it does to the row. -/
theorem onEvent_widened [PyValue V] {page : PageRow V} {top : String}
    (hcovered : underAny page.subscribed_paths top = true) (event : BagEvent V)
    (written arrived : Instant) :
    (widened page top).onEvent event written arrived =
      widened (page.onEvent event written arrived) top := by
  unfold PageRow.onEvent
  rw [captures_widened hcovered]
  split_ifs <;> rfl

/-- A row widened by a prefix that it covers already hears the same of every sequence of events. -/
theorem heard_widened [PyValue V] {top : String} :
    ∀ (events : List (BagEvent V × Instant × Instant)) {page : PageRow V},
      underAny page.subscribed_paths top = true →
        heard (widened page top) events = widened (heard page events) top
  | [], _, _ => rfl
  | event :: events, page, hcovered => by
    have hnext : underAny (page.onEvent event.1 event.2.1 event.2.2).subscribed_paths top =
        true := by
      rw [PageRow.subscribed_paths_onEvent]
      exact hcovered
    have ih := heard_widened events hnext
    rw [← onEvent_widened hcovered] at ih
    exact ih

/-- A row on which a prefix already covered is subscribed again hears the same. -/
theorem heard_setStoreSubscription [PyValue V] {registry : Registry V} {page_id : PageId}
    {page : PageRow V} (hrow : registry.page_register.get page_id = some page) {top : String}
    (hcovered : underAny page.subscribed_paths top = true) :
    ∃ page', (registry.setStoreSubscription page_id .page top true).1.page_register.get page_id =
        some page' ∧
      (∀ event, page'.captures event = page.captures event) ∧
        ∀ events, (heard page' events).datachanges = (heard page events).datachanges := by
  refine ⟨widened page top, ?_, captures_widened hcovered, ?_⟩
  · rw [setStoreSubscription_page hrow]
    simp [Registry.setPage]
  · intro events
    rw [heard_widened events hcovered]
    rfl

/-! ## The agreement -/

/-- All the prefix tests mean the same. Take two paths joined from labels without dots. Each of the
four tests holds of them exactly when the labels of the second are an initial segment of those of
the first, and so a collector on the second captures the first. For every prefix, a drop takes the
same changes out of a queue on the row of a page of the caller's own and at the desk. And a capture
that is widened by a prefix already covered goes on as before: the collector along every sequence of
operations in which no prefix is taken away, and the row along every sequence of events of the
page's own store. -/
theorem prefix_tests_agree [PyValue V] {p q : List String} (hp : p ≠ []) (hq : q ≠ [])
    (hpdots : ∀ label ∈ p, '.' ∉ label.toList) (hqdots : ∀ label ∈ q, '.' ∉ label.toList) :
    ((DeliveryDesk.isUnder (".".intercalate p) (".".intercalate q) = true ↔ q <+: p) ∧
      (LegacyBagCollector.isUnder (".".intercalate p) (".".intercalate q) = true ↔ q <+: p) ∧
      (PageRow.isCaptured {".".intercalate q} (".".intercalate p) = true ↔ q <+: p) ∧
      (∀ pending : Change V, pending.key.path = ".".intercalate p →
        (PageRow.isPruned (".".intercalate q) pending = true ↔ q <+: p)) ∧
      ∀ collector : LegacyBagCollector V, collector.paths = some {".".intercalate q} →
        (collector.captures (".".intercalate p) = true ↔ q <+: p)) ∧
    (∀ (worker : Worker V B) (identity : User) (target : PageId) (page : PageRow V)
      (desk : DeliveryDesk V) (population : Population) (path : String) (now now' : Instant),
      worker.registry.page_register.get target = some page →
      worker.registry.pageUser target = some identity →
      population.known .page target = true → desk.datachangesFor target = page.datachanges →
        ((worker.dropDatachanges identity path (some target) none
            now).1.registry.page_register.get target).map PageRow.datachanges =
              some (keptBy path page.datachanges) ∧
          (desk.onDatachange population ⟨.dropDatachanges path, .page, some target, none⟩
            now').1.datachangesFor target = keptBy path page.datachanges) ∧
    (∀ (collector : LegacyBagCollector V) (paths : Finset String) (top : String),
      collector.paths = some paths → underAny paths top = true →
        (∀ path, (collector.subscribePath top).captures path = collector.captures path) ∧
          ∀ acts, (∀ a ∈ acts, ∀ top, a ≠ PendingList.Act.unsubscribePath top) →
            (serve PendingList.act (collector.subscribePath top) acts).2 =
                (serve PendingList.act collector acts).2 ∧
              (serve PendingList.act (collector.subscribePath top) acts).1.changes =
                (serve PendingList.act collector acts).1.changes) ∧
    ∀ (registry : Registry V) (page_id : PageId) (page : PageRow V) (top : String),
      registry.page_register.get page_id = some page →
      underAny page.subscribed_paths top = true →
        ∃ page', (registry.setStoreSubscription page_id .page top true).1.page_register.get
            page_id = some page' ∧
          (∀ event, page'.captures event = page.captures event) ∧
            ∀ events, (heard page' events).datachanges = (heard page events).datachanges := by
  have hunder := under_intercalate_iff hp hq hpdots hqdots
  refine ⟨⟨hunder, hunder, ?_, ?_, ?_⟩, ?_, ?_, ?_⟩
  · -- The capture looks for one prefix of a set.
    rw [← hunder]
    simp [PageRow.isCaptured, underAny]
  · intro pending hpath
    rw [PageRow.isPruned, hpath]
    exact hunder
  · intro collector hpaths
    rw [LegacyBagCollector.captures_iff hpaths, ← hunder]
    simp [LegacyBagCollector.isUnder]
  · intro worker identity target page desk population path now now' hrow howner hknown hqueue
    refine ⟨datachanges_dropDatachanges hrow howner path now, ?_⟩
    rw [datachangesFor_dropDatachanges desk hknown, hqueue]
  · intro collector paths top hpaths hcovered
    refine ⟨(sameWindow_subscribePath hpaths hcovered).captures, ?_⟩
    intro acts hacts
    exact serve_subscribePath hpaths hcovered hacts
  · intro registry page_id page top hrow hcovered
    exact heard_setStoreSubscription hrow hcovered

/-- A field of a form, and the form. -/
theorem prefix_tests_agree_form :
    DeliveryDesk.isUnder (".".intercalate ["form", "name"]) (".".intercalate ["form"]) = true ∧
      PageRow.isCaptured {".".intercalate ["form"]} (".".intercalate ["form", "name"]) = true := by
  have hp : ∀ label ∈ ["form", "name"], '.' ∉ label.toList := by decide
  have hq : ∀ label ∈ ["form"], '.' ∉ label.toList := by decide
  have h := prefix_tests_agree (V := Delivery.Sample.Value) (B := Delivery.Sample.FlatBag)
    (p := ["form", "name"]) (q := ["form"]) (by decide) (by decide) hp hq
  exact ⟨h.1.1.2 (by decide), h.1.2.2.1.2 (by decide)⟩

end PrefixTests
end GenropyAsgi
