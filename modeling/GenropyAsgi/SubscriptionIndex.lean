import GenropyAsgi.Change

/-!
# The subscription index

`SubscriptionIndex` of `subscription_index.py`: which pages want a table and which tables a page
wants, in two dictionaries of sets that its three primitives mutate together.

`IndexMaps` is the pair of dictionaries with the primitives as the code computes them. `Mirrored` is
what they maintain: the two directions are transposes of one another and neither holds an empty set.
`SubscriptionIndex` carries it as a field, so that an index whose two sides disagree cannot be
built, and each primitive is then known by what it does to the relation `p ∈ ix.pagesFor t` and by
the transition of the table set that its returned bit reports.
-/

namespace GenropyAsgi

open Library

/-- The two dictionaries of the index. -/
structure IndexMaps where
  /-- The fan-out direction: the pages of each table. -/
  table_pages : Dict Table (Finset PageId)
  /-- The cleanup direction: the tables of each page. -/
  page_tables : Dict PageId (Finset Table)

namespace IndexMaps

/-- The maps of a newborn index. -/
def empty : IndexMaps := ⟨∅, ∅⟩

/-- `pages_for`: the pages subscribed to a table, empty for an unknown one. -/
def pagesFor (ix : IndexMaps) (table : Table) : Finset PageId := (ix.table_pages.get table).getD ∅

/-- `tables_for`: the tables a page subscribed to, empty for an unknown one. -/
def tablesFor (ix : IndexMaps) (page_id : PageId) : Finset Table :=
  (ix.page_tables.get page_id).getD ∅

/-- `subscribe`: the pair is added to both maps; the answer is whether the table key was created. -/
def subscribe (ix : IndexMaps) (page_id : PageId) (table : Table) : IndexMaps × Bool :=
  (⟨ix.table_pages.set table (insert page_id (ix.pagesFor table)),
      ix.page_tables.set page_id (insert table (ix.tablesFor page_id))⟩,
    (ix.table_pages.get table).isNone)

/-- One side of `_forget`: an element leaves the set under a key, and an emptied set leaves the
dictionary. The answer is whether the key was deleted. -/
def discard {K : Type} [DecidableEq K] (d : Dict K (Finset String)) (k : K) (x : String) :
    Dict K (Finset String) × Bool :=
  match d.get k with
  | none => (d, false)
  | some xs => if xs.erase x = ∅ then (d.pop k, true) else (d.set k (xs.erase x), false)

/-- `_forget`: the pair is removed from both maps; the answer is whether the table key was
deleted. -/
def forget (ix : IndexMaps) (page_id : PageId) (table : Table) : IndexMaps × Bool :=
  (⟨(discard ix.table_pages table page_id).1, (discard ix.page_tables page_id table).1⟩,
    (discard ix.table_pages table page_id).2)

/-- The loop of `drop_page` over the tables of the page. -/
def forgetAll (ix : IndexMaps) (page_id : PageId) (tables : List Table) : IndexMaps × Bool :=
  tables.foldl
    (fun acc table => ((acc.1.forget page_id table).1, (acc.1.forget page_id table).2 || acc.2))
    (ix, false)

/-- `drop_page`: every pair of the page is forgotten; the answer is whether some table key was
deleted. The set of tables is walked in the order of their names. -/
def dropPage (ix : IndexMaps) (page_id : PageId) : IndexMaps × Bool :=
  ix.forgetAll page_id (sorted (ix.tablesFor page_id))

/-- What the primitives maintain. -/
structure Mirrored (ix : IndexMaps) : Prop where
  /-- Each map is the transpose of the other one. -/
  transpose : ∀ p t, p ∈ ix.pagesFor t ↔ t ∈ ix.tablesFor p
  /-- No table is kept for nobody. -/
  pages_ne_empty : ∀ t, ix.table_pages.get t ≠ some ∅
  /-- No page is kept with no table. -/
  tables_ne_empty : ∀ p, ix.page_tables.get p ≠ some ∅

/-- The newborn maps are mirrored. -/
theorem mirrored_empty : empty.Mirrored := by
  constructor <;> simp [empty, pagesFor, tablesFor]

/-- The set under a key after `discard`. -/
theorem getD_discard {K : Type} [DecidableEq K] (d : Dict K (Finset String)) (k j : K)
    (x : String) :
    ((discard d k x).1.get j).getD ∅ =
      if j = k then ((d.get k).getD ∅).erase x else (d.get j).getD ∅ := by
  unfold discard
  cases hk : d.get k with
  | none =>
    split_ifs with hj
    · subst hj
      simp [hk]
    · rfl
  | some xs =>
    dsimp only
    split_ifs with he hj hj
    · subst hj
      simp [he]
    · simp [hj]
    · subst hj
      simp
    · simp [hj]

/-- `discard` leaves no empty set behind where there was none. -/
theorem discard_ne_empty {K : Type} [DecidableEq K] {d : Dict K (Finset String)}
    (hd : ∀ k, d.get k ≠ some ∅) (k j : K) (x : String) :
    (discard d k x).1.get j ≠ some ∅ := by
  unfold discard
  cases hk : d.get k with
  | none => exact hd j
  | some xs =>
    dsimp only
    split_ifs with he
    · rw [Dict.get_pop]
      split_ifs
      · simp
      · exact hd j
    · rw [Dict.get_set]
      split_ifs
      · simpa using he
      · exact hd j

/-- The pages of a table after `subscribe`. -/
theorem mem_pagesFor_subscribe {ix : IndexMaps} {p q : PageId} {t u : Table} :
    q ∈ (ix.subscribe p t).1.pagesFor u ↔ q ∈ ix.pagesFor u ∨ (q = p ∧ u = t) := by
  simp only [subscribe, pagesFor, Dict.get_set]
  by_cases hu : u = t
  · subst hu
    simp [or_comm]
  · simp [hu]

/-- The tables of a page after `subscribe`. -/
theorem mem_tablesFor_subscribe {ix : IndexMaps} {p q : PageId} {t u : Table} :
    u ∈ (ix.subscribe p t).1.tablesFor q ↔ u ∈ ix.tablesFor q ∨ (q = p ∧ u = t) := by
  simp only [subscribe, tablesFor, Dict.get_set]
  by_cases hq : q = p
  · subst hq
    simp [or_comm]
  · simp [hq]

/-- The pages of a table after `_forget`. -/
theorem mem_pagesFor_forget {ix : IndexMaps} {p q : PageId} {t u : Table} :
    q ∈ (ix.forget p t).1.pagesFor u ↔ q ∈ ix.pagesFor u ∧ ¬(q = p ∧ u = t) := by
  simp only [forget, pagesFor, getD_discard]
  by_cases hu : u = t
  · subst hu
    simp [and_comm]
  · simp [hu]

/-- The tables of a page after `_forget`. -/
theorem mem_tablesFor_forget {ix : IndexMaps} {p q : PageId} {t u : Table} :
    u ∈ (ix.forget p t).1.tablesFor q ↔ u ∈ ix.tablesFor q ∧ ¬(q = p ∧ u = t) := by
  simp only [forget, tablesFor, getD_discard]
  by_cases hq : q = p
  · subst hq
    simp [and_comm]
  · simp [hq]

/-- `subscribe` keeps the maps mirrored. -/
theorem Mirrored.subscribe {ix : IndexMaps} (h : ix.Mirrored) (p : PageId) (t : Table) :
    (ix.subscribe p t).1.Mirrored where
  transpose q u := by
    rw [mem_pagesFor_subscribe, mem_tablesFor_subscribe, h.transpose]
  pages_ne_empty u := by
    simp only [IndexMaps.subscribe, Dict.get_set]
    split_ifs
    · simp
    · exact h.pages_ne_empty u
  tables_ne_empty q := by
    simp only [IndexMaps.subscribe, Dict.get_set]
    split_ifs
    · simp
    · exact h.tables_ne_empty q

/-- `_forget` keeps the maps mirrored. -/
theorem Mirrored.forget {ix : IndexMaps} (h : ix.Mirrored) (p : PageId) (t : Table) :
    (ix.forget p t).1.Mirrored where
  transpose q u := by
    rw [mem_pagesFor_forget, mem_tablesFor_forget, h.transpose]
  pages_ne_empty u := discard_ne_empty h.pages_ne_empty t u p
  tables_ne_empty q := discard_ne_empty h.tables_ne_empty p q t

/-! ## The loop of `drop_page` -/

/-- The loop of `drop_page` from any answer so far: the maps do not depend on it, and the final
answer is it or some deletion. -/
theorem foldl_forget (p : PageId) :
    ∀ (tables : List Table) (ix : IndexMaps) (b : Bool),
      tables.foldl
        (fun acc t => ((acc.1.forget p t).1, (acc.1.forget p t).2 || acc.2)) (ix, b) =
          ((ix.forgetAll p tables).1, (ix.forgetAll p tables).2 || b)
  | [], ix, b => by simp [forgetAll]
  | t :: tables, ix, b => by
    simp only [forgetAll, List.foldl_cons]
    rw [foldl_forget p tables _ ((ix.forget p t).2 || b),
      foldl_forget p tables _ ((ix.forget p t).2 || false)]
    simp [Bool.or_assoc]

/-- One turn of the loop of `drop_page`. -/
theorem forgetAll_cons (ix : IndexMaps) (p : PageId) (t : Table) (tables : List Table) :
    ix.forgetAll p (t :: tables) =
      (((ix.forget p t).1.forgetAll p tables).1,
        ((ix.forget p t).1.forgetAll p tables).2 || (ix.forget p t).2) := by
  rw [forgetAll, List.foldl_cons, foldl_forget]
  simp

/-- The loop of `drop_page` keeps the maps mirrored. -/
theorem Mirrored.forgetAll (p : PageId) :
    ∀ (tables : List Table) {ix : IndexMaps}, ix.Mirrored → (ix.forgetAll p tables).1.Mirrored
  | [], _, h => h
  | t :: tables, _, h => by
    rw [forgetAll_cons]
    exact Mirrored.forgetAll p tables (h.forget p t)

/-- The pages of a table after the loop of `drop_page`. -/
theorem mem_pagesFor_forgetAll {p q : PageId} {u : Table} :
    ∀ {tables : List Table} {ix : IndexMaps},
      q ∈ (ix.forgetAll p tables).1.pagesFor u ↔ q ∈ ix.pagesFor u ∧ ¬(q = p ∧ u ∈ tables)
  | [], ix => by simp [forgetAll]
  | t :: tables, ix => by
    rw [forgetAll_cons, mem_pagesFor_forgetAll, mem_pagesFor_forget, List.mem_cons]
    tauto

/-! ## The table set and its transitions -/

/-- The tables that have a key: the set behind `subscribed_tables`. -/
def tables (ix : IndexMaps) : Finset Table := ix.table_pages.keys

/-- A table is in the set exactly when some page subscribes it. -/
theorem Mirrored.mem_tables {ix : IndexMaps} (h : ix.Mirrored) {t : Table} :
    t ∈ ix.tables ↔ ∃ p, p ∈ ix.pagesFor t := by
  rw [tables, Dict.mem_keys, pagesFor]
  have hne := h.pages_ne_empty t
  cases hg : ix.table_pages.get t with
  | none => simp
  | some pages =>
    rw [hg] at hne
    simp only [Option.isSome_some, Option.getD_some, true_iff]
    exact Finset.nonempty_iff_ne_empty.2 fun he => hne (by rw [he])

/-- The table set after `subscribe`. -/
theorem tables_subscribe (ix : IndexMaps) (p : PageId) (t : Table) :
    (ix.subscribe p t).1.tables = insert t ix.tables := by
  apply Finset.ext
  intro u
  rw [tables, Dict.mem_keys, Finset.mem_insert, tables, Dict.mem_keys]
  simp only [subscribe, Dict.get_set]
  split_ifs with hu
  · simp [hu]
  · simp [hu]

/-- The keys after `discard`: the key goes exactly when the answer says so. -/
theorem keys_discard {K : Type} [DecidableEq K] (d : Dict K (Finset String)) (k : K)
    (x : String) :
    (discard d k x).1.keys = if (discard d k x).2 then d.keys.erase k else d.keys := by
  apply Finset.ext
  intro j
  unfold discard
  cases hk : d.get k with
  | none => simp
  | some xs =>
    dsimp only
    by_cases he : xs.erase x = ∅
    · -- The set is emptied and its key deleted.
      simp only [he, if_true]
      rw [Dict.mem_keys, Finset.mem_erase, Dict.mem_keys, Dict.get_pop]
      by_cases hj : j = k
      · simp [hj]
      · simp [hj]
    · simp only [he, if_false, Bool.false_eq_true]
      rw [Dict.mem_keys, Dict.mem_keys, Dict.get_set]
      by_cases hj : j = k
      · simp [hj, hk]
      · simp [hj]

/-- The table set after `_forget`: the table goes exactly when the answer says so. -/
theorem tables_forget (ix : IndexMaps) (p : PageId) (t : Table) :
    (ix.forget p t).1.tables = if (ix.forget p t).2 then ix.tables.erase t else ix.tables :=
  keys_discard ix.table_pages t p

/-- A table that `_forget` deletes was in the set. -/
theorem mem_tables_of_forget {ix : IndexMaps} {p : PageId} {t : Table}
    (h : (ix.forget p t).2 = true) : t ∈ ix.tables := by
  rw [tables, Dict.mem_keys]
  simp only [forget, discard] at h
  cases hg : ix.table_pages.get t with
  | none => simp [hg] at h
  | some pages => simp

/-- `subscribe` answers true exactly when it changes the table set. -/
theorem subscribe_moved_iff (ix : IndexMaps) (p : PageId) (t : Table) :
    (ix.subscribe p t).2 = true ↔ (ix.subscribe p t).1.tables ≠ ix.tables := by
  rw [tables_subscribe, ne_eq, Finset.insert_eq_self, tables, Dict.mem_keys]
  simp [subscribe]

/-- `unsubscribe` answers true exactly when it changes the table set. -/
theorem forget_moved_iff (ix : IndexMaps) (p : PageId) (t : Table) :
    (ix.forget p t).2 = true ↔ (ix.forget p t).1.tables ≠ ix.tables := by
  rw [tables_forget]
  split_ifs with hb
  · simp only [hb, ne_eq, Finset.erase_eq_self, true_iff, not_not]
    exact mem_tables_of_forget hb
  · simp [hb]

/-- The loop of `drop_page` only takes tables away. -/
theorem tables_forgetAll_subset (p : PageId) :
    ∀ (ts : List Table) (ix : IndexMaps), (ix.forgetAll p ts).1.tables ⊆ ix.tables
  | [], _ => Finset.Subset.refl _
  | t :: ts, ix => by
    rw [forgetAll_cons]
    refine (tables_forgetAll_subset p ts _).trans ?_
    rw [tables_forget]
    split_ifs
    · exact Finset.erase_subset _ _
    · exact Finset.Subset.refl _

/-- The loop of `drop_page` answers true exactly when it changes the table set. -/
theorem forgetAll_moved_iff (p : PageId) :
    ∀ (ts : List Table) (ix : IndexMaps),
      (ix.forgetAll p ts).2 = true ↔ (ix.forgetAll p ts).1.tables ≠ ix.tables
  | [], ix => by simp [forgetAll]
  | t :: ts, ix => by
    have ih := forgetAll_moved_iff p ts (ix.forget p t).1
    have hsub := tables_forgetAll_subset p ts (ix.forget p t).1
    have hforget := tables_forget ix p t
    rw [forgetAll_cons, Bool.or_eq_true, ih]
    dsimp only
    cases hb : (ix.forget p t).2 with
    | false =>
      -- This turn deleted nothing: the rest of the loop decides.
      rw [hb] at hforget
      simp only [Bool.false_eq_true, if_false] at hforget
      rw [hforget]
      simp
    | true =>
      -- The table deleted in this turn does not come back.
      rw [hb] at hforget
      simp only [if_true] at hforget
      simp only [or_true, true_iff]
      intro heq
      have ht := mem_tables_of_forget hb
      rw [← heq] at ht
      have hmem := hsub ht
      rw [hforget] at hmem
      exact Finset.notMem_erase t _ hmem

end IndexMaps

/-- The index: its two maps, mirrored. -/
structure SubscriptionIndex extends IndexMaps where
  /-- The two sides agree and neither holds an empty set. -/
  mirrored : toIndexMaps.Mirrored

namespace SubscriptionIndex

/-- The newborn index. -/
def empty : SubscriptionIndex := ⟨IndexMaps.empty, IndexMaps.mirrored_empty⟩

/-- `subscribe`. -/
def subscribe (ix : SubscriptionIndex) (page_id : PageId) (table : Table) :
    SubscriptionIndex × Bool :=
  (⟨(ix.toIndexMaps.subscribe page_id table).1, ix.mirrored.subscribe page_id table⟩,
    (ix.toIndexMaps.subscribe page_id table).2)

/-- `unsubscribe`. -/
def unsubscribe (ix : SubscriptionIndex) (page_id : PageId) (table : Table) :
    SubscriptionIndex × Bool :=
  (⟨(ix.toIndexMaps.forget page_id table).1, ix.mirrored.forget page_id table⟩,
    (ix.toIndexMaps.forget page_id table).2)

/-- `drop_page`. -/
def dropPage (ix : SubscriptionIndex) (page_id : PageId) : SubscriptionIndex × Bool :=
  (⟨(ix.toIndexMaps.dropPage page_id).1, ix.mirrored.forgetAll page_id _⟩,
    (ix.toIndexMaps.dropPage page_id).2)

/-- The `subscribe` of one page to each table of a list, with the answer of each: the comprehension
of `record_page_table_subscriptions`. -/
def subscribeEach (ix : SubscriptionIndex) (page_id : PageId) :
    List Table → SubscriptionIndex × List Bool
  | [] => (ix, [])
  | table :: tables =>
    let created := ix.subscribe page_id table
    let rest := created.1.subscribeEach page_id tables
    (rest.1, created.2 :: rest.2)

/-- A page subscribes a table exactly when the table is among the page's tables. -/
theorem mem_tablesFor (ix : SubscriptionIndex) {p : PageId} {t : Table} :
    t ∈ ix.tablesFor p ↔ p ∈ ix.pagesFor t := (ix.mirrored.transpose p t).symm

/-- The newborn index holds no subscription. -/
@[simp]
theorem pagesFor_empty (t : Table) : empty.pagesFor t = ∅ := by
  simp [empty, IndexMaps.empty, IndexMaps.pagesFor]

/-- `subscribe` adds the pair. -/
@[simp]
theorem mem_pagesFor_subscribe (ix : SubscriptionIndex) {p q : PageId} {t u : Table} :
    q ∈ (ix.subscribe p t).1.pagesFor u ↔ q ∈ ix.pagesFor u ∨ (q = p ∧ u = t) :=
  IndexMaps.mem_pagesFor_subscribe

/-- `unsubscribe` removes the pair. -/
@[simp]
theorem mem_pagesFor_unsubscribe (ix : SubscriptionIndex) {p q : PageId} {t u : Table} :
    q ∈ (ix.unsubscribe p t).1.pagesFor u ↔ q ∈ ix.pagesFor u ∧ ¬(q = p ∧ u = t) :=
  IndexMaps.mem_pagesFor_forget

/-- `drop_page` removes every pair of the page: a pair that its loop does not visit is a pair that
the index does not hold. -/
@[simp]
theorem mem_pagesFor_dropPage (ix : SubscriptionIndex) {p q : PageId} {u : Table} :
    q ∈ (ix.dropPage p).1.pagesFor u ↔ q ∈ ix.pagesFor u ∧ q ≠ p := by
  rw [show (ix.dropPage p).1.pagesFor u = (ix.toIndexMaps.dropPage p).1.pagesFor u from rfl,
    IndexMaps.dropPage, IndexMaps.mem_pagesFor_forgetAll, mem_sorted]
  constructor
  · -- The loop walks the page's own tables, and by the mirror these are all of its pairs.
    rintro ⟨hq, hn⟩
    refine ⟨hq, fun hqp => hn ⟨hqp, ?_⟩⟩
    rw [← hqp]
    exact ix.mem_tablesFor.2 hq
  · rintro ⟨hq, hn⟩
    exact ⟨hq, fun h => hn h.1⟩

/-- `subscribeEach` adds the pair of every table of the list. -/
@[simp]
theorem mem_pagesFor_subscribeEach {p q : PageId} {u : Table} :
    ∀ {ts : List Table} {ix : SubscriptionIndex},
      q ∈ (ix.subscribeEach p ts).1.pagesFor u ↔ q ∈ ix.pagesFor u ∨ (q = p ∧ u ∈ ts)
  | [], ix => by simp [subscribeEach]
  | t :: ts, ix => by
    simp only [subscribeEach]
    rw [mem_pagesFor_subscribeEach, mem_pagesFor_subscribe, List.mem_cons]
    tauto

/-- A table is in the set exactly when some page subscribes it. -/
theorem mem_tables (ix : SubscriptionIndex) {t : Table} :
    t ∈ ix.tables ↔ ∃ p, p ∈ ix.pagesFor t := ix.mirrored.mem_tables

/-- `subscribe` answers true exactly when it changes the table set. -/
theorem subscribe_moved_iff (ix : SubscriptionIndex) (p : PageId) (t : Table) :
    (ix.subscribe p t).2 = true ↔ (ix.subscribe p t).1.tables ≠ ix.tables :=
  ix.toIndexMaps.subscribe_moved_iff p t

/-- `unsubscribe` answers true exactly when it changes the table set. -/
theorem unsubscribe_moved_iff (ix : SubscriptionIndex) (p : PageId) (t : Table) :
    (ix.unsubscribe p t).2 = true ↔ (ix.unsubscribe p t).1.tables ≠ ix.tables :=
  ix.toIndexMaps.forget_moved_iff p t

/-- `drop_page` answers true exactly when it changes the table set. -/
theorem dropPage_moved_iff (ix : SubscriptionIndex) (p : PageId) :
    (ix.dropPage p).2 = true ↔ (ix.dropPage p).1.tables ≠ ix.tables :=
  IndexMaps.forgetAll_moved_iff p _ ix.toIndexMaps

/-- `subscribe` changes the table set by its table alone. -/
theorem tables_subscribe (ix : SubscriptionIndex) (p : PageId) (t : Table) :
    (ix.subscribe p t).1.tables = insert t ix.tables := ix.toIndexMaps.tables_subscribe p t

/-- `subscribeEach` only adds tables. -/
theorem tables_subset_subscribeEach (p : PageId) :
    ∀ (ts : List Table) (ix : SubscriptionIndex), ix.tables ⊆ (ix.subscribeEach p ts).1.tables
  | [], _ => Finset.Subset.refl _
  | t :: ts, ix => by
    refine Finset.Subset.trans ?_ (tables_subset_subscribeEach p ts (ix.subscribe p t).1)
    rw [tables_subscribe]
    exact Finset.subset_insert t ix.tables

/-- Some table of `subscribeEach` is new exactly when it changes the table set. -/
theorem subscribeEach_moved_iff (p : PageId) :
    ∀ (ts : List Table) (ix : SubscriptionIndex),
      ((ix.subscribeEach p ts).2.any id) = true ↔ (ix.subscribeEach p ts).1.tables ≠ ix.tables
  | [], ix => by simp [subscribeEach]
  | t :: ts, ix => by
    have ih := subscribeEach_moved_iff p ts (ix.subscribe p t).1
    have hsub := tables_subset_subscribeEach p ts (ix.subscribe p t).1
    have hmoved := ix.subscribe_moved_iff p t
    simp only [subscribeEach, List.any_cons, id_eq, Bool.or_eq_true]
    rw [ih, hmoved]
    have hgrow : ix.tables ⊆ (ix.subscribe p t).1.tables := by
      rw [tables_subscribe]
      exact Finset.subset_insert t ix.tables
    constructor
    · -- A set that grew in one turn does not shrink in the rest of them.
      rintro (hne | hne) heq
      · exact hne (Finset.Subset.antisymm (heq ▸ hsub) hgrow)
      · refine hne (Finset.Subset.antisymm ?_ hsub)
        rw [heq]
        exact hgrow
    · -- No turn changed the set, so nor did all of them.
      intro hne
      by_contra hcon
      obtain ⟨h₁, h₂⟩ := not_or.1 hcon
      exact hne ((not_not.1 h₂).trans (not_not.1 h₁))

end SubscriptionIndex
end GenropyAsgi
