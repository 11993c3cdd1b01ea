import GenropyAsgi.SubscriptionIndex

/-!
# Sequences of calls on the subscription index

A history of the index is a list of calls of its three primitives. `plainAfter` is what the history
means: a set of pairs to which a subscription adds its pair, from which an unsubscription takes its
pair, and from which a drop takes every pair of its page. The result says that the two dictionaries
hold this set in both directions, whatever the history, and that the bit answered by each call says
whether the call moved the set of the subscribed tables.
-/

namespace GenropyAsgi

open Library

/-- A call of one of the primitives of the index. -/
inductive IndexCall where
  /-- `subscribe`. -/
  | subscribe (page_id : PageId) (table : Table)
  /-- `unsubscribe`. -/
  | unsubscribe (page_id : PageId) (table : Table)
  /-- `drop_page`. -/
  | dropPage (page_id : PageId)

namespace IndexCall

/-- What the call makes of the maps, and what it answers. -/
def perform (ix : IndexMaps) : IndexCall → IndexMaps × Bool
  | .subscribe page_id table => ix.subscribe page_id table
  | .unsubscribe page_id table => ix.forget page_id table
  | .dropPage page_id => ix.dropPage page_id

/-- What the call makes of a plain set of pairs. -/
def performPlain (pairs : Finset (PageId × Table)) : IndexCall → Finset (PageId × Table)
  | .subscribe page_id table => insert (page_id, table) pairs
  | .unsubscribe page_id table => pairs.erase (page_id, table)
  | .dropPage page_id => pairs.filter fun pair => pair.1 ≠ page_id

end IndexCall

/-- The maps after a history, from the empty index. -/
def indexAfter (calls : List IndexCall) : IndexMaps :=
  calls.foldl (fun ix call => (call.perform ix).1) IndexMaps.empty

/-- The plain set of pairs after a history, from the empty one. -/
def plainAfter (calls : List IndexCall) : Finset (PageId × Table) :=
  calls.foldl IndexCall.performPlain ∅

/-- The tables that have at least one subscriber in a plain set of pairs. -/
def subscribedIn (pairs : Finset (PageId × Table)) : Finset Table := pairs.image Prod.snd

namespace IndexMaps

/-- Two mirrored indexes with the same subscriptions are the same pair of dictionaries: a set that
is not empty is under its key, and an empty one is not there. -/
theorem Mirrored.ext {ix ix' : IndexMaps} (h : ix.Mirrored) (h' : ix'.Mirrored)
    (heq : ∀ p t, p ∈ ix.pagesFor t ↔ p ∈ ix'.pagesFor t) : ix = ix' := by
  have hget : ∀ {K : Type} [DecidableEq K] (d d' : Dict K (Finset String)) (k : K),
      d.get k ≠ some ∅ → d'.get k ≠ some ∅ → (d.get k).getD ∅ = (d'.get k).getD ∅ →
        d.get k = d'.get k := by
    intro K _ d d' k hd hd' hsets
    cases hk : d.get k with
    | none =>
      cases hk' : d'.get k with
      | none => rfl
      | some xs' =>
        rw [hk, hk'] at hsets
        exact absurd (hk'.trans (congrArg some hsets.symm)) hd'
    | some xs =>
      cases hk' : d'.get k with
      | none =>
        rw [hk, hk'] at hsets
        exact absurd (hk.trans (congrArg some hsets)) hd
      | some xs' =>
        rw [hk, hk'] at hsets
        exact congrArg some hsets
  have hpages : ix.table_pages = ix'.table_pages := by
    apply Dict.ext
    intro t
    refine hget _ _ t (h.pages_ne_empty t) (h'.pages_ne_empty t) ?_
    exact Finset.ext fun p => heq p t
  have htables : ix.page_tables = ix'.page_tables := by
    apply Dict.ext
    intro p
    refine hget _ _ p (h.tables_ne_empty p) (h'.tables_ne_empty p) ?_
    refine Finset.ext fun t => ?_
    have hleft := h.transpose p t
    have hright := h'.transpose p t
    exact hleft.symm.trans ((heq p t).trans hright)
  cases ix
  cases ix'
  simp only [IndexMaps.mk.injEq]
  exact ⟨hpages, htables⟩

/-- The loop of `drop_page` comes to the same maps and the same answer in whatever order it walks
the tables of the page. -/
theorem Mirrored.forgetAll_eq_dropPage {ix : IndexMaps} (h : ix.Mirrored) (p : PageId)
    {walk : List Table} (hwalk : walk.toFinset = ix.tablesFor p) :
    ix.forgetAll p walk = ix.dropPage p := by
  have hmem : ∀ t, t ∈ walk ↔ t ∈ sorted (ix.tablesFor p) := by
    intro t
    rw [mem_sorted, ← hwalk, List.mem_toFinset]
  have hmaps : (ix.forgetAll p walk).1 = (ix.dropPage p).1 := by
    refine Mirrored.ext (h.forgetAll p walk) (h.forgetAll p _) fun q t => ?_
    rw [dropPage, mem_pagesFor_forgetAll, mem_pagesFor_forgetAll, hmem]
  -- The answer says whether the table set has moved, and it has moved alike.
  have hbit : (ix.forgetAll p walk).2 = (ix.dropPage p).2 := by
    rw [Bool.eq_iff_iff, forgetAll_moved_iff, hmaps, dropPage, forgetAll_moved_iff]
  exact Prod.ext hmaps hbit

end IndexMaps

/-- One call keeps the maps mirrored. -/
theorem IndexCall.mirrored_perform {ix : IndexMaps} (h : ix.Mirrored) :
    ∀ call : IndexCall, (call.perform ix).1.Mirrored
  | .subscribe page_id table => h.subscribe page_id table
  | .unsubscribe page_id table => h.forget page_id table
  | .dropPage page_id => h.forgetAll page_id _

/-- One call moves the subscriptions as it moves the plain pairs. -/
theorem IndexCall.mem_pagesFor_perform {ix : IndexMaps} (h : ix.Mirrored)
    {pairs : Finset (PageId × Table)} (hpairs : ∀ p t, p ∈ ix.pagesFor t ↔ (p, t) ∈ pairs)
    (p : PageId) (t : Table) :
    ∀ call : IndexCall,
      p ∈ (call.perform ix).1.pagesFor t ↔ (p, t) ∈ call.performPlain pairs
  | .subscribe q u => by
    simp only [perform, performPlain, IndexMaps.mem_pagesFor_subscribe, hpairs, Finset.mem_insert,
      Prod.mk.injEq]
    tauto
  | .unsubscribe q u => by
    simp only [perform, performPlain, IndexMaps.mem_pagesFor_forget, hpairs, Finset.mem_erase,
      ne_eq, Prod.mk.injEq]
    tauto
  | .dropPage q => by
    have hdrop := SubscriptionIndex.mem_pagesFor_dropPage ⟨ix, h⟩ (p := q) (q := p) (u := t)
    have hheld : p ∈ (SubscriptionIndex.mk ix h).pagesFor t ↔ (p, t) ∈ pairs := hpairs p t
    rw [hheld] at hdrop
    rw [performPlain, Finset.mem_filter]
    exact hdrop

/-- One call answers true exactly when it moves the set of the tables under a key. -/
theorem IndexCall.perform_moved_iff (ix : IndexMaps) :
    ∀ call : IndexCall, (call.perform ix).2 = true ↔ (call.perform ix).1.tables ≠ ix.tables
  | .subscribe page_id table => ix.subscribe_moved_iff page_id table
  | .unsubscribe page_id table => ix.forget_moved_iff page_id table
  | .dropPage page_id => IndexMaps.forgetAll_moved_iff page_id _ ix

/-- The tables under a key of a mirrored index are those that have a subscriber. -/
theorem IndexMaps.Mirrored.tables_eq {ix : IndexMaps} (h : ix.Mirrored)
    {pairs : Finset (PageId × Table)} (hpairs : ∀ p t, p ∈ ix.pagesFor t ↔ (p, t) ∈ pairs) :
    ix.tables = subscribedIn pairs := by
  ext t
  rw [h.mem_tables, subscribedIn, Finset.mem_image]
  constructor
  · rintro ⟨p, hp⟩
    exact ⟨(p, t), (hpairs p t).1 hp, rfl⟩
  · rintro ⟨⟨p, u⟩, hp, rfl⟩
    exact ⟨p, (hpairs p u).2 hp⟩

/-- A drop only takes subscribers away. -/
theorem subscribedIn_dropPage_subset (pairs : Finset (PageId × Table)) (p : PageId) :
    subscribedIn ((IndexCall.dropPage p).performPlain pairs) ⊆ subscribedIn pairs :=
  Finset.image_subset_image (Finset.filter_subset _ _)

/-- The maps after a history are mirrored and hold the plain pairs. -/
theorem indexAfter_spec (calls : List IndexCall) :
    (indexAfter calls).Mirrored ∧
      ∀ p t, p ∈ (indexAfter calls).pagesFor t ↔ (p, t) ∈ plainAfter calls := by
  -- Both sides are folds along the history, so the last call is the one to look at.
  induction calls using List.reverseRecOn with
  | nil =>
    refine ⟨IndexMaps.mirrored_empty, ?_⟩
    intro p t
    simp [indexAfter, plainAfter, IndexMaps.empty, IndexMaps.pagesFor]
  | append_singleton calls call ih =>
    obtain ⟨hmirrored, hpairs⟩ := ih
    have hindex : indexAfter (calls ++ [call]) = (call.perform (indexAfter calls)).1 := by
      simp [indexAfter]
    have hplain : plainAfter (calls ++ [call]) = call.performPlain (plainAfter calls) := by
      simp [plainAfter]
    rw [hindex, hplain]
    refine ⟨call.mirrored_perform hmirrored, ?_⟩
    intro p t
    exact call.mem_pagesFor_perform hmirrored hpairs p t

/-- The index over its histories. After any sequence of calls from the empty index, the two maps are
transposes of one another, neither holds an empty set, and the pairs that they hold are those of the
plain set. Any further call answers true exactly when it changes the set of the tables with a
subscriber, a drop exactly when some table has lost its last subscriber, in whatever order the drop
walks the tables of its page. -/
theorem index_follows_plain_pairs (calls : List IndexCall) :
    ((indexAfter calls).Mirrored ∧
        ∀ p t, (p ∈ (indexAfter calls).pagesFor t ↔ (p, t) ∈ plainAfter calls) ∧
          (t ∈ (indexAfter calls).tablesFor p ↔ (p, t) ∈ plainAfter calls)) ∧
      (∀ call : IndexCall, (call.perform (indexAfter calls)).2 = true ↔
        subscribedIn (plainAfter (calls ++ [call])) ≠ subscribedIn (plainAfter calls)) ∧
      (∀ p, ((IndexCall.dropPage p).perform (indexAfter calls)).2 = true ↔
        ∃ t ∈ subscribedIn (plainAfter calls),
          t ∉ subscribedIn (plainAfter (calls ++ [.dropPage p]))) ∧
      ∀ p, ∀ walk : List Table, walk.toFinset = (indexAfter calls).tablesFor p →
        (indexAfter calls).forgetAll p walk =
          (IndexCall.dropPage p).perform (indexAfter calls) := by
  obtain ⟨hmirrored, hpairs⟩ := indexAfter_spec calls
  -- The answer of a call in terms of the plain pairs.
  have hmoved : ∀ call : IndexCall, (call.perform (indexAfter calls)).2 = true ↔
      subscribedIn (plainAfter (calls ++ [call])) ≠ subscribedIn (plainAfter calls) := by
    intro call
    obtain ⟨hmirrored', hpairs'⟩ := indexAfter_spec (calls ++ [call])
    have hindex : indexAfter (calls ++ [call]) = (call.perform (indexAfter calls)).1 := by
      simp [indexAfter]
    rw [call.perform_moved_iff, ← hindex, hmirrored'.tables_eq hpairs', hmirrored.tables_eq hpairs]
  refine ⟨⟨hmirrored, ?_⟩, hmoved, ?_, ?_⟩
  · intro p t
    have htranspose := hmirrored.transpose p t
    exact ⟨hpairs p t, htranspose.symm.trans (hpairs p t)⟩
  · -- A drop takes away only, so that a set that moved has lost a table.
    intro p
    have hplain : plainAfter (calls ++ [.dropPage p]) =
        (IndexCall.dropPage p).performPlain (plainAfter calls) := by
      simp [plainAfter]
    have hsub := subscribedIn_dropPage_subset (plainAfter calls) p
    rw [hmoved, hplain]
    constructor
    · intro hne
      by_contra hcon
      push Not at hcon
      exact hne (Finset.Subset.antisymm hsub hcon)
    · rintro ⟨t, ht, hlost⟩ heq
      rw [heq] at hlost
      exact hlost ht
  · intro p walk hwalk
    exact hmirrored.forgetAll_eq_dropPage p hwalk

/-- Two pages on one table: the table stays while one of them is left. -/
example : ([.subscribe "p" "t", .subscribe "q" "t", .unsubscribe "p" "t", .unsubscribe "q" "t"].foldl
    (fun acc call => ((IndexCall.perform acc.1 call).1, acc.2 ++ [(call.perform acc.1).2]))
    (IndexMaps.empty, [])).2 = [true, false, false, true] := by decide

end GenropyAsgi
