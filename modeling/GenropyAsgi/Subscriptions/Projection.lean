import GenropyAsgi.Subscriptions.Machine

/-!
# The index and the rows

A `subscribeTable` moves the row under the worker's lock, and its CALL moves the index once the lock
is released: two histories, the one that the row has taken and the one that the desk has filed. The
row and the index are each what the last word about every table says, in its own history, so that
the index is the projection of the row exactly when both end on the same word. They do whenever the
CALLs about a table are served in the order in which they were placed and none is refused.
-/

namespace GenropyAsgi.Subscriptions

open Library
open Worker (SubscribeCall)

variable {V B : Type}

/-- The entries of a history about a pair. -/
def aboutPair (p : PageId) (t : Table) (history : List SubscribeCall) : List SubscribeCall :=
  history.filter fun call => decide (p = call.page_id ∧ t = call.table)

/-- What the last entry about a pair says, or what held before the history if there is none. -/
def lastWord (held : Bool) (p : PageId) (t : Table) (history : List SubscribeCall) : Bool :=
  ((aboutPair p t history).getLast?.map SubscribeCall.subscribe).getD held

/-- One more entry. -/
theorem lastWord_snoc (held : Bool) (p : PageId) (t : Table) (history : List SubscribeCall)
    (call : SubscribeCall) :
    lastWord held p t (history ++ [call]) =
      if p = call.page_id ∧ t = call.table then call.subscribe else lastWord held p t history := by
  unfold lastWord aboutPair
  rw [List.filter_append]
  split_ifs with hpair
  · simp [hpair]
  · simp [hpair]

/-- The actions while a page stays registered on its worker and at the vertex: its subscriptions are
called on that worker, nobody drops it, and what is announced for it carries no table. -/
def StaysRegistered (p : PageId) (w : WorkerName) (s : State V B) : Act V B → Prop
  | .subscribe v _ q _ => q = p → v = w
  | .announce q _ tables => q = p → tables = []
  | .dropPage v _ _ => v ≠ w
  | .dropConnection v _ => v ≠ w
  | .fold k => ∀ departure ∈ s.departures[k]?, p ∉ departure.pages s.commander.population
  | .launch _ v _ => v ≠ w
  | _ => True

/-- What holds of the row and of the index: each is what its own history says. -/
structure Projected (p : PageId) (w : WorkerName) (held : Finset Table) (s : State V B) : Prop where
  /-- The row's tables are those that its last word opens. -/
  row : ∃ page, (s.workers w).registry.page_register.get p = some page ∧
    ∀ t, t ∈ page.table_subscriptions ↔ lastWord (decide (t ∈ held)) p t s.taken = true
  /-- The index has the page under the tables that the desk's last word opens. -/
  index : ∀ t, p ∈ s.commander.delivery_desk.page_subscriptions.pagesFor t ↔
    lastWord (decide (t ∈ held)) p t s.filed = true

section

variable {register : CoreRegister V} {core : CoreCommander} {s s' : State V B} {a : Act V B}
  {p : PageId} {w : WorkerName} {held : Finset Table}

/-- One action moves the row as it moves the history of the row. -/
theorem Projected.row_step (h : Projected p w held s) (ha : StaysRegistered p w s a)
    (hs : step register core s a = some s') :
    ∃ page, (s'.workers w).registry.page_register.get p = some page ∧
      ∀ t, t ∈ page.table_subscriptions ↔ lastWord (decide (t ∈ held)) p t s'.taken = true := by
  obtain ⟨page, hpage, htables⟩ := h.row
  cases a with
  | subscribe v u q subscribe =>
    cases hs
    unfold State.subscribe Worker.subscribeTable
    cases hrow : (s.workers v).registry.page_register.get q with
    | none => exact ⟨page, hpage, htables⟩
    | some row =>
      simp only [Function.update_apply, lastWord_snoc]
      by_cases hq : q = p
      · -- The page's own row moves.
        obtain rfl : v = w := ha hq
        subst hq
        rw [hpage] at hrow
        cases hrow
        refine ⟨page.subscribeTable u subscribe, by simp [Registry.setPage], ?_⟩
        intro t
        rw [PageRow.mem_subscribeTable, htables]
        by_cases ht : t = u <;> simp [ht]
      · refine ⟨page, ?_, fun t => by simp [Ne.symm hq, htables]⟩
        split_ifs with hv
        · simp [Registry.setPage, Ne.symm hq, ← hv, hpage]
        · exact hpage
  | dropPage v q cascade =>
    cases hs
    refine ⟨page, ?_, htables⟩
    simp only [State.withRegistry, Function.update_apply, if_neg (Ne.symm ha)]
    exact hpage
  | dropConnection v cid =>
    cases hs
    refine ⟨page, ?_, htables⟩
    simp only [State.withRegistry, Function.update_apply, if_neg (Ne.symm ha)]
    exact hpage
  | launch group v process =>
    obtain ⟨_, hs⟩ := Option.ite_none_left_eq_some.1 hs
    cases hs
    refine ⟨page, ?_, htables⟩
    simp only [Function.update_apply, if_neg (Ne.symm ha)]
    exact hpage
  | deliver v =>
    obtain ⟨served, _, rfl⟩ := Option.map_eq_some_iff.1 hs
    refine ⟨page, ?_, htables⟩
    simp only [Function.update_apply]
    split_ifs with hv
    · rw [← hv]
      exact hpage
    · exact hpage
  | present v =>
    obtain ⟨_, hs⟩ := Option.ite_none_right_eq_some.1 hs
    cases hs
    exact ⟨page, hpage, htables⟩
  | serve | refuse | answer | fold | runPush | losePush =>
    obtain ⟨_, _, rfl⟩ := Option.map_eq_some_iff.1 hs
    exact ⟨page, hpage, htables⟩
  | _ =>
    cases hs
    exact ⟨page, hpage, htables⟩

/-- The history of the desk grows by what the desk serves. -/
theorem filed_step (hs : step register core s a = some s') :
    s'.filed = s.filed ++
      match a with
      | .serve k => (s.calls[k]?.map Prod.snd).toList
      | _ => [] := by
  cases a with
  | serve k =>
    obtain ⟨placed, hk, rfl⟩ := Option.map_eq_some_iff.1 hs
    simp [hk]
  | subscribe v u q subscribe =>
    cases hs
    rw [List.append_nil]
    unfold State.subscribe
    split <;> rfl
  | launch group v process =>
    obtain ⟨_, hs⟩ := Option.ite_none_left_eq_some.1 hs
    cases hs
    rw [List.append_nil]
  | present v =>
    obtain ⟨_, hs⟩ := Option.ite_none_right_eq_some.1 hs
    cases hs
    rw [List.append_nil]
  | refuse | answer | fold | runPush | losePush | deliver =>
    obtain ⟨_, _, rfl⟩ := Option.map_eq_some_iff.1 hs
    rw [List.append_nil]
  | _ =>
    cases hs
    exact (List.append_nil _).symm

/-- One action moves the index as it moves the history of the desk. -/
theorem Projected.index_step (h : Projected p w held s) (ha : StaysRegistered p w s a)
    (hs : step register core s a = some s') (t : Table) :
    p ∈ s'.commander.delivery_desk.page_subscriptions.pagesFor t ↔
      lastWord (decide (t ∈ held)) p t s'.filed = true := by
  rw [mem_pagesFor_step hs, filed_step hs]
  cases a with
  | serve k =>
    obtain ⟨placed, hk, _⟩ := Option.map_eq_some_iff.1 hs
    simp only [Act.Holds, hk, Option.map_some, Option.toList_some, lastWord_snoc, h.index]
    split_ifs <;> rfl
  | announce q cid tables =>
    simp only [Act.Holds, List.append_nil, ← h.index]
    constructor
    · rintro (hold | ⟨rfl, ht⟩)
      · exact hold
      · rw [ha rfl] at ht
        cases ht
    · exact Or.inl
  | fold k =>
    obtain ⟨departure, hk, _⟩ := Option.map_eq_some_iff.1 hs
    simp only [Act.Holds, hk, List.append_nil, ← h.index]
    exact and_iff_left (ha departure hk)
  | _ => simpa only [Act.Holds, List.append_nil] using h.index t

/-- The row and the index agree exactly when the two histories do. -/
theorem Projected.agree_iff (h : Projected p w held s) :
    ∃ row, (s.workers w).registry.page_register.get p = some row ∧
      (s.commander.delivery_desk.page_subscriptions.tablesFor p = row.table_subscriptions ↔
        ∀ t, lastWord (decide (t ∈ held)) p t s.taken =
          lastWord (decide (t ∈ held)) p t s.filed) := by
  obtain ⟨row, hrow, htables⟩ := h.row
  refine ⟨row, hrow, ?_⟩
  rw [Finset.ext_iff]
  refine forall_congr' fun t => ?_
  rw [SubscriptionIndex.mem_tablesFor, htables, h.index]
  constructor
  · intro hsame
    exact Bool.eq_iff_iff.2 hsame.symm
  · intro hsame
    rw [hsame]

end

/-- What holds of the page in every state of such a run. -/
theorem projected_run {register : CoreRegister V} {core : CoreCommander}
    {commander : Commander V} {processes : WorkerName → Worker V B} {p : PageId} {w : WorkerName}
    {first : PageRow V} (hfirst : (processes w).registry.page_register.get p = some first)
    (hindex : commander.delivery_desk.page_subscriptions.tablesFor p = first.table_subscriptions)
    {acts : List (Act V B)}
    (hacts : Meets (step register core) (StaysRegistered p w) (start commander processes) acts)
    {s : State V B} (hrun : run (step register core) (start commander processes) acts = some s) :
    Projected p w first.table_subscriptions s := by
  have hstart : Projected p w first.table_subscriptions (start commander processes) := {
    row := ⟨first, hfirst, fun t => by simp [start, lastWord, aboutPair]⟩
    index := by
      intro t
      rw [← SubscriptionIndex.mem_tablesFor]
      simp [start, lastWord, aboutPair, hindex] }
  have hstep : ∀ (s : State V B) a s', Projected p w first.table_subscriptions s →
      StaysRegistered p w s a → step register core s a = some s' →
        Projected p w first.table_subscriptions s' :=
    fun _ _ _ h ha hs => ⟨h.row_step ha hs, h.index_step ha hs⟩
  exact run_invariant hstep hstart hacts hrun

/-- The desk's index is a projection of the rows where the histories end on the same word. Take a
page with a row on its worker, whose tables the desk's index has, and a run in which it stays
registered, with its `subscribeTable` calls placed, served, refused and answered in any order. In
every state of the run, and so when every call has returned or raised, the page is there and the
desk's tables of it are those of its row if and only if, for every table, the last call that moved
the row and the last one that the desk filed say the same. -/
theorem projection_iff_same_last_word (register : CoreRegister V) (core : CoreCommander)
    (commander : Commander V) (processes : WorkerName → Worker V B) (p : PageId) (w : WorkerName)
    (first : PageRow V) (hfirst : (processes w).registry.page_register.get p = some first)
    (hindex : commander.delivery_desk.page_subscriptions.tablesFor p = first.table_subscriptions)
    (acts : List (Act V B))
    (hacts : Meets (step register core) (StaysRegistered p w) (start commander processes) acts)
    (s : State V B) (hrun : run (step register core) (start commander processes) acts = some s) :
    ∃ row, (s.workers w).registry.page_register.get p = some row ∧
      (s.commander.delivery_desk.page_subscriptions.tablesFor p = row.table_subscriptions ↔
        ∀ t, lastWord (decide (t ∈ first.table_subscriptions)) p t s.taken =
          lastWord (decide (t ∈ first.table_subscriptions)) p t s.filed) :=
  (projected_run hfirst hindex hacts hrun).agree_iff

/-- Two calls of the page, whose CALLs are served in the opposite order. -/
def crossed (t u : Table) (subscribe : Bool) :
    List (Act Delivery.Sample.Value Delivery.Sample.FlatBag) :=
  [.subscribe "w" t "p" true, .subscribe "w" u "p" subscribe, .serve 1, .serve 0, .answer 0,
    .answer 0]

/-- Where the two calls are about two tables, the row and the index agree. -/
theorem projection_crossed_tables :
    ∃ s, run (step Delivery.Sample.core Sample.core) Sample.start (crossed "t" "u" true) = some s ∧
      ∃ row, (s.workers "w").registry.page_register.get "p" = some row ∧
        s.commander.delivery_desk.page_subscriptions.tablesFor "p" = row.table_subscriptions := by
  have hfacts : (run (step Delivery.Sample.core Sample.core) Sample.start
      (crossed "t" "u" true)).map (fun s => (s.taken, s.filed)) =
      some ([⟨"p", "t", true⟩, ⟨"p", "u", true⟩], [⟨"p", "u", true⟩, ⟨"p", "t", true⟩]) := rfl
  obtain ⟨s, hs, hs'⟩ := Option.map_eq_some_iff.1 hfacts
  simp only [Prod.mk.injEq] at hs'
  have hacts : Meets (step Delivery.Sample.core Sample.core) (StaysRegistered "p" "w")
      Sample.start (crossed "t" "u" true) := by
    refine .cons rfl (fun _ => rfl) (.cons rfl (fun _ => rfl) (.cons rfl trivial ?_))
    exact .cons rfl trivial (.cons rfl trivial (.cons rfl trivial trivial))
  obtain ⟨row, hrow, hiff⟩ := projection_iff_same_last_word Delivery.Sample.core Sample.core _ _
    "p" "w" (PageRow.born "c") rfl rfl _ hacts s hs
  refine ⟨s, hs, row, hrow, hiff.2 fun t => ?_⟩
  rw [hs'.1, hs'.2]
  by_cases ht : t = "t"
  · simp [lastWord, aboutPair, ht]
  · by_cases hu : t = "u" <;> simp [lastWord, aboutPair, ht, hu]

/-- Where the second call closes the table that the first one opens, the index keeps it: when both
calls have returned, the row has no table and the index has the page under this one. -/
theorem index_keeps_a_closed_subscription :
    ∃ s, run (step Delivery.Sample.core Sample.core) Sample.start (crossed "t" "t" false) =
        some s ∧
      s.calls = [] ∧ s.replies = [] ∧
      ∃ row, (s.workers "w").registry.page_register.get "p" = some row ∧
        row.table_subscriptions = ∅ ∧
        s.commander.delivery_desk.page_subscriptions.tablesFor "p" = {"t"} ∧
        s.commander.delivery_desk.page_subscriptions.tablesFor "p" ≠ row.table_subscriptions := by
  have hfacts : (run (step Delivery.Sample.core Sample.core) Sample.start
      (crossed "t" "t" false)).map (fun s => (s.calls, s.replies,
        ((s.workers "w").registry.page_register.get "p").map PageRow.table_subscriptions,
        s.commander.delivery_desk.page_subscriptions.tablesFor "p")) =
      some ([], [], some ∅, {"t"}) := rfl
  obtain ⟨s, hs, hs'⟩ := Option.map_eq_some_iff.1 hfacts
  simp only [Prod.mk.injEq] at hs'
  obtain ⟨hcalls, hreplies, hrow, hindex⟩ := hs'
  obtain ⟨row, hget, htables⟩ := Option.map_eq_some_iff.1 hrow
  refine ⟨s, hs, hcalls, hreplies, row, hget, htables, hindex, ?_⟩
  rw [hindex, htables]
  decide

/-! ## CALLs in order -/

/-- The CALLs of a page about a table are served in the order in which they were placed, and none of
the page's is refused. -/
def ServedInOrder (p : PageId) (s : State V B) : Act V B → Prop
  | .serve k => ∀ placed ∈ s.calls[k]?, ∀ before ∈ s.calls.take k, before.2.page_id = p →
    placed.2.page_id = p → before.2.table ≠ placed.2.table
  | .refuse k => ∀ placed ∈ s.calls[k]?, placed.2.page_id ≠ p
  | _ => True

/-- What the row has taken of a pair is what the desk has filed of it and what is on the way. -/
def Balanced (p : PageId) (s : State V B) : Prop :=
  ∀ t, aboutPair p t s.taken = aboutPair p t s.filed ++ aboutPair p t (s.calls.map Prod.snd)

/-- One action that serves in order keeps the balance. -/
theorem Balanced.step {register : CoreRegister V} {core : CoreCommander} {s s' : State V B}
    {a : Act V B} {p : PageId} (h : Balanced p s) (ha : ServedInOrder p s a)
    (hs : step register core s a = some s') : Balanced p s' := by
  intro t
  cases a with
  | subscribe v u q subscribe =>
    cases hs
    unfold State.subscribe
    split
    · exact h t
    · have hbalance := h t
      simp only [aboutPair, List.map_append, List.filter_append] at hbalance ⊢
      rw [hbalance, List.append_assoc]
      rfl
  | serve k =>
    obtain ⟨placed, hk, rfl⟩ := Option.map_eq_some_iff.1 hs
    obtain ⟨hsplit, herase⟩ := Delivery.eraseIdx_split hk
    have hbalance := h t
    rw [hsplit] at hbalance
    simp only [herase, aboutPair, List.map_append, List.map_cons, List.filter_append]
      at hbalance ⊢
    rw [hbalance]
    by_cases hpair : p = placed.2.page_id ∧ t = placed.2.table
    · -- Nothing about the pair was placed before.
      have hnone : ((s.calls.take k).map Prod.snd).filter
          (fun call => decide (p = call.page_id ∧ t = call.table)) = [] := by
        rw [List.filter_eq_nil_iff]
        intro call hcall hsame
        obtain ⟨before, hbefore, rfl⟩ := List.mem_map.1 hcall
        obtain ⟨hp, ht⟩ := of_decide_eq_true hsame
        exact ha placed hk before hbefore hp.symm hpair.1.symm (ht.symm.trans hpair.2)
      simp only [hnone, List.filter_cons, List.filter_nil, decide_eq_true hpair, if_true,
        List.nil_append, List.append_assoc, List.singleton_append]
    · simp [hpair]
  | refuse k =>
    obtain ⟨placed, hk, rfl⟩ := Option.map_eq_some_iff.1 hs
    obtain ⟨hsplit, herase⟩ := Delivery.eraseIdx_split hk
    have hother : ¬ (p = placed.2.page_id ∧ t = placed.2.table) :=
      fun hpair => ha placed hk hpair.1.symm
    have hbalance := h t
    rw [hsplit] at hbalance
    simp only [herase, aboutPair, List.map_append, List.map_cons, List.filter_append]
      at hbalance ⊢
    rw [hbalance]
    simp [hother]
  | launch group v process =>
    obtain ⟨_, hs⟩ := Option.ite_none_left_eq_some.1 hs
    cases hs
    exact h t
  | present v =>
    obtain ⟨_, hs⟩ := Option.ite_none_right_eq_some.1 hs
    cases hs
    exact h t
  | answer | fold | runPush | losePush | deliver =>
    obtain ⟨_, _, rfl⟩ := Option.map_eq_some_iff.1 hs
    exact h t
  | _ =>
    cases hs
    exact h t

/-- In a run that serves the page's CALLs in order, with none on the way, the desk's index has the
tables of the row. -/
theorem projection_of_servedInOrder (register : CoreRegister V) (core : CoreCommander)
    (commander : Commander V) (processes : WorkerName → Worker V B) (p : PageId) (w : WorkerName)
    (first : PageRow V) (hfirst : (processes w).registry.page_register.get p = some first)
    (hindex : commander.delivery_desk.page_subscriptions.tablesFor p = first.table_subscriptions)
    (acts : List (Act V B))
    (hacts : Meets (step register core) (StaysRegistered p w) (start commander processes) acts)
    (horder : Meets (step register core) (ServedInOrder p) (start commander processes) acts)
    (s : State V B) (hrun : run (step register core) (start commander processes) acts = some s)
    (hquiet : ∀ placed ∈ s.calls, placed.2.page_id ≠ p) :
    ∃ row, (s.workers w).registry.page_register.get p = some row ∧
      s.commander.delivery_desk.page_subscriptions.tablesFor p = row.table_subscriptions := by
  have hstep : ∀ (s : State V B) a s', Balanced p s → ServedInOrder p s a →
      step register core s a = some s' → Balanced p s' := fun _ _ _ h ha hs => h.step ha hs
  have hstart : Balanced p (start commander processes) := fun _ => rfl
  have hbalance := run_invariant hstep hstart horder hrun
  obtain ⟨row, hrow, hiff⟩ := (projected_run hfirst hindex hacts hrun).agree_iff
  refine ⟨row, hrow, hiff.2 fun t => ?_⟩
  -- Nothing of the page is on the way, so the two histories of each pair are one.
  have hnone : aboutPair p t (s.calls.map Prod.snd) = [] := by
    rw [aboutPair, List.filter_eq_nil_iff]
    intro call hcall hsame
    obtain ⟨placed, hplaced, rfl⟩ := List.mem_map.1 hcall
    exact hquiet placed hplaced (of_decide_eq_true hsame).1.symm
  rw [lastWord, lastWord, hbalance t, hnone, List.append_nil]

end GenropyAsgi.Subscriptions
