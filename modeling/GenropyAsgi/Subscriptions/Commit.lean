import GenropyAsgi.Subscriptions.Filter

/-!
# The commits that follow a subscription

`subscribe_table` answers once the desk has filed the pair; the push that tells the worker's own
filter is a task and a CALL of its own. A commit between the two finds a filter without the table
and its events die at the source. Once the worker has served the pushes that were on its wire when
the pair was filed, and one push more if one was pending for it, every commit finds the table, for
as long as the desk keeps the pair.
-/

namespace GenropyAsgi.Subscriptions

open Library
open Worker (SubscribeCall)

variable {V B : Type}

/-- The pair stays filed: the desk serves no CALL that closes it, and the vertex folds no drop of
the page. -/
def StaysSubscribed (p : PageId) (t : Table) (s : State V B) : Act V B → Prop
  | .serve k => ∀ placed ∈ s.calls[k]?, placed.2 ≠ ⟨p, t, false⟩
  | .fold k => ∀ departure ∈ s.departures[k]?, p ∉ departure.pages s.commander.population
  | _ => True

/-- No new process is launched under the worker's name. -/
def SameProcess (w : WorkerName) : Act V B → Prop
  | .launch _ v _ => v ≠ w
  | _ => True

section

variable {register : CoreRegister V} {core : CoreCommander} {s s' : State V B} {a : Act V B}
  {p : PageId} {t : Table} {w : WorkerName}

/-- The desk keeps the pair. -/
theorem StaysSubscribed.step (ha : StaysSubscribed p t s a)
    (h : p ∈ s.commander.delivery_desk.page_subscriptions.pagesFor t)
    (hs : step register core s a = some s') :
    p ∈ s'.commander.delivery_desk.page_subscriptions.pagesFor t := by
  rw [mem_pagesFor_step hs]
  cases a with
  | serve k =>
    obtain ⟨⟨v, call⟩, hk, _⟩ := Option.map_eq_some_iff.1 hs
    simp only [Act.Holds, hk]
    split_ifs with hpair
    · -- A CALL about this very pair opens it.
      have hcall : call ≠ ⟨p, t, false⟩ := ha _ hk
      by_contra hclosed
      obtain ⟨q, u, subscribe⟩ := call
      rw [Bool.not_eq_true] at hclosed
      dsimp only at hpair hclosed
      exact hcall (by rw [hpair.1, hpair.2, hclosed])
    · exact h
  | fold k =>
    obtain ⟨departure, hk, _⟩ := Option.map_eq_some_iff.1 hs
    simp only [Act.Holds, hk]
    exact ⟨h, ha _ hk⟩
  | announce q cid tables => exact Or.inl h
  | _ => exact h

/-- What holds of a worker from the moment at which a pair has been filed: all that is put on its
wire from a place on has the table. -/
structure Honoured (p : PageId) (t : Table) (w : WorkerName) (n : ℕ) (s : State V B) : Prop where
  /-- The pair is filed. -/
  filed : p ∈ s.commander.delivery_desk.page_subscriptions.pagesFor t
  /-- From the place on, what is on the wire has the table. -/
  settled : (s.wires w).SettledFrom (fun tables => t ∈ tables) n
  /-- The filters are what the wires have delivered. -/
  filtered : Filtered s

/-- One action that keeps the pair and the process keeps the wire honoured. -/
theorem Honoured.step {n : ℕ} (h : Honoured p t w n s) (ha : StaysSubscribed p t s a)
    (hw : SameProcess w a) (hs : Subscriptions.step register core s a = some s') :
    Honoured p t w n s' where
  filed := ha.step h.filed hs
  filtered := h.filtered.step hs
  settled := by
    by_cases hmoves : a.MovesWorker
    · cases a with
      | subscribe v u q subscribe =>
        cases hs
        unfold State.subscribe
        split <;> exact h.settled
      | launch group v process =>
        obtain ⟨_, hs⟩ := Option.ite_none_left_eq_some.1 hs
        cases hs
        simp only [Function.update_apply, if_neg (Ne.symm hw)]
        exact h.settled
      | runPush k =>
        -- The push reads a set that has the table.
        obtain ⟨ran, hran, rfl⟩ := Option.map_eq_some_iff.1 hs
        obtain ⟨v, _, rfl⟩ := Option.map_eq_some_iff.1 hran
        simp only [Function.update_apply]
        split_ifs with hv
        · rw [← hv]
          exact h.settled.put ((DeliveryDesk.mem_subscribedTables _).2 ⟨p, h.filed⟩)
        · exact h.settled
      | deliver v =>
        obtain ⟨served, hserved, rfl⟩ := Option.map_eq_some_iff.1 hs
        simp only [Function.update_apply]
        split_ifs with hv
        · rw [← hv] at hserved
          exact h.settled.serve hserved
        · exact h.settled
      | dropPage | dropConnection =>
        cases hs
        exact h.settled
      | _ => exact hmoves.elim
    · rw [(workers_step hmoves hs).2]
      exact h.settled

end

/-- A commit on a worker whose filter has the table lays its deposit on the request's slot. -/
theorem deposit_mem_notifyDbEvents (worker : Worker V B) {t : Table}
    (ht : t ∈ worker.subscribed_tables) {batch : List V} (hbatch : batch ≠ [])
    {dbevents : List (Table × List V)} (hmem : (t, batch) ∈ dbevents) (slot : RequestSlot V)
    (reason : Option String) (page_id : Option PageId) (clock : Table → Instant) :
    Worker.dbeventDeposit t batch page_id reason (clock t) ∈
      (worker.notifyDbEvents slot dbevents reason page_id false clock).1.dbevents := by
  simp only [Worker.notifyDbEvents, Bool.false_eq_true, if_false, Bool.false_or]
  refine List.mem_append_right _ (List.mem_map.2 ⟨(t, batch), List.mem_filter.2 ⟨hmem, ?_⟩, rfl⟩)
  simp [hbatch, ht]

/-- A subscription is honoured by the commits of its worker. Take a run that loses no push of a
living worker, in which the desk then serves the CALL of a presented living worker that opens a
pair, and any run from there on that keeps the pair filed. Once the worker has served the pushes
that were on its wire at that moment, and one more if one was pending for it, every commit on it
with a batch for the table lays the deposit on the request's slot; and whenever that deposit is
filed at the desk, as long as the pair is kept, it joins the page's queue. -/
theorem subscription_honoured (register : CoreRegister V) (core : CoreCommander)
    (commander : Commander V) (processes : WorkerName → Worker V B) (before : List (Act V B))
    (hlost : Meets (step register core) NoPushLost (start commander processes) before)
    (s : State V B) (hbefore : run (step register core) (start commander processes) before = some s)
    (w : WorkerName) (p : PageId) (t : Table) (k : ℕ)
    (hcall : s.calls[k]? = some (w, ⟨p, t, true⟩)) (s₀ : State V B)
    (hserve : step register core s (.serve k) = some s₀) (hpresented : w ∈ s₀.presented)
    (hliving : w ∈ s₀.commander.livingWorkers) (since : List (Act V B))
    (hsince : Meets (step register core) (StaysSubscribed p t) s₀ since)
    (hprocess : ∀ a ∈ since, SameProcess w a) (s₁ : State V B)
    (hrun : run (step register core) s₀ since = some s₁)
    (hserved : (s₀.wires w).due (w ∈ s₀.commander.push_tasks) ≤ (s₁.wires w).served)
    (batch : List V) (hbatch : batch ≠ []) (dbevents : List (Table × List V))
    (hmem : (t, batch) ∈ dbevents) (slot : RequestSlot V) (reason : Option String)
    (page_id : Option PageId) (clock : Table → Instant) :
    Worker.dbeventDeposit t batch page_id reason (clock t) ∈
        ((s₁.workers w).notifyDbEvents slot dbevents reason page_id false clock).1.dbevents ∧
      ∀ (later : List (Act V B)) (s₂ : State V B),
        Meets (step register core) (StaysSubscribed p t) s₁ later →
        run (step register core) s₁ later = some s₂ → ∀ now,
          DeliveryDesk.filedDeposit (Worker.dbeventDeposit t batch page_id reason (clock t), now) ∈
            (s₂.commander.delivery_desk.fileDbevent
              (Worker.dbeventDeposit t batch page_id reason (clock t)) now).dbeventsFor p := by
  have hfiled : p ∈ s₀.commander.delivery_desk.page_subscriptions.pagesFor t := by
    rw [mem_pagesFor_step hserve]
    simp [Act.Holds, hcall]
  -- The worker is told of a set that has the table.
  have htold : (s₀.wires w).Told (w ∈ s₀.commander.push_tasks)
      s₀.commander.delivery_desk.subscribedTables := by
    have hno : NoPushLost s (.serve k : Act V B) := trivial
    exact (synced_run hlost hbefore).step hno hserve w hpresented hliving
  have hstart : Honoured p t w ((s₀.wires w).due (w ∈ s₀.commander.push_tasks)) s₀ := {
    filed := hfiled
    settled := htold.settledFrom ((DeliveryDesk.mem_subscribedTables _).2 ⟨p, hfiled⟩)
    filtered := (filtered_run hbefore).step hserve }
  have hstep : ∀ (n : ℕ) (s : State V B) a s', Honoured p t w n s →
      StaysSubscribed p t s a ∧ SameProcess w a → step register core s a = some s' →
        Honoured p t w n s' := fun _ _ _ _ h ha hs => h.step ha.1 ha.2 hs
  have hafter := run_invariant (hstep _) hstart (hsince.and (Meets.of_forall hprocess)) hrun
  -- The filter is what the wire has delivered, and the wire has delivered the place that was due.
  constructor
  · refine deposit_mem_notifyDbEvents (s₁.workers w) ?_ hbatch hmem slot reason page_id clock
    rw [hafter.filtered w, List.mem_toFinset]
    exact hafter.settled.copy hserved
  · intro later s₂ hlater hrun₂ now
    have hkeep : ∀ (s : State V B) a s',
        p ∈ s.commander.delivery_desk.page_subscriptions.pagesFor t → StaysSubscribed p t s a →
          step register core s a = some s' →
            p ∈ s'.commander.delivery_desk.page_subscriptions.pagesFor t :=
      fun _ _ _ h ha hs => ha.step h hs
    have hkept := run_invariant hkeep hafter.filed hlater hrun₂
    -- A deposit joins the queue of every page that the index has under its table.
    have hqueue := s₂.commander.delivery_desk.get_page_dbevent_map_fileDbevent
      (Worker.dbeventDeposit t batch page_id reason (clock t)) now p
    have hkept' : p ∈ s₂.commander.delivery_desk.page_subscriptions.pagesFor
        (Worker.dbeventDeposit t batch page_id reason (clock t)).table := hkept
    rw [if_pos hkept'] at hqueue
    rw [DeliveryDesk.dbeventsFor, hqueue]
    exact List.mem_append_right _ (List.mem_singleton.2 rfl)

/-- A page subscribes a table and its verb returns, while the push that the subscription caused is
still pending. -/
def returned : List (Act Delivery.Sample.Value Delivery.Sample.FlatBag) :=
  [.present "w", .runPush 0, .deliver "w", .subscribe "w" "t" "p" true, .serve 0, .answer 0]

/-- The push runs and is served: a commit lays its deposit. -/
theorem subscription_honoured_once_served :
    ∃ s, run (step Delivery.Sample.core Sample.core) Sample.start
        (returned ++ [.runPush 0, .deliver "w"]) = some s ∧
      Worker.dbeventDeposit "t" [some 1] none none 9 ∈
        ((s.workers "w").notifyDbEvents ⟨[], []⟩ [("t", [some 1])] none none false
          fun _ => 9).1.dbevents := by
  have hlost : Meets (step Delivery.Sample.core Sample.core) NoPushLost Sample.start
      (returned.take 4) := by
    refine .cons rfl trivial (.cons rfl trivial (.cons rfl trivial (.cons rfl trivial trivial)))
  refine ⟨_, rfl, ?_⟩
  refine (subscription_honoured Delivery.Sample.core Sample.core _ _ (returned.take 4) hlost _ rfl
    "w" "p" "t" 0 rfl _ rfl ?_ ?_ [.answer 0, .runPush 0, .deliver "w"] ?_ ?_ _ rfl ?_ [some 1] ?_
    [("t", [some 1])] ?_ ⟨[], []⟩ none none fun _ => 9).1
  · exact Finset.mem_singleton.2 rfl
  · exact List.mem_singleton.2 rfl
  · exact .cons rfl trivial (.cons rfl trivial (.cons rfl trivial trivial))
  · simp [SameProcess]
  · decide
  · simp
  · simp

/-- The verb has returned, the desk has the pair, and the worker is a presented living one: a commit
on it lays no deposit. -/
theorem commit_before_push_dies :
    ∃ s, run (step Delivery.Sample.core Sample.core) Sample.start returned = some s ∧
      ("w", ⟨"p", "t", true⟩) ∈ s.returned ∧
      "p" ∈ s.commander.delivery_desk.page_subscriptions.pagesFor "t" ∧
      "w" ∈ s.presented ∧ "w" ∈ s.commander.livingWorkers ∧
      ((s.workers "w").notifyDbEvents ⟨[], []⟩ [("t", [some 1])] none none false
        fun _ => 9).1.dbevents = [] := by
  have hfacts : (run (step Delivery.Sample.core Sample.core) Sample.start returned).map
      (fun s => (s.returned, s.commander.delivery_desk.page_subscriptions.pagesFor "t",
        s.presented, s.commander.livingWorkers, (s.workers "w").subscribed_tables)) =
      some ([("w", ⟨"p", "t", true⟩)], {"p"}, {"w"}, ["w"],
        (DeliveryDesk.empty : DeliveryDesk Delivery.Sample.Value).subscribedTables.toFinset) := rfl
  obtain ⟨s, hs, hs'⟩ := Option.map_eq_some_iff.1 hfacts
  simp only [Prod.mk.injEq] at hs'
  obtain ⟨hreturned, hpages, hpresented, hliving, hfilter⟩ := hs'
  refine ⟨s, hs, ?_, ?_, ?_, ?_, ?_⟩
  · rw [hreturned]
    exact List.mem_singleton.2 rfl
  · rw [hpages]
    exact Finset.mem_singleton.2 rfl
  · rw [hpresented]
    exact Finset.mem_singleton.2 rfl
  · rw [hliving]
    exact List.mem_singleton.2 rfl
  · -- The filter is the set that the desk had before.
    have hnone : "t" ∉ (s.workers "w").subscribed_tables := by
      rw [hfilter, DeliveryDesk.toFinset_subscribedTables]
      decide
    simp [Worker.notifyDbEvents, hnone]

end GenropyAsgi.Subscriptions
