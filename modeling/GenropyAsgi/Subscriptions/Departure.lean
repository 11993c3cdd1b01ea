import GenropyAsgi.Subscriptions.Machine

/-!
# What a page that is gone leaves at the desk

The vertex drops a page when the event of its departure arrives, whatever CALLs of the page are
still on the lane. An addressed write that comes later is not filed: the desk asks the vertex
whether the page exists. A subscribe CALL that comes later is filed, for the desk does not ask. So a
page dropped at the vertex leaves nothing at the desk exactly when no CALL that opens a subscription
of it is served after its drop.
-/

namespace GenropyAsgi.Subscriptions

open Library
open Worker (SubscribeCall)

variable {V B : Type}

/-- The desk holds nothing of a page. -/
structure LeavesNothing (p : PageId) (desk : DeliveryDesk V) : Prop where
  /-- The page is in no subscription. -/
  subscriptions : ∀ t, p ∉ desk.page_subscriptions.pagesFor t
  /-- A table is kept in the source filter by other pages alone. -/
  filter : ∀ t ∈ desk.subscribedTables, ∃ q, q ≠ p ∧ q ∈ desk.page_subscriptions.pagesFor t
  /-- No change waits for the page. -/
  datachanges : desk.page_datachange_map.get p = none
  /-- No deposit waits for the page. -/
  dbevents : desk.page_dbevent_map.get p = none

namespace LeavesNothing

variable {p : PageId} {desk desk' : DeliveryDesk V}

/-- The source filter follows from the subscriptions. -/
theorem of_subscriptions (hsubscriptions : ∀ t, p ∉ desk.page_subscriptions.pagesFor t)
    (hdatachanges : desk.page_datachange_map.get p = none)
    (hdbevents : desk.page_dbevent_map.get p = none) : LeavesNothing p desk where
  subscriptions := hsubscriptions
  filter := by
    intro t ht
    obtain ⟨q, hq⟩ := desk.mem_subscribedTables.1 ht
    refine ⟨q, ?_, hq⟩
    rintro rfl
    exact hsubscriptions t hq
  datachanges := hdatachanges
  dbevents := hdbevents

/-- A mutation of the index that opens no subscription of the page. -/
theorem perform (h : LeavesNothing p desk) {mutation : IndexMutation}
    (hclosed : ∀ t, ¬ mutation.Holds p t False) : LeavesNothing p (mutation.perform desk).1 := by
  obtain ⟨hdatachanges, hdbevents⟩ := mutation.queues_perform desk p
  refine of_subscriptions ?_ ?_ ?_
  · intro t
    rw [mutation.mem_pagesFor_perform, eq_false (h.subscriptions t)]
    exact hclosed t
  · rw [hdatachanges, h.datachanges, ite_self]
  · rw [hdbevents, h.dbevents, ite_self]

/-- The drop of the page itself. -/
theorem dropPage (p : PageId) (desk : DeliveryDesk V) :
    LeavesNothing p ((IndexMutation.dropPage p).perform desk).1 := by
  obtain ⟨hdatachanges, hdbevents⟩ := (IndexMutation.dropPage p).queues_perform desk p
  refine of_subscriptions ?_ ?_ ?_
  · intro t
    rw [IndexMutation.mem_pagesFor_perform, IndexMutation.Holds]
    exact fun h => h.2 rfl
  · rw [hdatachanges, if_pos rfl]
  · rw [hdbevents, if_pos rfl]

/-- The filing of deposits: the page hears none. -/
theorem fileDbevents (h : LeavesNothing p desk) (dbevents : List (DbEvent V × Instant)) :
    LeavesNothing p (desk.fileDbevents dbevents) := by
  refine of_subscriptions ?_ ?_ ?_
  · rw [DeliveryDesk.page_subscriptions_fileDbevents]
    exact h.subscriptions
  · rw [DeliveryDesk.page_datachange_map_fileDbevents]
    exact h.datachanges
  · rw [DeliveryDesk.get_page_dbevent_map_fileDbevents h.subscriptions]
    exact h.dbevents

/-- An exchange, of whichever page. -/
theorem exchange (h : LeavesNothing p desk) (q : PageId) (user : User)
    (dbevents : List (DbEvent V × Instant)) :
    LeavesNothing p (desk.exchange q user dbevents).1 := by
  refine of_subscriptions ?_ ?_ ?_
  · rw [DeliveryDesk.page_subscriptions_exchange]
    exact h.subscriptions
  · rw [DeliveryDesk.page_datachange_map_exchange, Dict.get_pop, h.datachanges, ite_self]
  · rw [DeliveryDesk.page_dbevent_map_exchange, Dict.get_pop, (h.fileDbevents dbevents).dbevents,
      ite_self]

/-- An addressed write, when the vertex does not know the page. -/
theorem onDatachange (h : LeavesNothing p desk) {population : Population}
    (hunknown : population.page_connection_map.get p = none) (message : Message V) (now : Instant) :
    LeavesNothing p (desk.onDatachange population message now).1 := by
  obtain ⟨hindex, hdbevents⟩ := desk.onDatachange_dbevents population message now
  refine of_subscriptions ?_ ?_ ?_
  · rw [hindex]
    exact h.subscriptions
  · rcases desk.onDatachange_cases population message now with
      ⟨target, _, _, _, _, heq⟩ | ⟨target, _, _, hkind, hknown, heq⟩ | ⟨answer, _, heq⟩
    · rw [heq]
      exact h.datachanges
    · -- A page that is written at is a page that the vertex knows.
      have hp : p ≠ target := by
        rintro rfl
        simp [Population.known, hkind, hunknown] at hknown
      rw [heq]
      dsimp only
      rw [Dict.get_set, if_neg hp]
      exact h.datachanges
    · rw [heq]
      exact h.datachanges
  · rw [hdbevents]
    exact h.dbevents

/-- The loop of `drop_connection`, for a page outside of it. -/
theorem forgetPages (page_ids : List PageId) {commander : Commander V}
    (h : LeavesNothing p commander.delivery_desk) :
    LeavesNothing p (commander.forgetPages page_ids).delivery_desk := by
  induction page_ids generalizing commander with
  | nil => exact h
  | cons q page_ids ih =>
    rw [Commander.forgetPages_cons]
    refine ih ?_
    rw [Commander.delivery_desk_mutate]
    exact h.perform fun t => by simp [IndexMutation.Holds]

/-- The loop of `drop_connection`, for a page in it. -/
theorem forgetPages_of_mem {page_ids : List PageId} (hp : p ∈ page_ids)
    (commander : Commander V) : LeavesNothing p (commander.forgetPages page_ids).delivery_desk := by
  induction page_ids generalizing commander with
  | nil => cases hp
  | cons q page_ids ih =>
    rw [Commander.forgetPages_cons]
    by_cases hq : p = q
    · -- Dropped here; the rest of the loop brings nothing back.
      subst hq
      refine forgetPages page_ids ?_
      rw [Commander.delivery_desk_mutate]
      exact dropPage p commander.delivery_desk
    · exact ih (List.mem_of_ne_of_mem hq hp) _

/-- The fold of a drop: what it drops leaves nothing, and what left nothing goes on leaving it. -/
theorem fold (core : CoreCommander) {commander : Commander V} {departure : Departure}
    (h : p ∈ departure.pages commander.population ∨ LeavesNothing p commander.delivery_desk) :
    LeavesNothing p (departure.fold core commander).delivery_desk := by
  cases departure with
  | page q =>
    rw [Departure.fold, Commander.dropPage, Commander.delivery_desk_mutate]
    rcases h with hp | hclean
    · rw [Departure.pages, Finset.mem_singleton] at hp
      subst hp
      exact dropPage p commander.delivery_desk
    · exact hclean.perform fun t => by simp [IndexMutation.Holds]
  | connection cid =>
    rcases h with hp | hclean
    · exact forgetPages_of_mem (mem_sorted.2 hp) _
    · exact forgetPages _ hclean

end LeavesNothing

/-- A page dropped at the vertex and not announced since is not in its map. -/
def GoneUnknown (p : PageId) (s : State V B) : Prop :=
  p ∈ s.gone → s.commander.population.page_connection_map.get p = none

/-- A page dropped at the vertex and not announced since leaves nothing at the desk. -/
def GoneLeavesNothing (p : PageId) (s : State V B) : Prop :=
  p ∈ s.gone → LeavesNothing p s.commander.delivery_desk

/-- The condition on a CALL that the desk serves: if it opens a subscription of the page, the page
has not been dropped at the vertex. -/
def OpensOnlyBefore (p : PageId) (s : State V B) : Act V B → Prop
  | .serve k => ∀ placed ∈ s.calls[k]?, placed.2.page_id = p → placed.2.subscribe = true →
    p ∉ s.gone
  | _ => True

section

variable {register : CoreRegister V} {core : CoreCommander} {s s' : State V B} {a : Act V B}
  {p : PageId}

/-- The fold of a drop takes its pages out of the map, and brings none in. -/
theorem Departure.get_fold (core : CoreCommander) {commander : Commander V} {departure : Departure}
    (h : p ∈ departure.pages commander.population ∨
      commander.population.page_connection_map.get p = none) :
    (departure.fold core commander).population.page_connection_map.get p = none := by
  cases departure with
  | page q =>
    rw [fold, Commander.dropPage, Commander.population_mutate]
    rcases h with hp | hnone
    · rw [pages, Finset.mem_singleton] at hp
      rw [hp]
      exact core.dropPage_self _ q
    · exact core.dropPage_none _ q p hnone
  | connection cid =>
    rw [fold, Commander.dropConnection, Commander.population_forgetPages]
    rcases h with hp | hnone
    · exact core.dropConnection_self _ cid p (Population.mem_pagesOf.1 hp)
    · exact core.dropConnection_none _ cid p hnone

/-- The actions that move neither the population nor the pages that are gone. -/
theorem vertex_step (hs : step register core s a = some s') :
    match a with
    | .announce .. => True
    | .fold _ => True
    | .dropUser _ => True
    | _ => s'.gone = s.gone ∧ s'.commander.population = s.commander.population := by
  cases a with
  | announce | fold | dropUser => trivial
  | subscribe w t q subscribe =>
    cases hs
    show (s.subscribe w t q subscribe).gone = s.gone ∧
      (s.subscribe w t q subscribe).commander.population = s.commander.population
    unfold State.subscribe
    split <;> exact ⟨rfl, rfl⟩
  | serve k =>
    obtain ⟨placed, _, rfl⟩ := Option.map_eq_some_iff.1 hs
    exact ⟨rfl, Commander.population_mutate _ _⟩
  | launch group w process =>
    obtain ⟨_, hs⟩ := Option.ite_none_left_eq_some.1 hs
    cases hs
    exact ⟨rfl, rfl⟩
  | present w =>
    obtain ⟨_, hs⟩ := Option.ite_none_right_eq_some.1 hs
    cases hs
    exact ⟨rfl, rfl⟩
  | runPush k =>
    obtain ⟨ran, hran, rfl⟩ := Option.map_eq_some_iff.1 hs
    obtain ⟨w, _, rfl⟩ := Option.map_eq_some_iff.1 hran
    exact ⟨rfl, rfl⟩
  | losePush k =>
    obtain ⟨ran, hran, rfl⟩ := Option.map_eq_some_iff.1 hs
    obtain ⟨w, _, rfl⟩ := Option.map_eq_some_iff.1 hran
    exact ⟨rfl, rfl⟩
  | refuse | answer | deliver =>
    obtain ⟨_, _, rfl⟩ := Option.map_eq_some_iff.1 hs
    exact ⟨rfl, rfl⟩
  | _ =>
    cases hs
    exact ⟨rfl, rfl⟩

/-- Every action keeps the pages that are gone out of the map. -/
theorem GoneUnknown.step (h : GoneUnknown p s)
    (hs : Subscriptions.step register core s a = some s') :
    GoneUnknown p s' := by
  intro hp
  have hframe := vertex_step hs
  cases a with
  | announce q cid tables =>
    cases hs
    obtain ⟨hne, hgone⟩ := Finset.mem_erase.1 hp
    simp only [State.announce, Commander.onNewPage, Commander.recordPageTableSubscriptions,
      Commander.population_mutate]
    exact core.onNewPage_none _ q cid p hne (h hgone)
  | fold k =>
    obtain ⟨departure, _, rfl⟩ := Option.map_eq_some_iff.1 hs
    exact departure.get_fold core ((Finset.mem_union.1 hp).symm.imp_right h)
  | dropUser user =>
    cases hs
    exact core.dropUser_none _ user p (h hp)
  | _ =>
    rw [hframe.1] at hp
    rw [hframe.2]
    exact h hp

/-- One action keeps a page that is gone without a trace at the desk, exactly when it does not serve
a CALL that opens a subscription of it. -/
theorem goneLeavesNothing_step (hbase : GoneUnknown p s) (h : GoneLeavesNothing p s)
    (hs : step register core s a = some s') : GoneLeavesNothing p s' ↔ OpensOnlyBefore p s a := by
  have hframe := vertex_step hs
  cases a with
  | serve k =>
    obtain ⟨placed, hk, rfl⟩ := Option.map_eq_some_iff.1 hs
    constructor
    · -- Once served, an opening CALL leaves the page in a subscription.
      intro hafter opened hopened hpage hopens hgone
      rw [Option.mem_def, hk, Option.some.injEq] at hopened
      subst hopened
      refine (hafter hgone).subscriptions placed.2.table ?_
      rw [mem_pagesFor_step hs]
      simp [Act.Holds, hk, hpage, hopens]
    · -- A CALL about another page, or one that closes, leaves the page out.
      intro hcond hgone
      simp only [Commander.subscribeTable, Commander.delivery_desk_mutate]
      refine (h hgone).perform fun t => ?_
      rw [IndexMutation.Holds]
      split_ifs with hpair
      · exact fun hopens => hcond placed hk hpair.1.symm hopens hgone
      · exact not_false
  | announce q cid tables =>
    cases hs
    refine iff_of_true (fun hp => ?_) trivial
    -- An announced page is not gone any more, so it is another one.
    obtain ⟨hne, hgone⟩ := Finset.mem_erase.1 hp
    simp only [State.announce, Commander.onNewPage, Commander.recordPageTableSubscriptions,
      Commander.delivery_desk_mutate]
    exact (h hgone).perform fun t => by simp [IndexMutation.Holds, hne]
  | fold k =>
    obtain ⟨departure, _, rfl⟩ := Option.map_eq_some_iff.1 hs
    refine iff_of_true (fun hp => ?_) trivial
    exact LeavesNothing.fold core ((Finset.mem_union.1 hp).symm.imp_right h)
  | onDatachange message now =>
    cases hs
    exact iff_of_true (fun hp => (h hp).onDatachange (hbase hp) message now) trivial
  | exchange q user dbevents =>
    cases hs
    exact iff_of_true (fun hp => (h hp).exchange q user dbevents) trivial
  | deposit dbevents =>
    cases hs
    exact iff_of_true (fun hp => (h hp).fileDbevents dbevents) trivial
  | dropUser user =>
    cases hs
    refine iff_of_true (fun hp => ?_) trivial
    exact .of_subscriptions (h hp).subscriptions (h hp).datachanges (h hp).dbevents
  | subscribe w t q subscribe =>
    cases hs
    refine iff_of_true (fun hp => ?_) trivial
    rw [hframe.1] at hp
    unfold State.subscribe
    split <;> exact h hp
  | launch group w process =>
    obtain ⟨_, hs⟩ := Option.ite_none_left_eq_some.1 hs
    cases hs
    exact iff_of_true h trivial
  | present w =>
    obtain ⟨_, hs⟩ := Option.ite_none_right_eq_some.1 hs
    cases hs
    exact iff_of_true h trivial
  | runPush k =>
    obtain ⟨ran, hran, rfl⟩ := Option.map_eq_some_iff.1 hs
    obtain ⟨w, _, rfl⟩ := Option.map_eq_some_iff.1 hran
    exact iff_of_true h trivial
  | losePush k =>
    obtain ⟨ran, hran, rfl⟩ := Option.map_eq_some_iff.1 hs
    obtain ⟨w, _, rfl⟩ := Option.map_eq_some_iff.1 hran
    exact iff_of_true h trivial
  | refuse | answer | deliver =>
    obtain ⟨_, _, rfl⟩ := Option.map_eq_some_iff.1 hs
    exact iff_of_true h trivial
  | _ =>
    cases hs
    exact iff_of_true h trivial

end

/-- A page that is gone leaves nothing at the desk. Over every run of the machine, from workers and
a commander in any state: in every state a page that has been dropped at the vertex, and not
announced since, is in no subscription, keeps no table in the source filter, and has no queue at the
desk, if and only if the desk never serves a CALL that opens a subscription of the page after its
drop. -/
theorem gone_leaves_nothing_iff (register : CoreRegister V) (core : CoreCommander)
    (commander : Commander V) (processes : WorkerName → Worker V B) (p : PageId)
    (acts : List (Act V B)) :
    Throughout (step register core) (GoneLeavesNothing p) (start commander processes) acts ↔
      Meets (step register core) (OpensOnlyBefore p) (start commander processes) acts := by
  -- A CALL that is not there is not served.
  have hnone : ∀ (s : State V B) (a : Act V B), step register core s a = none →
      OpensOnlyBefore p s a := by
    intro s a hs
    cases a with
    | serve k =>
      intro placed hk
      rw [Option.mem_def, Option.map_eq_none_iff.1 hs] at hk
      cases hk
    | _ => trivial
  have hbase : ∀ (s : State V B) a s', GoneUnknown p s →
      (fun (_ : State V B) (_ : Act V B) => True) s a → step register core s a = some s' →
        GoneUnknown p s' := fun _ _ _ h _ hs => h.step hs
  exact throughout_iff_meets hbase hnone
    (fun _ _ _ hb _ h hs => goneLeavesNothing_step hb h hs)
    (fun hp => absurd hp (Finset.notMem_empty p)) (fun hp => absurd hp (Finset.notMem_empty p))
    (Meets.of_forall fun _ _ => trivial)

/-- A page subscribes a table and is dropped, on the worker and then at the vertex, before its CALL
is served; then a commit on the table comes. -/
def overtaken : List (Act Delivery.Sample.Value Delivery.Sample.FlatBag) :=
  [.subscribe "w" "t" "p" true, .dropPage "w" "p" false, .fold 0, .serve 0, .answer 0,
    .deposit [(⟨"t", [some 1], none, none, 3, none⟩, 4)]]

/-- Every message has been delivered, and the page that is gone is in a subscription of the desk,
alone, with a deposit waiting for it. -/
theorem gone_page_keeps_a_queue :
    ∃ s, run (step Delivery.Sample.core Sample.core) Sample.start overtaken = some s ∧
      s.calls = [] ∧ s.replies = [] ∧ s.departures.length = 0 ∧
      "p" ∈ s.gone ∧ s.commander.population.page_connection_map.get "p" = none ∧
      s.commander.delivery_desk.page_subscriptions.pagesFor "t" = {"p"} ∧
      s.commander.delivery_desk.page_dbevent_map.get "p" =
        some [⟨"t", [some 1], none, none, 3, some 4⟩] := by
  have hlane : (run (step Delivery.Sample.core Sample.core) Sample.start overtaken).map
      (fun s => (s.calls, s.replies, s.departures.length, s.gone)) = some ([], [], 0, {"p"}) := rfl
  -- The drop at the vertex sorts the tables of the page, which the kernel alone evaluates.
  have hmap : (run (step Delivery.Sample.core Sample.core) Sample.start overtaken).map
      (fun s => s.commander.population.page_connection_map.get "p") = some none := by
    decide +kernel
  have hdesk : (run (step Delivery.Sample.core Sample.core) Sample.start overtaken).map
      (fun s => (s.commander.delivery_desk.page_subscriptions.pagesFor "t",
        s.commander.delivery_desk.page_dbevent_map.get "p")) =
      some ({"p"}, some [⟨"t", [some 1], none, none, 3, some 4⟩]) := by
    decide +kernel
  obtain ⟨s, hs, hs'⟩ := Option.map_eq_some_iff.1 hlane
  rw [hs, Option.map_some] at hmap hdesk
  simp only [Option.some.injEq, Prod.mk.injEq] at hs' hmap hdesk
  obtain ⟨hcalls, hreplies, hdepartures, hgone⟩ := hs'
  refine ⟨s, hs, hcalls, hreplies, hdepartures, ?_, hmap, hdesk.1, hdesk.2⟩
  rw [hgone]
  exact Finset.mem_singleton.2 rfl

end GenropyAsgi.Subscriptions
