import GenropyAsgi.Subscriptions.Machine

/-!
# The source filters

Each worker filters the commits of its site with a copy of the desk's table set. Nothing orders a
push against the reply of the subscription that caused it, so the copy may lag; but whatever moves
the set leaves a push pending for every living worker, and a push reads the set when it runs.
`Synced` is what every run without lost pushes keeps, and it has two consequences: a presented
living worker with no push pending and nothing on its wire has the desk's set (`filters_converge`),
and a subscription is honoured by the commits of a worker from the moment at which the worker has
served the pushes that were on the way when it was filed (`subscription_honoured`).
-/

namespace GenropyAsgi.Subscriptions

open Library
open Worker (SubscribeCall)

variable {V B : Type}

/-! ## What the vertex announces -/

/-- From one state of the vertex to another with the same groups, no push is forgotten, and the
table set is the same unless every living worker has a push pending. -/
structure Announced (commander commander' : Commander V) : Prop where
  /-- The groups are the same. -/
  groups : commander'.group_map = commander.group_map
  /-- No push is forgotten. -/
  kept : ∀ w ∈ commander.push_tasks, w ∈ commander'.push_tasks
  /-- The set is the same, or everybody is told. -/
  moved : commander'.delivery_desk.subscribedTables = commander.delivery_desk.subscribedTables ∨
    ∀ w ∈ commander.livingWorkers, w ∈ commander'.push_tasks

/-- A step that touches neither the index nor the pushes. -/
theorem Announced.of_eq {commander commander' : Commander V}
    (hgroups : commander'.group_map = commander.group_map)
    (hpushes : commander'.push_tasks = commander.push_tasks)
    (hindex : commander'.delivery_desk.page_subscriptions =
      commander.delivery_desk.page_subscriptions) : Announced commander commander' where
  groups := hgroups
  kept w hw := hpushes ▸ hw
  moved := Or.inl (DeliveryDesk.subscribedTables_inj.2 (by rw [hindex]))

/-- A step of the core on the population alone. -/
theorem announced_population (commander : Commander V) (population : Population) :
    Announced commander { commander with population := population } := .of_eq rfl rfl rfl

/-- One step after another. -/
theorem Announced.trans {c c' c'' : Commander V} (h : Announced c c') (h' : Announced c' c'') :
    Announced c c'' where
  groups := h'.groups.trans h.groups
  kept w hw := h'.kept w (h.kept w hw)
  moved := by
    -- The groups do not change, so a push for all in either step is a push for all.
    have hliving : c'.livingWorkers = c.livingWorkers := by
      rw [Commander.livingWorkers, h.groups, Commander.livingWorkers]
    rcases h'.moved with hset' | htold'
    · rcases h.moved with hset | htold
      · exact Or.inl (hset'.trans hset)
      · exact Or.inr fun w hw => h'.kept w (htold w hw)
    · exact Or.inr fun w hw => htold' w (hliving ▸ hw)

/-- A mutation of the index. -/
theorem announced_mutate (commander : Commander V) (mutation : IndexMutation) :
    Announced commander (commander.mutate mutation) where
  groups := by rw [Commander.mutate_eq]
  kept w hw := by
    rw [Commander.push_tasks_mutate]
    exact List.mem_append_left _ hw
  moved := by
    by_cases hset : (commander.mutate mutation).delivery_desk.subscribedTables =
        commander.delivery_desk.subscribedTables
    · exact Or.inl hset
    · refine Or.inr fun w hw => ?_
      rw [Commander.push_tasks_mutate, if_pos hset]
      exact List.mem_append_right _ hw

/-- The loop of `drop_connection`. -/
theorem announced_forgetPages :
    ∀ (page_ids : List PageId) (commander : Commander V),
      Announced commander (commander.forgetPages page_ids)
  | [], _ => .of_eq rfl rfl rfl
  | page_id :: page_ids, commander =>
    (announced_mutate commander (.dropPage page_id)).trans (announced_forgetPages page_ids _)

/-- The fold of a drop. -/
theorem Departure.announced_fold (core : CoreCommander) (commander : Commander V) :
    ∀ departure : Departure, Announced commander (departure.fold core commander)
  | .page _ => (announced_population commander _).trans (announced_mutate _ _)
  | .connection _ => (announced_population commander _).trans (announced_forgetPages _ _)

/-! ## What every run keeps -/

/-- No push is lost on a living worker. -/
def NoPushLost (s : State V B) : Act V B → Prop
  | .losePush k => ∀ w ∈ s.commander.push_tasks[k]?, w ∉ s.commander.livingWorkers
  | _ => True

/-- The filter of each worker is what its wire has delivered last. -/
def Filtered (s : State V B) : Prop :=
  ∀ w, (s.workers w).subscribed_tables = (s.wires w).copy.toFinset

/-- What a run without lost pushes keeps: a presented living worker has a push pending, or what was
put on its wire last is the desk's set. -/
def Synced (s : State V B) : Prop :=
  ∀ w ∈ s.presented, w ∈ s.commander.livingWorkers →
    (s.wires w).Told (w ∈ s.commander.push_tasks) s.commander.delivery_desk.subscribedTables

section

variable {s s' : State V B}

/-- The push that leaves the tasks leaves those of the other workers. -/
theorem mem_push_tasks_of_ne {tasks : List WorkerName} {k : ℕ} {v w : WorkerName}
    (hk : tasks[k]? = some w) (hv : v ∈ tasks) (hvw : v ≠ w) : v ∈ tasks.eraseIdx k := by
  obtain ⟨hsplit, herase⟩ := Delivery.eraseIdx_split hk
  rw [hsplit] at hv
  rw [herase]
  rcases List.mem_append.1 hv with hbefore | hafter
  · exact List.mem_append_left _ hbefore
  · exact List.mem_append_right _ (List.mem_of_ne_of_mem hvw hafter)

/-- An action that leaves the wires and the presentations as they are. -/
theorem Synced.of_announced (h : Synced s) (hvertex : Announced s.commander s'.commander)
    (hwires : s'.wires = s.wires) (hpresented : s'.presented = s.presented) : Synced s' := by
  intro w hw hliving
  rw [Commander.livingWorkers, hvertex.groups] at hliving
  rw [hwires]
  rcases hvertex.moved with hset | htold
  · rcases h w (hpresented ▸ hw) hliving with hpending | hnewest
    · exact Or.inl (hvertex.kept w hpending)
    · exact Or.inr (hnewest.trans hset.symm)
  · exact Or.inl (htold w hliving)

/-- Every action keeps the filters with their wires. -/
theorem Filtered.step {register : CoreRegister V} {core : CoreCommander} (h : Filtered s)
    {a : Act V B} (hs : step register core s a = some s') : Filtered s' := by
  by_cases ha : a.MovesWorker
  · intro v
    cases a with
    | subscribe w t p subscribe =>
      cases hs
      unfold State.subscribe Worker.subscribeTable
      cases (s.workers w).registry.page_register.get p with
      | none => exact h v
      | some page =>
        simp only [Function.update_apply]
        split_ifs with hv
        · rw [hv, h w]
        · exact h v
    | dropPage w p cascade =>
      cases hs
      simp only [State.withRegistry, Function.update_apply]
      split_ifs with hv
      · rw [hv, h w]
      · exact h v
    | dropConnection w cid =>
      cases hs
      simp only [State.withRegistry, Function.update_apply]
      split_ifs with hv
      · rw [hv, h w]
      · exact h v
    | launch group w process =>
      -- A newborn filter is empty, and so is a newborn wire.
      obtain ⟨_, hs⟩ := Option.ite_none_left_eq_some.1 hs
      cases hs
      simp only [Function.update_apply]
      split_ifs with hv
      · rfl
      · exact h v
    | runPush k =>
      obtain ⟨ran, _, rfl⟩ := Option.map_eq_some_iff.1 hs
      simp only [Function.update_apply]
      split_ifs with hv
      · rw [hv, Feed.copy_put, h]
      · exact h v
    | deliver w =>
      obtain ⟨served, hserved, rfl⟩ := Option.map_eq_some_iff.1 hs
      simp only [Function.update_apply]
      split_ifs with hv
      · rw [(Feed.serve_eq_some hserved).1]
        rfl
      · exact h v
    | _ => exact ha.elim
  · obtain ⟨hworkers, hwires⟩ := workers_step ha hs
    intro v
    rw [hworkers, hwires, h v]

/-- A newborn worker is yet to be presented. -/
theorem Synced.launch (h : Synced s) {group : String} {w : WorkerName} {process : Worker V B}
    (hs : s.launch group w process = some s') : Synced s' := by
  obtain ⟨_, hs⟩ := Option.ite_none_left_eq_some.1 hs
  cases hs
  intro v hv hliving
  obtain ⟨hne, hmem⟩ := Finset.mem_erase.1 hv
  -- Every other worker that lives now lived before.
  have hgroups : ∀ groups : List (String × List WorkerName),
      v ∈ (State.joinGroup group w groups).flatMap Prod.snd → v ∈ groups.flatMap Prod.snd := by
    intro groups
    induction groups with
    | nil => simp [State.joinGroup, hne]
    | cons named groups ih =>
      simp only [State.joinGroup]
      split_ifs
      · simp [hne]
      · simp only [List.flatMap_cons, List.mem_append]
        exact Or.imp_right ih
  simp only [Function.update_apply, if_neg hne]
  exact h v hmem (hgroups s.commander.group_map hliving)

/-- A presentation leaves a push pending. -/
theorem Synced.present (h : Synced s) {w : WorkerName} (hs : s.present w = some s') :
    Synced s' := by
  obtain ⟨_, hs⟩ := Option.ite_none_right_eq_some.1 hs
  cases hs
  intro v hv hliving
  rcases Finset.mem_insert.1 hv with rfl | hold
  · exact Or.inl (List.mem_append_right _ (List.mem_singleton.2 rfl))
  · exact (h v hold hliving).imp_left (List.mem_append_left _)

/-- A dead worker is not a living one any more. -/
theorem Synced.die (h : Synced s) (w : WorkerName) : Synced (s.die w) := by
  intro v hv hliving
  refine h v hv ?_
  simp only [State.die, Commander.livingWorkers, List.mem_flatMap, List.mem_map] at hliving ⊢
  obtain ⟨_, ⟨group, hgroup, rfl⟩, hmem⟩ := hliving
  exact ⟨group, hgroup, (List.mem_filter.1 hmem).1⟩

/-- A push that runs puts the desk's set on the wire. -/
theorem Synced.runPush (h : Synced s) {k : ℕ} (hs : s.runPush k = some s') : Synced s' := by
  obtain ⟨ran, hran, rfl⟩ := Option.map_eq_some_iff.1 hs
  obtain ⟨w, hk, rfl⟩ := Option.map_eq_some_iff.1 hran
  intro v hv hliving
  simp only [Function.update_apply]
  split_ifs with hvw
  · exact Or.inr (Feed.newest_put _ _)
  · -- The push that ran was another worker's.
    exact (h v hv hliving).imp_left fun hpending => mem_push_tasks_of_ne hk hpending hvw

/-- A push that is lost was for a worker that does not live. -/
theorem Synced.losePush (h : Synced s) {k : ℕ} (hlost : NoPushLost s (.losePush k))
    (hs : s.losePush k = some s') : Synced s' := by
  obtain ⟨ran, hran, rfl⟩ := Option.map_eq_some_iff.1 hs
  obtain ⟨w, hk, rfl⟩ := Option.map_eq_some_iff.1 hran
  intro v hv hliving
  have hvw : v ≠ w := by
    rintro rfl
    exact hlost v hk hliving
  exact (h v hv hliving).imp_left fun hpending => mem_push_tasks_of_ne hk hpending hvw

/-- A push that is served was put before. -/
theorem Synced.deliver (h : Synced s) {w : WorkerName} (hs : s.deliver w = some s') :
    Synced s' := by
  obtain ⟨served, hserved, rfl⟩ := Option.map_eq_some_iff.1 hs
  intro v hv hliving
  have htold := h v hv hliving
  simp only [Function.update_apply]
  split_ifs with hvw
  · rw [← hvw] at hserved
    exact htold.imp_right (Feed.newest_serve hserved).trans
  · exact htold

/-- One action that loses no push of a living worker keeps the workers synced. -/
theorem Synced.step {register : CoreRegister V} {core : CoreCommander} (h : Synced s)
    {a : Act V B} (hlost : NoPushLost s a) (hs : step register core s a = some s') :
    Synced s' := by
  cases a with
  | subscribe w t p subscribe =>
    cases hs
    unfold State.subscribe
    split
    · exact h
    · exact h.of_announced (.of_eq rfl rfl rfl) rfl rfl
  | serve k =>
    obtain ⟨placed, _, rfl⟩ := Option.map_eq_some_iff.1 hs
    exact h.of_announced (announced_mutate _ _) rfl rfl
  | refuse k =>
    obtain ⟨placed, _, rfl⟩ := Option.map_eq_some_iff.1 hs
    exact h.of_announced (.of_eq rfl rfl rfl) rfl rfl
  | answer k =>
    obtain ⟨placed, _, rfl⟩ := Option.map_eq_some_iff.1 hs
    exact h.of_announced (.of_eq rfl rfl rfl) rfl rfl
  | announce p cid tables =>
    cases hs
    refine h.of_announced ?_ rfl rfl
    exact (announced_population s.commander _).trans (announced_mutate _ _)
  | fold k =>
    obtain ⟨departure, _, rfl⟩ := Option.map_eq_some_iff.1 hs
    exact h.of_announced (departure.announced_fold core s.commander) rfl rfl
  | onDatachange message now =>
    cases hs
    refine h.of_announced (.of_eq rfl rfl ?_) rfl rfl
    exact (s.commander.delivery_desk.onDatachange_dbevents _ message now).1
  | exchange p user dbevents =>
    cases hs
    refine h.of_announced (.of_eq rfl rfl ?_) rfl rfl
    exact s.commander.delivery_desk.page_subscriptions_exchange p user dbevents
  | deposit dbevents =>
    cases hs
    refine h.of_announced (.of_eq rfl rfl ?_) rfl rfl
    exact s.commander.delivery_desk.page_subscriptions_fileDbevents dbevents
  | launch group w process => exact h.launch hs
  | present w => exact h.present hs
  | die w =>
    cases hs
    exact h.die w
  | runPush k => exact h.runPush hs
  | losePush k => exact h.losePush hlost hs
  | deliver w => exact h.deliver hs
  | dropPage | dropConnection | dropUser =>
    cases hs
    exact h.of_announced (.of_eq rfl rfl rfl) rfl rfl

end

/-- In every state of a run the filters are what the wires have delivered. -/
theorem filtered_run {register : CoreRegister V} {core : CoreCommander}
    {commander : Commander V} {processes : WorkerName → Worker V B} {acts : List (Act V B)}
    {s : State V B} (hrun : run (step register core) (start commander processes) acts = some s) :
    Filtered s :=
  run_invariant' (fun _ _ _ h hs => h.step hs)
    (show Filtered (start commander processes) from fun _ => rfl) hrun

/-- In every state of a run that loses no push of a living worker the workers are synced. -/
theorem synced_run {register : CoreRegister V} {core : CoreCommander}
    {commander : Commander V} {processes : WorkerName → Worker V B} {acts : List (Act V B)}
    (hlost : Meets (step register core) NoPushLost (start commander processes) acts)
    {s : State V B} (hrun : run (step register core) (start commander processes) acts = some s) :
    Synced s := by
  have hstep : ∀ (s : State V B) a s', Synced s → NoPushLost s a →
      step register core s a = some s' → Synced s' := fun _ _ _ h ha hs => h.step ha hs
  have hstart : Synced (start commander processes) :=
    fun w hw => absurd hw (Finset.notMem_empty w)
  exact run_invariant hstep hstart hlost hrun

/-- The workers' source filters converge to the desk's set. In every state of a run that loses no
push of a living worker, a presented living worker with no push pending and nothing in flight on its
wire filters with the desk's table set; and a mutation of the index creates a push for every living
worker if it changes that set, and none if it does not. -/
theorem filters_converge (register : CoreRegister V) (core : CoreCommander)
    (commander : Commander V) (processes : WorkerName → Worker V B) (acts : List (Act V B))
    (hlost : Meets (step register core) NoPushLost (start commander processes) acts)
    (s : State V B) (hrun : run (step register core) (start commander processes) acts = some s) :
    (∀ w ∈ s.presented, w ∈ s.commander.livingWorkers → w ∉ s.commander.push_tasks →
        (s.wires w).inFlight = [] →
          (s.workers w).subscribed_tables =
            s.commander.delivery_desk.subscribedTables.toFinset) ∧
      ∀ mutation : IndexMutation, (s.commander.mutate mutation).push_tasks =
        s.commander.push_tasks ++
          if (s.commander.mutate mutation).delivery_desk.subscribedTables ≠
              s.commander.delivery_desk.subscribedTables then s.commander.livingWorkers
          else [] := by
  constructor
  · intro w hw hliving hpending hwire
    have htold := synced_run hlost hrun w hw hliving
    rw [filtered_run hrun w, htold.settled hpending hwire]
  · exact s.commander.push_tasks_mutate

/-- A worker is presented, a page of its subscribes a table, and both pushes run and are served. -/
def pushed : List (Act Delivery.Sample.Value Delivery.Sample.FlatBag) :=
  [.present "w", .subscribe "w" "t" "p" true, .runPush 0, .serve 0, .answer 0, .runPush 0,
    .deliver "w", .deliver "w"]

/-- The worker then filters with the one table. -/
theorem filters_converge_pushed :
    ∃ s, run (step Delivery.Sample.core Sample.core) Sample.start pushed = some s ∧
      (s.workers "w").subscribed_tables = {"t"} := by
  have hfacts : (run (step Delivery.Sample.core Sample.core) Sample.start pushed).map
      (fun s => (s.presented, s.commander.livingWorkers, s.commander.push_tasks,
        (s.wires "w").inFlight, s.commander.delivery_desk.page_subscriptions.tables)) =
      some ({"w"}, ["w"], [], [], {"t"}) := rfl
  obtain ⟨s, hs, hs'⟩ := Option.map_eq_some_iff.1 hfacts
  simp only [Prod.mk.injEq] at hs'
  obtain ⟨hpresented, hliving, hpending, hwire, hset⟩ := hs'
  have hlost : Meets (step Delivery.Sample.core Sample.core) NoPushLost Sample.start pushed := by
    refine .imp (fun s a (ha : ∀ k, a ≠ .losePush k) => ?_) (Meets.of_forall ?_)
    · unfold NoPushLost
      split
      · exact absurd rfl (ha _)
      · trivial
    · simp [pushed]
  refine ⟨s, hs, ?_⟩
  rw [(filters_converge Delivery.Sample.core Sample.core _ _ pushed hlost s hs).1 "w"
    (by rw [hpresented]; decide) (by rw [hliving]; decide) (by rw [hpending]; decide) hwire,
    DeliveryDesk.toFinset_subscribedTables, hset]

end GenropyAsgi.Subscriptions
