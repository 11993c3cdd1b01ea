import GenropyAsgi.Delivery.Retirement

/-!
# STATE writes in the order of their filing

The desk retires a user's STATE writes in the order in which they were filed, one exchange after
another; each collect applies what its own exchange retired, when it comes to its final critical
section. The store has then been written in the order of the filing as long as no collect that has
something to apply overtakes one that has something to apply too and was served by the desk before
it.
-/

namespace GenropyAsgi.Delivery

open Library

variable {V B : Type}

/-- The actions that leave the registers and the users of the vertex in place: every write, every
capture and every collect among them. -/
def KeepsUsers : Act V → Prop
  | .dropPage .. => False
  | .dropConnection .. => False
  | .login .. => False
  | .vertexDropUser .. => False
  | _ => True

/-- The addressed writes that an action places satisfy a condition. -/
def Places (P : Message V → Prop) : Act V → Prop
  | .write _ message _ => P message
  | .foreign message => P message
  | _ => True

/-- The last change of a path in a list. -/
def lastOn (path : String) (changes : List (Change V)) : Option (Change V) :=
  (changes.filter fun change => decide (change.key.path = path)).getLast?

/-- The condition on a final critical section of a user: if it has STATE writes to apply, then no
reply of the same user that the desk served before it is still in flight with STATE writes of its
own. -/
def InFilingOrder (u : User) (s : State V B) : Act V → Prop
  | .finish k _ => ∀ flight, s.replies[k]? = some flight → flight.collect.user = u →
    flight.reply.store_changes ≠ [] → ∀ before ∈ s.replies.take k, before.collect.user = u →
      before.reply.store_changes = []
  | _ => True

/-- What holds of a user's store and of the collects along such a run. -/
structure Homed (u : User) (store : BagId) (s : State V B) : Prop where
  /-- The user has a row, with this store. -/
  user_there : (s.worker.registry.user_register.get u).map UserRow.store = some store
  /-- The page of a collect is its user's. -/
  looked : ∀ collect ∈ s.looked,
    s.worker.registry.pageUser collect.page_id = some collect.user
  /-- So is the page of a reply. -/
  flying : ∀ flight ∈ s.replies,
    s.worker.registry.pageUser flight.collect.page_id = some flight.collect.user
  /-- What has been applied to the store, followed by what is in flight for the user in the order of
  the exchanges, is what has been retired for him. -/
  applied : s.appliedTo store ++ about u (s.replies.flatMap Flight.stores) = about u s.retired

section

variable {u : User} {store : BagId} {s s' : State V B}

/-- The STATE writes of a reply, for one user. -/
theorem about_stores (flight : Flight V) (u : User) :
    about u flight.stores =
      if flight.collect.user = u then flight.reply.store_changes else [] :=
  about_map_pair u flight.collect.user flight.reply.store_changes

/-- A list of replies without STATE writes for a user. -/
theorem about_flatMap_stores {replies : List (Flight V)}
    (h : ∀ flight ∈ replies, flight.collect.user = u → flight.reply.store_changes = []) :
    about u (replies.flatMap Flight.stores) = [] := by
  induction replies with
  | nil => rfl
  | cons flight replies ih =>
    rw [List.flatMap_cons, about_append, about_stores,
      ih fun f hf => h f (List.mem_cons_of_mem flight hf)]
    split_ifs with hu
    · rw [h flight List.mem_cons_self hu]
      rfl
    · rfl

/-- An action that serves no exchange and ends no collect keeps the collects and the store. -/
theorem Homed.of_eq (h : Homed u store s)
    (husers : s'.worker.registry.user_register = s.worker.registry.user_register)
    (howners : ∀ q, s'.worker.registry.pageUser q = s.worker.registry.pageUser q)
    (hlooked : ∀ collect ∈ s'.looked, collect ∈ s.looked ∨
      s.worker.registry.pageUser collect.page_id = some collect.user)
    (hreplies : s'.replies = s.replies) (hendings : s'.endings = s.endings)
    (hretired : s'.retired = s.retired) : Homed u store s' where
  user_there := husers ▸ h.user_there
  looked := by
    intro collect hcollect
    rw [howners]
    rcases hlooked collect hcollect with hold | hnew
    · exact h.looked collect hold
    · exact hnew
  flying := by
    intro flight hflight
    rw [howners]
    exact h.flying flight (hreplies ▸ hflight)
  applied := by
    rw [State.appliedTo, hendings, hreplies, hretired]
    exact h.applied

/-- The first critical section of a collect records the owner of its page. -/
theorem Homed.lookup (h : Homed u store s) (q : PageId) (slot : RequestSlot V) :
    Homed u store (s.lookup q slot) := by
  refine h.of_eq rfl (fun _ => rfl) ?_ rfl rfl rfl
  intro collect hcollect
  rcases List.mem_append.1 hcollect with hold | hnew
  · exact Or.inl hold
  · split at hnew
    · rename_i huser
      rw [List.mem_singleton.1 hnew]
      exact Or.inr (Worker.pageUser_of_collectLookup huser)
    · cases hnew

/-- The desk serves an exchange: what it retires is in flight, behind what already was. -/
theorem Homed.exchange (h : Homed u store s) {k : ℕ} {clock : ℕ → Instant}
    (hs : s.exchange k clock = some s') : Homed u store s' := by
  obtain ⟨collect, hk, rfl⟩ := Option.map_eq_some_iff.1 hs
  exact {
    user_there := h.user_there
    looked := fun c hc => h.looked c (List.mem_of_mem_eraseIdx hc)
    flying := by
      intro flight hflight
      rcases List.mem_append.1 hflight with hold | hnew
      · exact h.flying flight hold
      · rw [List.mem_singleton] at hnew
        subst hnew
        exact h.looked collect (List.mem_of_getElem? hk)
    applied := by
      rw [List.flatMap_append, List.flatMap_singleton, about_append, about_append,
        ← List.append_assoc, ← h.applied]
      rfl }

/-- The final critical section of a collect, where the page and its owner are there: it applies what
its reply holds for the user, and nothing to the store of another one. -/
theorem applied_ending [PyValue V] [LegacyBag B V] (h : Homed u store s) {flight : Flight V}
    (hflight : flight ∈ s.replies) (clock : ℕ → PageId → Instant) :
    (flight.ending s.worker clock).applied store = about u flight.stores := by
  have howner := h.flying flight hflight
  obtain ⟨row, hrow⟩ := Registry.row_there howner
  obtain ⟨user_item, huser⟩ := Option.isSome_iff_exists.1 (Registry.user_there howner)
  obtain ⟨own_item, hown, hstore⟩ := Option.map_eq_some_iff.1 h.user_there
  rcases s.worker.collectFinish_cases flight.collect.page_id flight.collect.user flight.reply
      flight.collect.slot.own_dbevents clock with
    ⟨hnone, _⟩ | ⟨_, hnone, _⟩ | ⟨row', user_item', _, huser', page, _, _, heq⟩
  · rw [hrow] at hnone
    cases hnone
  · rw [huser] at hnone
    cases hnone
  · rw [about_stores]
    simp only [Ending.applied, Flight.ending, Flight.finished, heq, huser, Option.map_some,
      Option.some.injEq]
    by_cases hu : flight.collect.user = u
    · -- The user of the reply is this one: its row is his row.
      rw [if_pos hu]
      rw [hu, hown] at huser
      cases huser
      rw [if_pos hstore]
    · -- The user of the reply is another one, and no two users share a store.
      rw [if_neg hu, if_neg]
      intro hsame
      exact hu (s.worker.registry.own_store _ _ _ _ huser hown (hsame.trans hstore.symm))

/-- The final critical section of a collect applies in the order of the filing, if nothing that was
retired for the user earlier is still in flight. -/
theorem Homed.finish [PyValue V] [LegacyBag B V] (h : Homed u store s) {k : ℕ}
    {clock : ℕ → PageId → Instant} (hcond : InFilingOrder u s (.finish k clock))
    (hs : s.finish k clock = some s') : Homed u store s' := by
  obtain ⟨flight, hk, rfl⟩ := Option.map_eq_some_iff.1 hs
  obtain ⟨hsplit, herase⟩ := eraseIdx_split hk
  have hmem := List.mem_of_getElem? hk
  -- No collect moves the owners of the pages.
  have howners := fun q => s.worker.pageUser_collectFinish flight.collect.page_id
    flight.collect.user flight.reply flight.collect.slot.own_dbevents clock q
  have happlied := h.applied
  rw [hsplit, List.flatMap_append, List.flatMap_cons, about_append, about_append] at happlied
  exact {
    user_there := by
      rw [show (flight.finished s.worker clock).1.registry.user_register = _ from
        s.worker.user_register_collectFinish _ _ _ _ clock]
      exact h.user_there
    looked := by
      intro collect hcollect
      exact (howners _).trans (h.looked collect hcollect)
    flying := by
      intro f hf
      exact (howners _).trans (h.flying f (List.mem_of_mem_eraseIdx hf))
    applied := by
      rw [State.appliedTo, List.flatMap_append, List.flatMap_singleton,
        applied_ending h hmem clock, herase, List.flatMap_append, about_append, ← happlied]
      by_cases hown : about u flight.stores = []
      · rw [hown]
        simp [State.appliedTo]
      · -- There is something to apply, so nothing of the user is in flight before it.
        have hu : flight.collect.user = u := by
          by_contra hne
          exact hown (by rw [about_stores, if_neg hne])
        have hsome : flight.reply.store_changes ≠ [] := by
          rwa [about_stores, if_pos hu] at hown
        have hbefore : about u ((s.replies.take k).flatMap Flight.stores) = [] :=
          about_flatMap_stores (hcond flight hk hu hsome)
        rw [hbefore]
        simp [State.appliedTo] }

/-- One action that keeps the users and the order of the filing. -/
theorem Homed.step [PyValue V] [LegacyBag B V] {core : CoreRegister V} (h : Homed u store s)
    {a : Act V} (ha : KeepsUsers a) (hcond : InFilingOrder u s a)
    (hs : step core s a = some s') : Homed u store s' := by
  cases a with
  | write identity message now =>
    cases hs
    exact h.of_eq (s.worker.stores_routeDatachange identity message now).2
      (s.worker.pageUser_routeDatachange identity message now) (fun _ => Or.inl) rfl rfl rfl
  | serve k now =>
    obtain ⟨message, _, rfl⟩ := Option.map_eq_some_iff.1 hs
    exact h.of_eq rfl (fun _ => rfl) (fun _ => Or.inl) rfl rfl rfl
  | capture q event written arrived =>
    cases hs
    exact h.of_eq (s.worker.stores_capture q event written arrived).2
      (s.worker.pageUser_capture q event written arrived) (fun _ => Or.inl) rfl rfl rfl
  | lookup q slot =>
    cases hs
    exact h.lookup q slot
  | exchange k clock => exact h.exchange hs
  | refuse k =>
    obtain ⟨collect, _, rfl⟩ := Option.map_eq_some_iff.1 hs
    exact h.of_eq rfl (fun _ => rfl) (fun c hc => Or.inl (List.mem_of_mem_eraseIdx hc)) rfl rfl
      rfl
  | finish k clock => exact h.finish hcond hs
  | foreign message =>
    cases hs
    exact h.of_eq rfl (fun _ => rfl) (fun _ => Or.inl) rfl rfl rfl
  | populate population =>
    cases hs
    exact h.of_eq rfl (fun _ => rfl) (fun _ => Or.inl) rfl rfl rfl
  | vertexDropPage q population =>
    cases hs
    exact h.of_eq rfl (fun _ => rfl) (fun _ => Or.inl) rfl rfl rfl
  | _ => exact ha.elim

/-! ## What is filed and what is retired

An exchange moves the whole queue of a user from the desk to what has been retired for him, and
leaves the two of them, one after the other, as they were. Only a write that the desk files moves
them, against the history of the filings. So whatever a write keeps between the two lists, every run
keeps. -/

/-- A relation between what the desk has retired or still holds for a user and the history of the
filings, that the writes which satisfy a condition keep. -/
def KeptByWrites (P : Message V → Prop) (u : User)
    (R : List (Change V) → List (Change V) → Prop) : Prop :=
  ∀ (message : Message V) (now : Instant) (done queue history : List (Change V)), P message →
    message.kind.isState = true → message.target = some u → R (done ++ queue) history →
      R (done ++ (message.op.fileOn queue now).1) (history ++ about u (message.filed now))

/-- No write is retired twice, and none out of the order of the filing. -/
theorem sublist_kept (u : User) :
    KeptByWrites (V := V) (fun _ => True) u fun kept history => kept.Sublist history := by
  intro message now done queue history _ hstate htarget h
  have hfiled := Op.sublist_fileOn queue hstate htarget now
  have hdone := hfiled.append_left done
  rw [← List.append_assoc] at hdone
  exact hdone.trans (h.append_right _)

/-- One more change. -/
theorem lastOn_snoc (path : String) (changes : List (Change V)) (change : Change V) :
    lastOn path (changes ++ [change]) =
      if change.key.path = path then some change else lastOn path changes := by
  unfold lastOn
  rw [List.filter_append]
  split_ifs with hpath
  · simp [hpath]
  · simp [hpath]

/-- A `replace` takes out changes of its own path alone. -/
theorem lastOn_replace {path : String} {key : ChangeKey} (hpath : key.path ≠ path)
    (done queue : List (Change V)) :
    lastOn path (done ++ queue.filter fun pending => decide (pending.key ≠ key)) =
      lastOn path (done ++ queue) := by
  unfold lastOn
  rw [List.filter_append, List.filter_append, List.filter_filter]
  congr 2
  apply List.filter_congr
  intro pending _
  by_cases hpending : pending.key.path = path
  · have hkey : pending.key ≠ key := by
      rintro rfl
      exact hpath hpending
    simp [hpending, hkey]
  · simp [hpending]

/-- The last change of a path is not taken out, whatever replaces the ones before it. -/
theorem lastOn_kept (u : User) (path : String) :
    KeptByWrites (V := V) (fun message => message.SetsStore u) u fun kept history =>
      lastOn path kept = lastOn path history := by
  intro message now done queue history hsets hstate htarget h
  obtain ⟨change, replace, hop⟩ := hsets hstate htarget
  cases change with
  | none =>
    have hentry : about u (message.filed now) = [] := by simp [Message.filed, hop]
    rw [hentry, hop, List.append_nil]
    exact h
  | some change =>
    have hentry : about u (message.filed now) = [{ change with arrival_ts := some now }] := by
      simp [Message.filed, hstate, htarget, hop]
    rw [hentry, hop, Op.fileOn, ← List.append_assoc, lastOn_snoc, lastOn_snoc]
    by_cases hpath : change.key.path = path
    · -- The change itself is the last one of its path.
      rw [if_pos hpath, if_pos hpath]
    · rw [if_neg hpath, if_neg hpath, ← h]
      split_ifs
      · exact lastOn_replace hpath done queue
      · rfl

/-- Without `replace` every write that is filed is kept. -/
theorem plain_kept (u : User) :
    KeptByWrites (V := V) (fun message => message.PlainForStore u) u Eq := by
  rintro message now done queue _ hplain hstate htarget rfl
  obtain ⟨change, hop⟩ := hplain hstate htarget
  rw [hop, List.append_assoc]
  cases change with
  | none => simp [Op.fileOn, Message.filed, hop]
  | some change => simp [Op.fileOn, Message.filed, hstate, htarget, hop]

/-- What holds of the filings for a user's store: those on the lane satisfy the condition, and what
has been retired, followed by what still waits, is in the relation to what waited first, followed by
what has been filed. -/
structure Filed (P : Message V → Prop) (R : List (Change V) → List (Change V) → Prop) (u : User)
    (first : List (Change V)) (s : State V B) : Prop where
  /-- The writes on the lane satisfy the condition. -/
  lane : ∀ message ∈ s.lane, P message
  /-- Retired or waiting, against what has been filed. -/
  account : R (about u s.retired ++ s.desk.storeChangesFor u) (first ++ about u s.filed)

/-- One action that keeps the users keeps the account of the filings. -/
theorem Filed.step [PyValue V] [LegacyBag B V] {core : CoreRegister V} {P : Message V → Prop}
    {R : List (Change V) → List (Change V) → Prop} {first : List (Change V)}
    (hR : KeptByWrites P u R) (h : Filed P R u first s) {a : Act V} (ha : KeepsUsers a)
    (hplaces : Places P a) (hs : Delivery.step core s a = some s') : Filed P R u first s' := by
  cases a with
  | write identity message now =>
    cases hs
    refine ⟨?_, h.account⟩
    intro m hm
    rcases List.mem_append.1 hm with hold | hnew
    · exact h.lane m hold
    · rw [Worker.mem_call hnew]
      exact hplaces
  | foreign message =>
    cases hs
    refine ⟨?_, h.account⟩
    intro m hm
    rcases List.mem_append.1 hm with hold | hnew
    · exact h.lane m hold
    · rw [List.mem_singleton] at hnew
      rw [hnew]
      exact hplaces
  | serve k now =>
    obtain ⟨message, hk, rfl⟩ := Option.map_eq_some_iff.1 hs
    refine ⟨fun m hm => h.lane m (List.mem_of_mem_eraseIdx hm), ?_⟩
    have hmessage := h.lane message (List.mem_of_getElem? hk)
    rcases s.desk.storeChangesFor_onDatachange s.population message now u with
      ⟨hqueue, hentry⟩ | ⟨hstate, htarget, hqueue, hentry⟩
    · rw [hqueue, about_append, hentry, List.append_nil]
      exact h.account
    · rw [hqueue, about_append, hentry, ← List.append_assoc]
      exact hR message now _ _ _ hmessage hstate htarget h.account
  | exchange k clock =>
    -- The queue goes over from the desk to what has been retired.
    obtain ⟨collect, hk, rfl⟩ := Option.map_eq_some_iff.1 hs
    refine ⟨h.lane, ?_⟩
    have haccount := h.account
    rw [about_append, about_map_pair, DeliveryDesk.exchange_reply,
      DeliveryDesk.storeChangesFor_exchange]
    by_cases hu : collect.user = u
    · rw [if_pos hu, if_pos hu.symm, hu, List.append_nil]
      exact haccount
    · rw [if_neg hu, if_neg (Ne.symm hu), List.append_nil]
      exact haccount
  | refuse k =>
    obtain ⟨collect, _, rfl⟩ := Option.map_eq_some_iff.1 hs
    exact ⟨h.lane, h.account⟩
  | finish k clock =>
    obtain ⟨flight, _, rfl⟩ := Option.map_eq_some_iff.1 hs
    exact ⟨h.lane, h.account⟩
  | capture q event written arrived =>
    cases hs
    exact ⟨h.lane, h.account⟩
  | lookup q slot =>
    cases hs
    exact ⟨h.lane, h.account⟩
  | populate population =>
    cases hs
    exact ⟨h.lane, h.account⟩
  | vertexDropPage q population =>
    cases hs
    exact ⟨h.lane, h.account⟩
  | _ => exact ha.elim

end

/-- Along a run that keeps the users, what has been retired for a user, followed by what still waits
for him, is in each relation to the filings that the writes of the run keep. -/
theorem filed_run [PyValue V] [LegacyBag B V] {core : CoreRegister V} {worker : Worker V B}
    {desk : DeliveryDesk V} {population : Population} {clock : Instant} {u : User}
    {P : Message V → Prop} {R : List (Change V) → List (Change V) → Prop}
    (hR : KeptByWrites P u R) (hfirst : ∀ first, R first first) {acts : List (Act V)}
    (hacts : ∀ a ∈ acts, KeepsUsers a) (hplaces : ∀ a ∈ acts, Places P a) {s : State V B}
    (hrun : run (step core) (start worker desk population clock) acts = some s) :
    R (about u s.retired ++ s.desk.storeChangesFor u)
      (desk.storeChangesFor u ++ about u s.filed) := by
  have hstart : Filed P R u (desk.storeChangesFor u)
      (start worker desk population clock : State V B) := {
    lane := fun m hm => absurd hm List.not_mem_nil
    account := by
      simp only [start, about_nil, List.nil_append, List.append_nil]
      exact hfirst _ }
  have hstep : ∀ (s : State V B) a s', Filed P R u (desk.storeChangesFor u) s →
      KeepsUsers a ∧ Places P a → step core s a = some s' →
        Filed P R u (desk.storeChangesFor u) s' :=
    fun _ _ _ h ha hs => Filed.step hR h ha.1 ha.2 hs
  have hboth : ∀ a ∈ acts, KeepsUsers a ∧ Places P a :=
    fun a ha => ⟨hacts a ha, hplaces a ha⟩
  exact (run_invariant hstep hstart (Meets.of_forall hboth) hrun).account

/-- Two pages of one user poll together, and each retires one of two writes to the same path. -/
def twoTabs (final : List (Act Sample.Value)) : List (Act Sample.Value) :=
  [.lookup "p" Sample.slot, .lookup "q" Sample.slot,
    .foreign (Sample.message .user_store "u" "a" 1), .serve 0 1, .exchange 0 (fun _ => 2),
    .foreign (Sample.message .user_store "u" "a" 2), .serve 0 3, .exchange 0 (fun _ => 4)] ++ final

end GenropyAsgi.Delivery
