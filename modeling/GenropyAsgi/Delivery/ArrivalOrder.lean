import GenropyAsgi.Delivery.Conservation

/-!
# The order of arrival across deliveries

One delivery merges the row's queue with the desk's in the order of arrival. Two deliveries one
after the other are in that order too as long as no final critical section takes a change off the
row that arrived later than one that waits at the desk: the exchange has cut the desk's queue
earlier than the section cuts the row's, and what reached the desk in between is for the next
collect.
-/

namespace GenropyAsgi.Delivery

open Library

variable {V B : Type}

/-- One change arrived no later than another one. -/
def Earlier (x y : Change V) : Prop := x.arrivalOrder ≤ y.arrivalOrder

/-- The collects of a page that are under way. -/
def State.underWay (s : State V B) (p : PageId) : ℕ :=
  s.looked.countP (fun collect => decide (collect.page_id = p)) +
    s.replies.countP fun flight => decide (flight.collect.page_id = p)

/-- The actions of the writers without `replace`, of the captures and of collects of the page that
do not overlap one another, under a wall clock that does not go back. -/
def OneAfterAnother (p : PageId) (s : State V B) (a : Act V) : Prop :=
  WritesAndCollects p a ∧
    match a with
    | .write _ _ now => s.clock ≤ now
    | .serve _ now => s.clock ≤ now
    | .capture _ _ _ arrived => s.clock ≤ arrived
    | .lookup q _ => q = p → s.underWay p = 0
    | _ => True

/-- What the collects of a page have returned is in the order of arrival, and nothing that is still
pending arrived before any of it. -/
def InOrder (p : PageId) (s : State V B) : Prop :=
  (s.returned p).Pairwise Earlier ∧
    ∀ x ∈ s.returned p, ∀ y ∈ s.worker.rowQueue p ++ s.inFlight p ++ s.deskQueue p, Earlier x y

/-- The condition on a final critical section of the page: no change on its row arrived later than
one that waits at the desk. -/
def NoneOvertakes (p : PageId) (s : State V B) : Act V → Prop
  | .finish k _ => ∀ flight, s.replies[k]? = some flight → flight.collect.page_id = p →
    ∀ x ∈ s.worker.rowQueue p, ∀ y ∈ s.deskQueue p, Earlier x y
  | _ => True

/-- What holds of the queues of the page along such a run. -/
structure Timed (p : PageId) (u : User) (s : State V B) : Prop extends Conserved p u s where
  /-- The row's queue is in the order of arrival. -/
  row_sorted : (s.worker.rowQueue p).Pairwise Earlier
  /-- So is the desk's. -/
  desk_sorted : (s.deskQueue p).Pairwise Earlier
  /-- So is what is in flight. -/
  flight_sorted : (s.inFlight p).Pairwise Earlier
  /-- What is in flight left the desk before what is there arrived. -/
  flight_desk : ∀ x ∈ s.inFlight p, ∀ y ∈ s.deskQueue p, Earlier x y
  /-- No change arrived after the present instant. -/
  past : ∀ x ∈ s.worker.rowQueue p ++ s.inFlight p ++ s.deskQueue p ++ s.returned p,
    x.arrivalOrder ≤ s.clock
  /-- The collects do not overlap. -/
  alone : s.underWay p ≤ 1

/-- The entries that an action adds to a queue arrived at its own instant. -/
theorem arrivalOrder_addressed {message : Message V} {now : Instant} {p : PageId} {c : Bool}
    {x : Change V} (hx : x ∈ about p (if c then message.addressed now else [])) :
    c = true ∧ x.arrivalOrder = now := by
  rw [about_ite] at hx
  split_ifs at hx with hc
  · refine ⟨hc, ?_⟩
    unfold Message.addressed at hx
    split at hx
    · -- A `set_datachange` for a page: its one change is stamped with the instant.
      rw [about_singleton] at hx
      split_ifs at hx
      · rw [List.mem_singleton] at hx
        rw [hx]
        rfl
      · cases hx
    · cases hx
  · cases hx

/-- A queue in order grows in order by entries that arrive now. -/
theorem pairwise_grow {queue new : List (Change V)} {now : Instant}
    (hqueue : queue.Pairwise Earlier) (hold : ∀ x ∈ queue, x.arrivalOrder ≤ now)
    (hnew : ∀ x ∈ new, x.arrivalOrder = now) : (queue ++ new).Pairwise Earlier := by
  rw [List.pairwise_append]
  refine ⟨hqueue, ?_, ?_⟩
  · -- The new entries tie.
    rw [List.pairwise_iff_forall_sublist]
    intro a b hab
    have ha : a ∈ new := hab.subset (by simp)
    have hb : b ∈ new := hab.subset (by simp)
    rw [Earlier, hnew a ha, hnew b hb]
  · -- An old entry against a new one.
    intro x hx y hy
    rw [Earlier, hnew y hy]
    exact hold x hx

/-- The queues that an append leaves: the row's and the desk's grow by entries that arrive now, and
nothing else moves. -/
structure Grown (p : PageId) (s s' : State V B) (row desk : List (Change V)) : Prop where
  /-- The row's queue. -/
  row_eq : s'.worker.rowQueue p = s.worker.rowQueue p ++ row
  /-- The desk's queue. -/
  desk_eq : s'.deskQueue p = s.deskQueue p ++ desk
  /-- The clock does not go back. -/
  clock_le : s.clock ≤ s'.clock
  /-- What joins the row arrives now. -/
  row_now : ∀ x ∈ row, x.arrivalOrder = s'.clock
  /-- What joins the desk arrives now. -/
  desk_now : ∀ x ∈ desk, x.arrivalOrder = s'.clock
  /-- No collect moves. -/
  looked_eq : s'.looked = s.looked
  /-- No reply moves. -/
  replies_eq : s'.replies = s.replies
  /-- No collect ends. -/
  endings_eq : s'.endings = s.endings

section

variable {p : PageId} {u : User} {s s' : State V B} {row desk : List (Change V)}

/-- An append keeps the queues in order. -/
theorem Timed.grow (h : Timed p u s) (hc : Conserved p u s') (g : Grown p s s' row desk) :
    Timed p u s' := by
  have hflight : s'.inFlight p = s.inFlight p := by rw [State.inFlight, g.replies_eq]; rfl
  have hreturned : s'.returned p = s.returned p := by rw [State.returned, g.endings_eq]; rfl
  -- What was there arrived before the new instant.
  have hpast : ∀ x ∈ s.worker.rowQueue p ++ s.inFlight p ++ s.deskQueue p ++ s.returned p,
      x.arrivalOrder ≤ s'.clock := fun x hx => le_trans (h.past x hx) g.clock_le
  exact {
    toConserved := hc
    row_sorted := by
      rw [g.row_eq]
      exact pairwise_grow h.row_sorted (fun x hx => hpast x (by simp [hx])) g.row_now
    desk_sorted := by
      rw [g.desk_eq]
      exact pairwise_grow h.desk_sorted (fun x hx => hpast x (by simp [hx])) g.desk_now
    flight_sorted := by
      rw [hflight]
      exact h.flight_sorted
    flight_desk := by
      rw [hflight, g.desk_eq]
      intro x hx y hy
      rcases List.mem_append.1 hy with hold | hnew
      · exact h.flight_desk x hx y hold
      · rw [Earlier, g.desk_now y hnew]
        exact hpast x (by simp [hx])
    past := by
      rw [hflight, hreturned, g.row_eq, g.desk_eq]
      intro x hx
      simp only [List.mem_append] at hx
      rcases hx with (((hx | hx) | hx) | hx | hx) | hx
      · exact hpast x (by simp [hx])
      · exact le_of_eq (g.row_now x hx)
      · exact hpast x (by simp [hx])
      · exact hpast x (by simp [hx])
      · exact le_of_eq (g.desk_now x hx)
      · exact hpast x (by simp [hx])
    alone := by
      rw [State.underWay, g.looked_eq, g.replies_eq]
      exact h.alone }

/-- An append leaves what has been returned in order. -/
theorem InOrder.grow (ho : InOrder p s) (h : Timed p u s) (g : Grown p s s' row desk) :
    InOrder p s' := by
  have hflight : s'.inFlight p = s.inFlight p := by rw [State.inFlight, g.replies_eq]; rfl
  have hreturned : s'.returned p = s.returned p := by rw [State.returned, g.endings_eq]; rfl
  have hpast : ∀ x ∈ s.returned p, x.arrivalOrder ≤ s'.clock := fun x hx =>
    le_trans (h.past x (by simp [hx])) g.clock_le
  rw [InOrder, hflight, hreturned, g.row_eq, g.desk_eq]
  refine ⟨ho.1, ?_⟩
  -- What is pending was pending before, or joins the row or the desk now.
  intro x hx y hy
  simp only [List.mem_append] at hy
  rcases hy with ((hy | hy) | hy) | hy | hy
  · exact ho.2 x hx y (by simp [hy])
  · rw [Earlier, g.row_now y hy]
    exact hpast x hx
  · exact ho.2 x hx y (by simp [hy])
  · exact ho.2 x hx y (by simp [hy])
  · rw [Earlier, g.desk_now y hy]
    exact hpast x hx

/-- A verb called on the worker is an append. -/
theorem grown_write {identity : User} {message : Message V} {now : Instant}
    (hplain : message.PlainFor p) (hnow : s.clock ≤ now) :
    ∃ row, Grown p s (s.write identity message now) row [] := by
  refine ⟨_, {
    row_eq := s.worker.rowQueue_routeDatachange identity message now p hplain
    desk_eq := (List.append_nil _).symm
    clock_le := ?_
    row_now := ?_
    desk_now := fun x hx => absurd hx List.not_mem_nil
    looked_eq := rfl
    replies_eq := rfl
    endings_eq := rfl }⟩
  · simp only [State.write]
    split_ifs
    · exact hnow
    · exact le_refl _
  · intro x hx
    obtain ⟨hlocal, harrival⟩ := arrivalOrder_addressed hx
    simp only [State.write, hlocal, if_true]
    exact harrival

/-- The desk serving an addressed write is an append. -/
theorem grown_serve {k : ℕ} {now : Instant} (h : Conserved p u s) (hnow : s.clock ≤ now)
    (hs : s.serve k now = some s') : ∃ desk, Grown p s s' [] desk := by
  obtain ⟨message, hk, rfl⟩ := Option.map_eq_some_iff.1 hs
  have hplain := h.lane message (List.mem_of_getElem? hk)
  refine ⟨_, {
    row_eq := (List.append_nil _).symm
    desk_eq := s.desk.datachangesFor_onDatachange s.population message now p hplain
    clock_le := ?_
    row_now := fun x hx => absurd hx List.not_mem_nil
    desk_now := ?_
    looked_eq := rfl
    replies_eq := rfl
    endings_eq := rfl }⟩
  · dsimp only
    split_ifs
    · exact hnow
    · exact le_refl _
  · intro x hx
    obtain ⟨hfiled, harrival⟩ := arrivalOrder_addressed hx
    simp only [hfiled, if_true]
    exact harrival

/-- A capture is an append. -/
theorem grown_capture [PyValue V] {q : PageId} {event : BagEvent V} {written arrived : Instant}
    (hnow : s.clock ≤ arrived) :
    ∃ row, Grown p s (s.capture q event written arrived) row [] := by
  refine ⟨_, {
    row_eq := s.worker.rowQueue_capture q event written arrived p
    desk_eq := (List.append_nil _).symm
    clock_le := hnow
    row_now := ?_
    desk_now := fun x hx => absurd hx List.not_mem_nil
    looked_eq := rfl
    replies_eq := rfl
    endings_eq := rfl }⟩
  intro x hx
  rw [about_ite, about_singleton] at hx
  split_ifs at hx
  · rw [List.mem_singleton] at hx
    rw [hx]
    rfl
  · cases hx
  · cases hx

/-- Where no reply is a page's, nothing of it is in flight. -/
theorem inFlight_eq_nil
    (h : (s.replies.countP fun flight => decide (flight.collect.page_id = p)) = 0) :
    s.inFlight p = [] := by
  rw [State.inFlight, List.flatMap_eq_nil_iff]
  intro flight hflight
  rw [List.countP_eq_zero] at h
  exact if_neg (by simpa using h flight hflight)

/-- An exchange among collects that do not overlap: it moves the page's whole queue from the desk to
the reply, nothing else being in flight, or it is another page's. -/
theorem Timed.exchange_cases (h : Timed p u s) {k : ℕ} {clock : ℕ → Instant}
    (hs : s.exchange k clock = some s') :
    (s'.underWay p = s.underWay p ∧ s'.worker = s.worker ∧ s'.clock = s.clock ∧
        s'.returned p = s.returned p) ∧
      ((s.inFlight p = [] ∧ s'.inFlight p = s.deskQueue p ∧ s'.deskQueue p = []) ∨
        (s'.inFlight p = s.inFlight p ∧ s'.deskQueue p = s.deskQueue p)) := by
  obtain ⟨collect, hk, rfl⟩ := Option.map_eq_some_iff.1 hs
  have hcount := countP_eraseIdx (fun collect => decide (collect.page_id = p)) hk
  have halone := h.alone
  rw [State.underWay, hcount] at halone
  refine ⟨⟨?_, rfl, rfl, rfl⟩, ?_⟩
  · simp only [State.underWay, hcount, List.countP_append, List.countP_cons, List.countP_nil]
    omega
  · have hflight : ∀ slot, (s.replies ++ [(⟨{ collect with slot := slot },
        (s.desk.exchange collect.page_id collect.user (collect.slot.dbevents.zipIdx.map
          fun deposit => (deposit.1, clock deposit.2))).2⟩ : Flight V)]).flatMap
            (Flight.bears p) =
        s.inFlight p ++
          if collect.page_id = p then
            (s.desk.datachangesFor collect.page_id).map Change.unnumbered
          else [] := by
      intro slot
      rw [List.flatMap_append, List.flatMap_singleton, DeliveryDesk.exchange_reply]
      rfl
    by_cases hp : collect.page_id = p
    · -- The page's own collect is the one under way, so no reply of it is in flight.
      have hnone : s.inFlight p = [] := by
        apply inFlight_eq_nil
        simp only [hp, decide_true, if_true] at halone
        omega
      refine Or.inl ⟨hnone, ?_, ?_⟩
      · rw [State.inFlight, hflight, hnone, if_pos hp, hp]
        rfl
      · rw [State.deskQueue, DeliveryDesk.datachangesFor_exchange, if_pos hp.symm]
        rfl
    · -- Another page's reply bears nothing of this one.
      refine Or.inr ⟨?_, ?_⟩
      · rw [State.inFlight, hflight, if_neg hp, List.append_nil]
      · rw [State.deskQueue, DeliveryDesk.datachangesFor_exchange, if_neg (Ne.symm hp)]
        rfl

/-- An exchange keeps the queues in order. -/
theorem Timed.exchange (h : Timed p u s) {k : ℕ} {clock : ℕ → Instant}
    (hs : s.exchange k clock = some s') : Timed p u s' := by
  have hc := h.toConserved.exchange hs
  obtain ⟨⟨hunder, hworker, hclock, hreturned⟩, hcases⟩ := h.exchange_cases hs
  rcases hcases with ⟨hnone, hflight, hdesk⟩ | ⟨hflight, hdesk⟩
  · -- The desk's queue is in flight as it was at the desk.
    exact {
      toConserved := hc
      row_sorted := hworker ▸ h.row_sorted
      desk_sorted := hdesk ▸ List.Pairwise.nil
      flight_sorted := hflight ▸ h.desk_sorted
      flight_desk := by
        rw [hdesk]
        intro x _ y hy
        cases hy
      past := by
        rw [hworker, hclock, hflight, hdesk, hreturned]
        intro x hx
        exact h.past x (by simpa [hnone] using hx)
      alone := hunder ▸ h.alone }
  · exact {
      toConserved := hc
      row_sorted := hworker ▸ h.row_sorted
      desk_sorted := hdesk ▸ h.desk_sorted
      flight_sorted := hflight ▸ h.flight_sorted
      flight_desk := by
        rw [hflight, hdesk]
        exact h.flight_desk
      past := by
        rw [hworker, hclock, hflight, hdesk, hreturned]
        exact h.past
      alone := hunder ▸ h.alone }

/-- An exchange returns nothing yet. -/
theorem InOrder.exchange (ho : InOrder p s) (h : Timed p u s) {k : ℕ} {clock : ℕ → Instant}
    (hs : s.exchange k clock = some s') : InOrder p s' := by
  obtain ⟨⟨_, hworker, _, hreturned⟩, hcases⟩ := h.exchange_cases hs
  rw [InOrder, hreturned, hworker]
  refine ⟨ho.1, ?_⟩
  rcases hcases with ⟨hnone, hflight, hdesk⟩ | ⟨hflight, hdesk⟩
  · rw [hflight, hdesk]
    intro x hx y hy
    exact ho.2 x hx y (by simpa [hnone] using hy)
  · rw [hflight, hdesk]
    exact ho.2

/-- A final critical section among collects that do not overlap: it returns the page's row and what
is in flight, in the order of arrival, or it is another page's. -/
theorem Timed.finish_cases [PyValue V] [LegacyBag B V] (h : Timed p u s) {k : ℕ}
    {clock : ℕ → PageId → Instant} (hs : s.finish k clock = some s') :
    (s'.underWay p ≤ s.underWay p ∧ s'.clock = s.clock ∧ s'.deskQueue p = s.deskQueue p) ∧
      ((∃ flight new, s.replies[k]? = some flight ∧ flight.collect.page_id = p ∧
          s'.worker.rowQueue p = [] ∧ s'.inFlight p = [] ∧
          s'.returned p = s.returned p ++ new ∧ new.Pairwise Earlier ∧
          ∀ x, x ∈ new ↔ x ∈ s.worker.rowQueue p ∨ x ∈ s.inFlight p) ∨
        ((∀ flight, s.replies[k]? = some flight → flight.collect.page_id ≠ p) ∧
          s'.worker.rowQueue p = s.worker.rowQueue p ∧ s'.inFlight p = s.inFlight p ∧
          s'.returned p = s.returned p)) := by
  obtain ⟨flight, hk, rfl⟩ := Option.map_eq_some_iff.1 hs
  obtain ⟨hsplit, herase⟩ := eraseIdx_split hk
  have hinFlight : s.inFlight p = (s.replies.take k).flatMap (Flight.bears p) ++
      (flight.bears p ++ (s.replies.drop (k + 1)).flatMap (Flight.bears p)) := by
    rw [State.inFlight, ← List.flatMap_cons, ← List.flatMap_append, ← hsplit]
  have herased : (s.replies.eraseIdx k).flatMap (Flight.bears p) =
      (s.replies.take k).flatMap (Flight.bears p) ++
        (s.replies.drop (k + 1)).flatMap (Flight.bears p) := by
    rw [herase, List.flatMap_append]
  have hcount := countP_eraseIdx (fun flight => decide (flight.collect.page_id = p)) hk
  refine ⟨⟨?_, rfl, rfl⟩, ?_⟩
  · simp only [State.underWay]
    omega
  by_cases hp : flight.collect.page_id = p
  · subst hp
    -- The page and its user are there, so that the section answers a merge.
    obtain ⟨huser, hreply⟩ := h.flying flight (List.mem_of_getElem? hk) rfl
    obtain ⟨row, hrow⟩ := Registry.row_there h.owner
    have hthere := Registry.user_there h.owner
    rw [← huser] at hthere
    obtain ⟨hempty, delivery, hresult, harrived⟩ := s.worker.collectFinish_of_there
      flight.reply flight.collect.slot.own_dbevents clock hrow hthere hreply
    -- The collect is alone, so that its reply is all that is in flight.
    have hrest : (s.replies.eraseIdx k).flatMap (Flight.bears flight.collect.page_id) = [] := by
      have halone := h.alone
      rw [State.underWay, hcount] at halone
      simp only [decide_true, if_true] at halone
      have hzero : ((s.replies.eraseIdx k).countP
          fun f => decide (f.collect.page_id = flight.collect.page_id)) = 0 := by omega
      exact inFlight_eq_nil (s := { s with replies := s.replies.eraseIdx k }) hzero
    rw [herased, List.append_eq_nil_iff] at hrest
    have hbears : s.inFlight flight.collect.page_id =
        flight.reply.datachanges.map Change.unnumbered := by
      rw [hinFlight, hrest.1, hrest.2, List.nil_append, List.append_nil]
      exact if_pos rfl
    have hrowQueue := Worker.rowQueue_of_get hrow
    refine Or.inl ⟨flight, Worker.arrived delivery.datachanges, hk, rfl, hempty, ?_, ?_, ?_, ?_⟩
    · rw [State.inFlight, herased, hrest.1, hrest.2]
      rfl
    · rw [State.returned, List.flatMap_append, List.flatMap_singleton]
      simp only [Ending.brought, Flight.ending, Flight.finished, if_true, hresult]
      rfl
    · -- Both queues are in order, and so is their merge.
      have hrow_sorted := h.row_sorted
      have hflight_sorted := h.flight_sorted
      rw [hrowQueue, PageRow.queue, List.pairwise_map] at hrow_sorted
      rw [hbears, List.pairwise_map] at hflight_sorted
      rw [harrived, List.pairwise_map]
      exact mergeOn_sorted hrow_sorted hflight_sorted
    · intro x
      rw [harrived, hbears, hrowQueue, PageRow.queue, ((mergeOn_perm _ _ _).map _).mem_iff,
        List.map_append, List.mem_append]
  · -- Another page's section takes and returns nothing of this one.
    have hbears : flight.bears p = [] := if_neg hp
    have hbrought : (flight.ending s.worker clock).brought p = [] := if_neg hp
    refine Or.inr ⟨?_, ?_, ?_, ?_⟩
    · intro flight' hk'
      rw [hk] at hk'
      cases hk'
      exact hp
    · exact s.worker.rowQueue_collectFinish_of_ne (Ne.symm hp) _ _ _ clock
    · rw [State.inFlight, herased, hinFlight, hbears, List.nil_append]
    · rw [State.returned, List.flatMap_append, List.flatMap_singleton, hbrought, List.append_nil]
      rfl

/-- A final critical section keeps the queues in order. -/
theorem Timed.finish [PyValue V] [LegacyBag B V] (h : Timed p u s) {k : ℕ}
    {clock : ℕ → PageId → Instant} (hs : s.finish k clock = some s') : Timed p u s' := by
  have hc := h.toConserved.finish hs
  obtain ⟨⟨hunder, hclock, hdesk⟩, hcases⟩ := h.finish_cases hs
  rcases hcases with
    ⟨flight, new, _, _, hrow, hflight, hreturned, _, hmem⟩ | ⟨_, hrow, hflight, hreturned⟩
  · exact {
      toConserved := hc
      row_sorted := hrow ▸ List.Pairwise.nil
      desk_sorted := hdesk ▸ h.desk_sorted
      flight_sorted := hflight ▸ List.Pairwise.nil
      flight_desk := by
        rw [hflight]
        intro x hx
        cases hx
      past := by
        rw [hrow, hflight, hdesk, hreturned, hclock]
        intro x hx
        apply h.past x
        simp only [List.nil_append, List.mem_append, hmem] at hx ⊢
        tauto
      alone := le_trans hunder h.alone }
  · exact {
      toConserved := hc
      row_sorted := hrow ▸ h.row_sorted
      desk_sorted := hdesk ▸ h.desk_sorted
      flight_sorted := hflight ▸ h.flight_sorted
      flight_desk := by
        rw [hflight, hdesk]
        exact h.flight_desk
      past := by
        rw [hrow, hflight, hdesk, hreturned, hclock]
        exact h.past
      alone := le_trans hunder h.alone }

/-- A final critical section keeps the order across deliveries exactly when nothing overtakes what
waits at the desk. -/
theorem inOrder_finish [PyValue V] [LegacyBag B V] (ho : InOrder p s) (h : Timed p u s) {k : ℕ}
    {clock : ℕ → PageId → Instant} (hs : s.finish k clock = some s') :
    InOrder p s' ↔ NoneOvertakes p s (.finish k clock) := by
  obtain ⟨⟨_, _, hdesk⟩, hcases⟩ := h.finish_cases hs
  rcases hcases with
    ⟨flight, new, hk, hp, hrow, hflight, hreturned, hsorted, hmem⟩ |
      ⟨hother, hrow, hflight, hreturned⟩
  · rw [InOrder, hrow, hflight, hdesk, hreturned]
    constructor
    · -- The row has been returned and the desk is still pending.
      rintro ⟨_, hpending⟩ _ _ _ x hx y hy
      exact hpending x (List.mem_append_right _ ((hmem x).2 (Or.inl hx))) y (by simpa using hy)
    · intro hnone
      refine ⟨?_, ?_⟩
      · rw [List.pairwise_append]
        refine ⟨ho.1, hsorted, ?_⟩
        intro x hx y hy
        rcases (hmem y).1 hy with hy | hy
        · exact ho.2 x hx y (by simp [hy])
        · exact ho.2 x hx y (by simp [hy])
      · intro x hx y hy
        have hy' : y ∈ s.deskQueue p := by simpa using hy
        rcases List.mem_append.1 hx with hx | hx
        · exact ho.2 x hx y (by simp [hy'])
        · -- Of what is returned now, only the row can overtake: the reply left the desk first.
          rcases (hmem x).1 hx with hx | hx
          · exact hnone flight hk hp x hx y hy'
          · exact h.flight_desk x hx y hy'
  · rw [InOrder, hrow, hflight, hdesk, hreturned]
    exact ⟨fun _ flight hk hp => absurd hp (hother flight hk), fun _ => ho⟩

/-- One action of such a run keeps the queues in order. -/
theorem Timed.step [PyValue V] [LegacyBag B V] {core : CoreRegister V} (h : Timed p u s)
    {a : Act V} (ha : OneAfterAnother p s a) (hs : step core s a = some s') : Timed p u s' := by
  have hc := h.toConserved.step ha.1 hs
  cases a with
  | write identity message now =>
    cases hs
    obtain ⟨row, hg⟩ := grown_write ha.1 ha.2
    exact h.grow hc hg
  | serve k now =>
    obtain ⟨desk, hg⟩ := grown_serve h.toConserved ha.2 hs
    exact h.grow hc hg
  | capture q event written arrived =>
    cases hs
    obtain ⟨row, hg⟩ := grown_capture ha.2
    exact h.grow hc hg
  | lookup q slot =>
    cases hs
    refine { h with toConserved := hc, alone := ?_ }
    have halone := h.alone
    have hnone : q = p → s.underWay p = 0 := ha.2
    simp only [State.underWay, State.lookup, List.countP_append] at halone hnone ⊢
    split
    · simp only [List.countP_cons, List.countP_nil, decide_eq_true_eq]
      split_ifs with hq
      · have := hnone hq
        omega
      · omega
    · rw [List.countP_nil]
      omega
  | exchange k clock => exact h.exchange hs
  | refuse k =>
    obtain ⟨collect, hk, rfl⟩ := Option.map_eq_some_iff.1 hs
    refine { h with toConserved := hc, alone := ?_ }
    have halone := h.alone
    have hcount := countP_eraseIdx (fun collect => decide (collect.page_id = p)) hk
    simp only [State.underWay] at halone ⊢
    omega
  | finish k clock => exact h.finish hs
  | foreign message =>
    cases hs
    exact { h with toConserved := hc }
  | _ => exact ha.1.elim

/-- One action of such a run keeps the order across deliveries exactly when, if it ends a collect of
the page, nothing overtakes what waits at the desk. -/
theorem inOrder_step [PyValue V] [LegacyBag B V] {core : CoreRegister V} (h : Timed p u s)
    {a : Act V} (ha : OneAfterAnother p s a) (ho : InOrder p s) (hs : step core s a = some s') :
    InOrder p s' ↔ NoneOvertakes p s a := by
  cases a with
  | write identity message now =>
    cases hs
    obtain ⟨row, hg⟩ := grown_write ha.1 ha.2
    exact ⟨fun _ => trivial, fun _ => ho.grow h hg⟩
  | serve k now =>
    obtain ⟨desk, hg⟩ := grown_serve h.toConserved ha.2 hs
    exact ⟨fun _ => trivial, fun _ => ho.grow h hg⟩
  | capture q event written arrived =>
    cases hs
    obtain ⟨row, hg⟩ := grown_capture ha.2
    exact ⟨fun _ => trivial, fun _ => ho.grow h hg⟩
  | lookup q slot =>
    cases hs
    exact ⟨fun _ => trivial, fun _ => ho⟩
  | exchange k clock => exact ⟨fun _ => trivial, fun _ => ho.exchange h hs⟩
  | refuse k =>
    obtain ⟨collect, _, rfl⟩ := Option.map_eq_some_iff.1 hs
    exact ⟨fun _ => trivial, fun _ => ho⟩
  | finish k clock => exact inOrder_finish ho h hs
  | foreign message =>
    cases hs
    exact ⟨fun _ => trivial, fun _ => ho⟩
  | _ => exact ha.1.elim

end

/-- The order of arrival across deliveries. Take a page with an owner and nothing waiting for it,
and a run of writes without `replace`, of captures, and of collects of the page one after another,
under a wall clock that does not go back. In every state of the run the changes that the collects
have returned, one collect after another, are in the order of arrival, and nothing still pending
arrived before any of them, if and only if every final critical section of the page that the run
takes finds no change on the row that arrived later than one waiting at the desk. -/
theorem inOrder_iff_noneOvertakes [PyValue V] [LegacyBag B V] (core : CoreRegister V)
    (worker : Worker V B) (desk : DeliveryDesk V) (population : Population) (clock : Instant)
    (p : PageId) (u : User) (howner : worker.registry.pageUser p = some u)
    (hrow : worker.rowQueue p = []) (hdesk : desk.datachangesFor p = []) (acts : List (Act V))
    (hacts : Meets (step core) (OneAfterAnother p) (start worker desk population clock) acts) :
    Throughout (step core) (InOrder p) (start worker desk population clock) acts ↔
      Meets (step core) (NoneOvertakes p) (start worker desk population clock) acts := by
  have hstart : Timed p u (start worker desk population clock : State V B) := {
    toConserved := conserved_start worker desk population clock howner hrow hdesk
    row_sorted := by
      rw [show (start worker desk population clock : State V B).worker = worker from rfl, hrow]
      exact List.Pairwise.nil
    desk_sorted := by
      simp [start, State.deskQueue, hdesk]
    flight_sorted := List.Pairwise.nil
    flight_desk := fun x hx => absurd hx List.not_mem_nil
    past := by
      simp [start, State.deskQueue, State.inFlight, State.returned, hrow, hdesk]
    alone := Nat.zero_le 1 }
  have hempty : InOrder p (start worker desk population clock : State V B) :=
    ⟨List.Pairwise.nil, fun x hx => absurd hx List.not_mem_nil⟩
  refine throughout_iff_meets (fun s a s' h ha hs => h.step ha hs) ?_
    (fun s a s' h ha ho hs => inOrder_step h ha ho hs) hstart hempty hacts
  -- A section without a reply is not taken.
  intro s a hnone
  cases a with
  | finish k clock =>
    intro flight hk
    rw [replies_of_not_enabled hnone] at hk
    cases hk
  | _ => trivial

/-- A collect between a write on the row and one at the desk keeps the order. -/
theorem inOrder_one_collect :
    Throughout (step Sample.core) (InOrder "p") (Sample.start ["p"])
      [.write "u" (Sample.message .page "p" "b" 2) 1, .lookup "p" Sample.slot,
        .exchange 0 (fun _ => 1), .finish 0 (fun _ _ => 2),
        .foreign (Sample.message .page "p" "a" 1), .serve 0 3] := by
  refine (inOrder_iff_noneOvertakes Sample.core _ _ _ _ "p" "u" rfl rfl rfl _ ?_).2 ?_
  · refine .cons rfl ⟨fun _ _ => ⟨_, rfl⟩, by decide⟩ ?_
    refine .cons rfl ⟨trivial, fun _ => rfl⟩ ?_
    refine .cons rfl ⟨trivial, trivial⟩ ?_
    refine .cons rfl ⟨trivial, trivial⟩ ?_
    refine .cons rfl ⟨fun _ _ => ⟨_, rfl⟩, trivial⟩ ?_
    exact .cons rfl ⟨trivial, by decide⟩ trivial
  · refine .cons rfl trivial (.cons rfl trivial (.cons rfl trivial ?_))
    refine .cons rfl ?_ (.cons rfl trivial (.cons rfl trivial trivial))
    intro flight _ _ x _ y hy
    cases hy

/-- A change is filed at the desk after the exchange of a collect, and another one joins the row
after it; then the next collect comes. -/
def overtaking : List (Act Sample.Value) :=
  [.lookup "p" Sample.slot, .exchange 0 (fun _ => 1), .foreign (Sample.message .page "p" "a" 1),
    .serve 0 2, .write "u" (Sample.message .page "p" "b" 2) 3, .finish 0 (fun _ _ => 4),
    .lookup "p" Sample.slot, .exchange 0 (fun _ => 5), .finish 0 fun _ _ => 6]

/-- The first of these collects returns the later change, and the second one the earlier. -/
theorem arrival_inverted_across_collects :
    ∃ s : State Sample.Value Sample.FlatBag,
      run (step Sample.core) (Sample.start ["p"]) overtaking = some s ∧
        Meets (step Sample.core) (OneAfterAnother "p")
          (Sample.start ["p"] : State Sample.Value Sample.FlatBag) overtaking ∧
        s.returned "p" = [(Sample.change "b" 2).arriving 3, (Sample.change "a" 1).arriving 2] ∧
        ¬ (s.returned "p").Pairwise Earlier := by
  have hreturned : (run (step Sample.core) (Sample.start ["p"]) overtaking).map
      (fun s => s.returned "p") =
      some [(Sample.change "b" 2).arriving 3, (Sample.change "a" 1).arriving 2] := rfl
  obtain ⟨s, hs, hs'⟩ := Option.map_eq_some_iff.1 hreturned
  refine ⟨s, hs, ?_, hs', ?_⟩
  · -- The first collect, with a change filed and another one appended before its end.
    refine .cons rfl ⟨trivial, fun _ => rfl⟩ ?_
    refine .cons rfl ⟨trivial, trivial⟩ ?_
    refine .cons rfl ⟨fun _ _ => ⟨_, rfl⟩, trivial⟩ ?_
    refine .cons rfl ⟨trivial, by decide⟩ ?_
    refine .cons rfl ⟨fun _ _ => ⟨_, rfl⟩, by decide⟩ ?_
    refine .cons rfl ⟨trivial, trivial⟩ ?_
    -- The second one.
    refine .cons rfl ⟨trivial, fun _ => rfl⟩ ?_
    refine .cons rfl ⟨trivial, trivial⟩ ?_
    exact .cons rfl ⟨trivial, trivial⟩ trivial
  · rw [hs']
    intro hsorted
    have hinverted : (3 : ℤ) ≤ 2 := (List.pairwise_cons.1 hsorted).1 _ List.mem_cons_self
    omega

end GenropyAsgi.Delivery
