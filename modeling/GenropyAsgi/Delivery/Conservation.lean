import Mathlib.Tactic.Abel
import Mathlib.Data.List.Perm.Basic
import Mathlib.Algebra.Order.Group.Multiset
import GenropyAsgi.Delivery.Machine

/-!
# No change is lost and none is returned twice

While a page stays registered and keeps its owner, the changes accepted for it are, at every moment
and as a multiset, those on its row, those at the desk, those in a reply in flight, and those that
its finished collects have returned.
-/

namespace GenropyAsgi.Delivery

open Library

variable {V B : Type}

/-- The actions of the writers without `replace`, of the captures and of the collects; writes to
other pages and to stores are free. -/
def WritesAndCollects (p : PageId) : Act V → Prop
  | .write _ message _ => message.PlainFor p
  | .foreign message => message.PlainFor p
  | .serve .. => True
  | .capture .. => True
  | .lookup .. => True
  | .exchange .. => True
  | .refuse .. => True
  | .finish .. => True
  | _ => False

/-- The places where a change of a page can be: the row's queue, the desk's, each reply in flight,
and each finished collect. -/
def State.places (s : State V B) (p : PageId) : List (List (Change V)) :=
  s.worker.rowQueue p :: s.deskQueue p ::
    (s.replies.map (Flight.bears p) ++ s.endings.map (Ending.brought p))

/-- What holds of a registered page along the writes and the collects. -/
structure Conserved (p : PageId) (u : User) (s : State V B) : Prop where
  /-- The page keeps its owner. -/
  owner : s.worker.registry.pageUser p = some u
  /-- The writes on the lane are plain. -/
  lane : ∀ message ∈ s.lane, message.PlainFor p
  /-- The collects of the page are its owner's. -/
  looked : ∀ collect ∈ s.looked, collect.page_id = p → collect.user = u
  /-- The replies for the page are its owner's, and what they bear is stamped. -/
  flying : ∀ flight ∈ s.replies, flight.collect.page_id = p → flight.collect.user = u ∧
    ∀ change ∈ flight.reply.datachanges, change.arrival_ts.isSome = true
  /-- What waits at the desk is stamped. -/
  stamped : ∀ change ∈ s.desk.datachangesFor p, change.arrival_ts.isSome = true
  /-- Nothing is lost, nothing is doubled. -/
  balance : (about p s.accepted : Multiset (Change V)) =
    (s.worker.rowQueue p : Multiset (Change V)) + s.deskQueue p + s.inFlight p + s.returned p

namespace Conserved

variable {p : PageId} {u : User} {s s' : State V B}

/-- A verb called on the worker. -/
theorem write (h : Conserved p u s) (identity : User) {message : Message V} (now : Instant)
    (hplain : message.PlainFor p) : Conserved p u (s.write identity message now) where
  owner := by
    rw [← h.owner]
    exact s.worker.pageUser_routeDatachange identity message now p
  lane := by
    intro m hm
    rcases List.mem_append.1 hm with hold | hnew
    · exact h.lane m hold
    · rw [Worker.mem_call hnew]
      exact hplain
  looked := h.looked
  flying := h.flying
  stamped := h.stamped
  balance := by
    -- What stays is on the row and accepted at once.
    have hrow := s.worker.rowQueue_routeDatachange identity message now p hplain
    have hbalance := h.balance
    simp only [State.write, about_append, hrow, ← Multiset.coe_add, hbalance]
    simp only [State.deskQueue, State.inFlight, State.returned]
    abel

/-- The desk serves an addressed write. -/
theorem serve (h : Conserved p u s) {k : ℕ} {now : Instant} (hs : s.serve k now = some s') :
    Conserved p u s' := by
  obtain ⟨message, hk, rfl⟩ := Option.map_eq_some_iff.1 hs
  have hplain := h.lane message (List.mem_of_getElem? hk)
  exact {
    owner := h.owner
    lane := fun m hm => h.lane m (List.mem_of_mem_eraseIdx hm)
    looked := h.looked
    flying := h.flying
    stamped := s.desk.stamped_onDatachange s.population message now h.stamped
    balance := by
      -- What is filed is at the desk and accepted at once.
      have hdesk := s.desk.datachangesFor_onDatachange s.population message now p hplain
      have hbalance := h.balance
      simp only [State.deskQueue, about_append, hdesk, ← Multiset.coe_add] at hbalance ⊢
      rw [hbalance]
      simp only [State.inFlight, State.returned]
      abel }

/-- The capture of a page's own store. -/
theorem capture [PyValue V] (h : Conserved p u s) (q : PageId) (event : BagEvent V)
    (written arrived : Instant) : Conserved p u (s.capture q event written arrived) where
  owner := by
    rw [← h.owner]
    exact s.worker.pageUser_capture q event written arrived p
  lane := h.lane
  looked := h.looked
  flying := h.flying
  stamped := h.stamped
  balance := by
    have hrow := s.worker.rowQueue_capture q event written arrived p
    have hbalance := h.balance
    simp only [State.capture, about_append, hrow, ← Multiset.coe_add, hbalance]
    simp only [State.deskQueue, State.inFlight, State.returned]
    abel

/-- The first critical section of a collect. -/
theorem lookup (h : Conserved p u s) (q : PageId) (slot : RequestSlot V) :
    Conserved p u (s.lookup q slot) where
  owner := h.owner
  lane := h.lane
  looked := by
    intro collect hcollect hpage
    rcases List.mem_append.1 hcollect with hold | hnew
    · exact h.looked collect hold hpage
    · split at hnew
      · -- The owner that the lookup reads.
        rename_i user huser
        rw [List.mem_singleton.1 hnew] at hpage ⊢
        have hq : q = p := hpage
        have howner := h.owner
        rw [← hq, Worker.pageUser_of_collectLookup huser] at howner
        exact Option.some.inj howner
      · cases hnew
  flying := h.flying
  stamped := h.stamped
  balance := h.balance

/-- The desk serves an exchange: the page's queue leaves the desk for the reply. -/
theorem exchange (h : Conserved p u s) {k : ℕ} {clock : ℕ → Instant}
    (hs : s.exchange k clock = some s') : Conserved p u s' := by
  obtain ⟨collect, hk, rfl⟩ := Option.map_eq_some_iff.1 hs
  have hmem := List.mem_of_getElem? hk
  exact {
    owner := h.owner
    lane := h.lane
    looked := fun c hc => h.looked c (List.mem_of_mem_eraseIdx hc)
    flying := by
      intro flight hflight hpage
      rcases List.mem_append.1 hflight with hold | hnew
      · exact h.flying flight hold hpage
      · rw [List.mem_singleton] at hnew
        subst hnew
        have hp : collect.page_id = p := hpage
        refine ⟨h.looked collect hmem hp, ?_⟩
        rw [DeliveryDesk.exchange_reply]
        intro change hchange
        exact h.stamped change (hp ▸ hchange)
    stamped := by
      intro change hchange
      rw [DeliveryDesk.datachangesFor_exchange] at hchange
      split_ifs at hchange
      · cases hchange
      · exact h.stamped change hchange
    balance := by
      have hbalance := h.balance
      simp only [State.deskQueue, State.inFlight, State.returned] at hbalance ⊢
      rw [DeliveryDesk.datachangesFor_exchange, DeliveryDesk.exchange_reply, hbalance,
        List.flatMap_append, List.flatMap_singleton]
      by_cases hp : collect.page_id = p
      · -- The queue of the page is in the reply and no longer at the desk.
        rw [if_pos hp.symm, Flight.bears, if_pos hp]
        simp only [hp, ← Multiset.coe_add, List.map_nil, Multiset.coe_nil]
        abel
      · rw [if_neg (Ne.symm hp), Flight.bears, if_neg hp, List.append_nil] }

/-- The final critical section of a collect: the row's queue and the reply become an answer. -/
theorem finish [PyValue V] [LegacyBag B V] (h : Conserved p u s) {k : ℕ}
    {clock : ℕ → PageId → Instant} (hs : s.finish k clock = some s') : Conserved p u s' := by
  obtain ⟨flight, hk, rfl⟩ := Option.map_eq_some_iff.1 hs
  have hmem := List.mem_of_getElem? hk
  obtain ⟨hsplit, herase⟩ := eraseIdx_split hk
  exact {
    owner := by
      rw [← h.owner]
      exact s.worker.pageUser_collectFinish _ _ _ _ clock p
    lane := h.lane
    looked := h.looked
    flying := fun f hf => h.flying f (List.mem_of_mem_eraseIdx hf)
    stamped := h.stamped
    balance := by
      have hbalance := h.balance
      simp only [State.deskQueue, State.inFlight, State.returned] at hbalance ⊢
      rw [hsplit, List.flatMap_append, List.flatMap_cons] at hbalance
      rw [hbalance, herase, List.flatMap_append, List.flatMap_append, List.flatMap_singleton]
      by_cases hp : flight.collect.page_id = p
      · -- A collect of this page: it finds the row and the owner, so it answers.
        subst hp
        obtain ⟨huser, hreply⟩ := h.flying flight hmem rfl
        obtain ⟨row, hrow⟩ := Registry.row_there h.owner
        have hthere := Registry.user_there h.owner
        rw [← huser] at hthere
        obtain ⟨hempty, delivery, hresult, harrived⟩ := s.worker.collectFinish_of_there
          flight.reply flight.collect.slot.own_dbevents clock hrow hthere hreply
        -- A merge has the entries of its two inputs.
        have hperm : (Worker.arrived delivery.datachanges : Multiset (Change V)) =
            (s.worker.rowQueue flight.collect.page_id : Multiset (Change V)) +
              flight.reply.datachanges.map Change.unnumbered := by
          rw [harrived, Worker.rowQueue_of_get hrow, PageRow.queue, Multiset.coe_add,
            ← List.map_append]
          exact Multiset.coe_eq_coe.2 ((mergeOn_perm _ _ _).map _)
        simp only [Flight.bears, Ending.brought, Flight.ending, Flight.finished, if_true, hresult,
          ← Multiset.coe_add, hperm, hempty, Multiset.coe_nil]
        abel
      · -- A collect of another page.
        have hother := s.worker.rowQueue_collectFinish_of_ne (Ne.symm hp) flight.collect.user
          flight.reply flight.collect.slot.own_dbevents clock
        have hbears : flight.bears p = [] := if_neg hp
        have hbrought : (flight.ending s.worker clock).brought p = [] := if_neg hp
        simp only [hbears, hbrought, Flight.finished, hother, List.nil_append,
          List.append_nil] }

/-- One action of the writers, the captures and the collects. -/
theorem step [PyValue V] [LegacyBag B V] {core : CoreRegister V} (h : Conserved p u s) {a : Act V}
    (ha : WritesAndCollects p a) (hs : step core s a = some s') : Conserved p u s' := by
  cases a with
  | write identity message now =>
    cases hs
    exact h.write identity now ha
  | foreign message =>
    cases hs
    refine { h with lane := ?_ }
    intro m hm
    rcases List.mem_append.1 hm with hold | hnew
    · exact h.lane m hold
    · rw [List.mem_singleton] at hnew
      rw [hnew]
      exact ha
  | serve k now => exact h.serve hs
  | capture q event written arrived =>
    cases hs
    exact h.capture q event written arrived
  | lookup q slot =>
    cases hs
    exact h.lookup q slot
  | exchange k clock => exact h.exchange hs
  | refuse k =>
    obtain ⟨collect, _, rfl⟩ := Option.map_eq_some_iff.1 hs
    exact { h with looked := fun c hc => h.looked c (List.mem_of_mem_eraseIdx hc) }
  | finish k clock => exact h.finish hs
  | _ => exact ha.elim

end Conserved

/-- In lists without repetition, side by side, an element is in exactly one of them. -/
theorem existsUnique_of_nodup_flatten {α : Type} {xss : List (List α)} (h : xss.flatten.Nodup)
    {x : α} (hx : x ∈ xss.flatten) : ∃! n : ℕ, ∃ xs, xss[n]? = some xs ∧ x ∈ xs := by
  obtain ⟨xs, hxs, hmem⟩ := List.mem_flatten.1 hx
  obtain ⟨n, hn⟩ := List.mem_iff_getElem?.1 hxs
  refine ⟨n, ⟨xs, hn, hmem⟩, ?_⟩
  rintro m ⟨ys, hm, hys⟩
  obtain ⟨hlt, hget⟩ := List.getElem?_eq_some_iff.1 hn
  obtain ⟨hlt', hget'⟩ := List.getElem?_eq_some_iff.1 hm
  have hdisjoint := List.pairwise_iff_getElem.1 (List.nodup_flatten.1 h).2
  -- Two lists that share an element stand at the same place.
  rcases Nat.lt_trichotomy m n with hmn | hmn | hmn
  · exact absurd hmem (hget ▸ hget' ▸ hdisjoint m n hlt' hlt hmn <| hget' ▸ hys)
  · exact hmn
  · exact absurd hys (hget ▸ hget' ▸ hdisjoint n m hlt hlt' hmn <| hget ▸ hmem)

/-- The places of a page hold what the conservation counts. -/
theorem coe_flatten_places (s : State V B) (p : PageId) :
    ((s.places p).flatten : Multiset (Change V)) =
      (s.worker.rowQueue p : Multiset (Change V)) + s.deskQueue p + s.inFlight p +
        s.returned p := by
  simp only [State.places, State.inFlight, State.returned, List.flatten_cons, List.flatten_append,
    ← List.flatMap_def, ← Multiset.coe_add]
  abel

/-- Before the first action nothing has been accepted for a page with nothing waiting. -/
theorem conserved_start (worker : Worker V B) (desk : DeliveryDesk V) (population : Population)
    (clock : Instant) {p : PageId} {u : User} (howner : worker.registry.pageUser p = some u)
    (hrow : worker.rowQueue p = []) (hdesk : desk.datachangesFor p = []) :
    Conserved p u (start worker desk population clock) where
  owner := howner
  lane := fun m hm => absurd hm List.not_mem_nil
  looked := fun c hc => absurd hc List.not_mem_nil
  flying := fun f hf => absurd hf List.not_mem_nil
  stamped := by
    intro change hchange
    rw [show (start worker desk population clock : State V B).desk = desk from rfl,
      hdesk] at hchange
    cases hchange
  balance := by
    simp [start, State.deskQueue, State.inFlight, State.returned, hrow, hdesk]

/-- Exactly-once delivery of addressed datachanges. Take a page with an owner and nothing waiting
for it. Along every run of writes without `replace` to the page, on either road, of captures and of
collects, overlapping as they may, the changes accepted for the page are, as a multiset, those that
its places hold; so that, the accepted changes being told apart, each of them is in exactly one
place: the row, the desk, one reply in flight, or the answer of one finished collect. -/
theorem accepted_in_exactly_one_place [PyValue V] [LegacyBag B V] (core : CoreRegister V)
    (worker : Worker V B) (desk : DeliveryDesk V) (population : Population) (clock : Instant)
    (p : PageId) (u : User) (howner : worker.registry.pageUser p = some u)
    (hrow : worker.rowQueue p = []) (hdesk : desk.datachangesFor p = []) (acts : List (Act V))
    (hacts : ∀ a ∈ acts, WritesAndCollects p a) (s : State V B)
    (hrun : run (step core) (start worker desk population clock) acts = some s) :
    (about p s.accepted).Perm (s.places p).flatten ∧
      ((about p s.accepted).Nodup → ∀ change ∈ about p s.accepted,
        ∃! n : ℕ, ∃ place, (s.places p)[n]? = some place ∧ change ∈ place) := by
  have hstart := conserved_start worker desk population clock howner hrow hdesk
  have hstep : ∀ (s : State V B) a s', Conserved p u s → WritesAndCollects p a →
      step core s a = some s' → Conserved p u s' := fun _ _ _ h ha hs => h.step ha hs
  have hconserved : Conserved p u s :=
    run_invariant hstep hstart (Meets.of_forall hacts) hrun
  have hperm : (about p s.accepted).Perm (s.places p).flatten := by
    rw [← Multiset.coe_eq_coe, coe_flatten_places]
    exact hconserved.balance
  refine ⟨hperm, ?_⟩
  intro hnodup change hchange
  exact existsUnique_of_nodup_flatten (hperm.nodup_iff.1 hnodup) (hperm.mem_iff.1 hchange)

/-- A write that waits on the row while a write filed at the desk is in a reply in flight: both are
accepted, and each has its place. -/
theorem accepted_in_exactly_one_place_two_roads :
    ∃ s : State Sample.Value Sample.FlatBag,
      run (step Sample.core) (Sample.start ["p"])
          [.foreign (Sample.message .page "p" "a" 1), .serve 0 1, .lookup "p" Sample.slot,
            .exchange 0 fun _ => 2, .write "u" (Sample.message .page "p" "b" 2) 3] = some s ∧
        s.places "p" =
          [[(Sample.change "b" 2).arriving 3], [], [(Sample.change "a" 1).arriving 1]] ∧
        (about "p" s.accepted).Perm (s.places "p").flatten := by
  have hplaces : (run (step Sample.core) (Sample.start ["p"])
      [.foreign (Sample.message .page "p" "a" 1), .serve 0 1, .lookup "p" Sample.slot,
        .exchange 0 fun _ => 2, .write "u" (Sample.message .page "p" "b" 2) 3]).map
          (fun s => s.places "p") =
      some [[(Sample.change "b" 2).arriving 3], [], [(Sample.change "a" 1).arriving 1]] := rfl
  obtain ⟨s, hs, hs'⟩ := Option.map_eq_some_iff.1 hplaces
  refine ⟨s, hs, hs', ?_⟩
  refine (accepted_in_exactly_one_place Sample.core _ _ _ _ "p" "u" rfl rfl rfl _ ?_ s hs).1
  intro a ha
  simp only [List.mem_cons, List.not_mem_nil, or_false] at ha
  rcases ha with rfl | rfl | rfl | rfl | rfl
  · exact fun _ _ => ⟨_, rfl⟩
  · trivial
  · trivial
  · trivial
  · exact fun _ _ => ⟨_, rfl⟩

end GenropyAsgi.Delivery
