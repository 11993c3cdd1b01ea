import Mathlib.Tactic.Abel
import Mathlib.Data.List.Perm.Basic
import Mathlib.Algebra.Order.Group.Multiset
import GenropyAsgi.Delivery.Machine

/-!
# What an exchange has retired

The exchange empties the queues of the page and of its owner before the worker looks at its
registers again. `Accounted` is what every run keeps: whatever was retired is in a reply in flight
or in one that a final critical section was given, and the store of a user is what the sections that
applied their reply have made of it. `NothingLost` adds what a final critical section owes: the
STATE writes are applied where the user has a row, and the changes are returned where the page is
registered. It holds along a run exactly when every final critical section that finds one of the two
gone has nothing to deliver to the other one.
-/

namespace GenropyAsgi.Delivery

open Library

variable {V B : Type}

/-- The STATE writes of a reply, with the user that they were retired for. -/
def Flight.stores (flight : Flight V) : List (User × Change V) :=
  flight.reply.store_changes.map fun change => (flight.collect.user, change)

/-- The changes of a reply, with the page that they were handed back to. -/
def Flight.pages (flight : Flight V) : List (PageId × Change V) :=
  flight.reply.datachanges.map fun change => (flight.collect.page_id, change)

/-- The STATE writes that a final critical section applied to a store. -/
def Ending.applied (store : BagId) (ending : Ending V) : List (Change V) :=
  match ending.result with
  | .ok _ => if ending.user_store = some store then ending.flight.reply.store_changes else []
  | .error _ => []

/-- The STATE writes applied to a store, in the order in which they were. -/
def State.appliedTo (s : State V B) (store : BagId) : List (Change V) :=
  s.endings.flatMap (Ending.applied store)

/-- What every run keeps. -/
structure Accounted [PyValue V] [LegacyBag B V] (bags : BagId → B) (s : State V B) : Prop where
  /-- Each store is what the writes applied to it have made of it. -/
  bags : ∀ store, s.worker.bags store = (applyEach (bags store) (s.appliedTo store)).1
  /-- The STATE writes retired are in flight, or a final critical section was given them. -/
  retired : s.retired.Perm (s.replies.flatMap Flight.stores ++
    s.endings.flatMap fun ending => ending.flight.stores)
  /-- So are the changes handed back. -/
  handed : s.handed.Perm (s.replies.flatMap Flight.pages ++
    s.endings.flatMap fun ending => ending.flight.pages)

/-- What a final critical section owes: the STATE writes of its reply are applied to the store of
the user, if he has a row, and the changes of its reply are returned, if the page is registered. -/
def Ending.Kept (ending : Ending V) : Prop :=
  (∀ store, ending.user_store = some store →
      ending.applied store = ending.flight.reply.store_changes) ∧
    (ending.page_there = true →
      (ending.flight.reply.datachanges.map Change.unnumbered).Subperm
        ((match ending.result with
          | .ok delivery => delivery.datachanges
          | .error _ => []).map Change.unnumbered))

/-- Nothing that an exchange has retired is lost. -/
def NothingLost [PyValue V] [LegacyBag B V] (bags : BagId → B) (s : State V B) : Prop :=
  Accounted bags s ∧ ∀ ending ∈ s.endings, ending.Kept

/-- The condition on a final critical section: where the page is gone and the user has a row, its
reply holds no STATE write; where the user has no row and the page is registered, it holds no
change. -/
def EndsWell (s : State V B) : Act V → Prop
  | .finish k _ => ∀ flight, s.replies[k]? = some flight →
    (s.worker.registry.page_register.get flight.collect.page_id = none →
      (s.worker.registry.user_register.get flight.collect.user).isSome = true →
        flight.reply.store_changes = []) ∧
    (s.worker.registry.user_register.get flight.collect.user = none →
      (s.worker.registry.page_register.get flight.collect.page_id).isSome = true →
        flight.reply.datachanges = [])
  | _ => True

/-- A reply that leaves the ones in flight for the final critical sections, by its entries. -/
theorem perm_finish {β : Type} {replies : List (Flight V)} {endings : List (Ending V)} {k : ℕ}
    {flight : Flight V} {ending : Ending V} (f : Flight V → List β)
    (hk : replies[k]? = some flight) (hending : ending.flight = flight) :
    (replies.flatMap f ++ endings.flatMap fun ending => f ending.flight).Perm
      ((replies.eraseIdx k).flatMap f ++
        (endings ++ [ending]).flatMap fun ending => f ending.flight) := by
  obtain ⟨hsplit, herase⟩ := eraseIdx_split hk
  rw [herase, ← Multiset.coe_eq_coe]
  nth_rewrite 1 [hsplit]
  simp only [List.flatMap_append, List.flatMap_cons, List.flatMap_nil, List.append_nil, hending,
    ← Multiset.coe_add]
  abel

/-- A reply that joins the ones in flight, by its entries. -/
theorem perm_exchange {β : Type} {history entries : List β} {replies : List (Flight V)}
    {ended : List β} {flight : Flight V} (f : Flight V → List β)
    (h : history.Perm (replies.flatMap f ++ ended)) (hentries : f flight = entries) :
    (history ++ entries).Perm ((replies ++ [flight]).flatMap f ++ ended) := by
  rw [← Multiset.coe_eq_coe] at h ⊢
  simp only [List.flatMap_append, List.flatMap_singleton, hentries, ← Multiset.coe_add, h]
  abel

section

variable [PyValue V] [LegacyBag B V] {bags : BagId → B} {s s' : State V B}

/-- What a final critical section leaves of each store. -/
theorem bags_finished (flight : Flight V) (worker : Worker V B) (clock : ℕ → PageId → Instant)
    (store : BagId) :
    (flight.finished worker clock).1.bags store =
      (applyEach (worker.bags store) ((flight.ending worker clock).applied store)).1 := by
  rcases worker.collectFinish_cases flight.collect.page_id flight.collect.user flight.reply
      flight.collect.slot.own_dbevents clock with
    ⟨_, heq⟩ | ⟨_, _, heq⟩ | ⟨row, user_item, _, huser, page, _, _, heq⟩
  · -- The page is gone, and nothing is applied.
    simp only [Ending.applied, Flight.ending, Flight.finished, heq]
    rfl
  · -- The user is gone, and nothing is applied.
    simp only [Ending.applied, Flight.ending, Flight.finished, heq]
    rfl
  · -- The writes of the reply are applied to the user's store alone.
    simp only [Ending.applied, Flight.ending, Flight.finished, heq, huser, Option.map_some,
      Option.some.injEq]
    simp only [Worker.applyStoreChanges]
    by_cases hstore : store = user_item.store
    · rw [if_pos hstore, if_pos hstore.symm, hstore]
    · rw [if_neg hstore, if_neg (Ne.symm hstore)]
      rfl

/-- A final critical section keeps what it owes exactly when, of the page and the user, the one that
is gone leaves nothing to deliver to the other. -/
theorem kept_iff (flight : Flight V) (worker : Worker V B) (clock : ℕ → PageId → Instant) :
    (flight.ending worker clock).Kept ↔
      (worker.registry.page_register.get flight.collect.page_id = none →
          (worker.registry.user_register.get flight.collect.user).isSome = true →
            flight.reply.store_changes = []) ∧
        (worker.registry.user_register.get flight.collect.user = none →
          (worker.registry.page_register.get flight.collect.page_id).isSome = true →
            flight.reply.datachanges = []) := by
  rcases worker.collectFinish_cases flight.collect.page_id flight.collect.user flight.reply
      flight.collect.slot.own_dbevents clock with
    ⟨hpage, heq⟩ | ⟨hpage, huser, heq⟩ | ⟨row, user_item, hpage, huser, page, _, _, heq⟩
  · -- The page is gone: what is owed is the STATE writes, if the user has a row.
    simp only [Ending.Kept, Ending.applied, Flight.ending, Flight.finished, heq, hpage]
    cases worker.registry.user_register.get flight.collect.user with
    | none => simp
    | some user_item => simp [eq_comm (a := ([] : List (Change V)))]
  · -- The user has no row: what is owed is the changes of the page.
    obtain ⟨row, hrow⟩ := Option.isSome_iff_exists.1 hpage
    simp [Ending.Kept, Flight.ending, Flight.finished, heq, hrow, huser, List.subperm_nil]
  · -- Both are there: the reply is applied and returned.
    have hsub := Worker.subperm_mergedDatachanges page flight.reply.datachanges
    simp [Ending.Kept, Ending.applied, Flight.ending, Flight.finished, heq, hpage, huser, hsub]

namespace Accounted

/-- The desk serves an exchange: what it retires is in flight. -/
theorem exchange (h : Accounted bags s) {k : ℕ} {clock : ℕ → Instant}
    (hs : s.exchange k clock = some s') : Accounted bags s' := by
  obtain ⟨collect, hk, rfl⟩ := Option.map_eq_some_iff.1 hs
  exact {
    bags := h.bags
    retired := perm_exchange Flight.stores h.retired rfl
    handed := perm_exchange Flight.pages h.handed rfl }

/-- The final critical section of a collect: what was in flight has been given to it. -/
theorem finish (h : Accounted bags s) {k : ℕ} {clock : ℕ → PageId → Instant}
    (hs : s.finish k clock = some s') : Accounted bags s' := by
  obtain ⟨flight, hk, rfl⟩ := Option.map_eq_some_iff.1 hs
  exact {
    bags := by
      intro store
      rw [bags_finished, h.bags store, State.appliedTo, State.appliedTo, List.flatMap_append,
        List.flatMap_singleton, applyEach_append]
    retired := h.retired.trans (perm_finish Flight.stores hk rfl)
    handed := h.handed.trans (perm_finish Flight.pages hk rfl) }

/-- An action that serves no exchange and ends no collect leaves the account alone. -/
theorem of_eq (h : Accounted bags s) (hbags : s'.worker.bags = s.worker.bags)
    (hreplies : s'.replies = s.replies) (hendings : s'.endings = s.endings)
    (hretired : s'.retired = s.retired) (hhanded : s'.handed = s.handed) :
    Accounted bags s' where
  bags := by
    intro store
    rw [hbags, State.appliedTo, hendings]
    exact h.bags store
  retired := by
    rw [hretired, hreplies, hendings]
    exact h.retired
  handed := by
    rw [hhanded, hreplies, hendings]
    exact h.handed

/-- Every action keeps the account. -/
theorem step {core : CoreRegister V} (h : Accounted bags s) {a : Act V}
    (hs : step core s a = some s') : Accounted bags s' := by
  cases a with
  | write identity message now =>
    cases hs
    exact h.of_eq (s.worker.stores_routeDatachange identity message now).1 rfl rfl rfl rfl
  | serve k now =>
    obtain ⟨message, _, rfl⟩ := Option.map_eq_some_iff.1 hs
    exact h.of_eq rfl rfl rfl rfl rfl
  | capture q event written arrived =>
    cases hs
    exact h.of_eq (s.worker.stores_capture q event written arrived).1 rfl rfl rfl rfl
  | exchange k clock => exact h.exchange hs
  | refuse k =>
    obtain ⟨collect, _, rfl⟩ := Option.map_eq_some_iff.1 hs
    exact h.of_eq rfl rfl rfl rfl rfl
  | finish k clock => exact h.finish hs
  | _ =>
    cases hs
    exact h.of_eq rfl rfl rfl rfl rfl

end Accounted

/-- Only the end of a collect adds to the final critical sections. -/
theorem endings_step {core : CoreRegister V} {a : Act V} (hs : step core s a = some s') :
    s'.endings = s.endings ∨ ∃ k clock flight, a = .finish k clock ∧
      s.replies[k]? = some flight ∧ s'.endings = s.endings ++ [flight.ending s.worker clock] := by
  cases a with
  | serve k now =>
    obtain ⟨message, _, rfl⟩ := Option.map_eq_some_iff.1 hs
    exact Or.inl rfl
  | exchange k clock =>
    obtain ⟨collect, _, rfl⟩ := Option.map_eq_some_iff.1 hs
    exact Or.inl rfl
  | refuse k =>
    obtain ⟨collect, _, rfl⟩ := Option.map_eq_some_iff.1 hs
    exact Or.inl rfl
  | finish k clock =>
    obtain ⟨flight, hk, rfl⟩ := Option.map_eq_some_iff.1 hs
    exact Or.inr ⟨k, clock, flight, rfl, hk, rfl⟩
  | _ =>
    cases hs
    exact Or.inl rfl

/-- One action loses nothing exactly when the collect that it ends, if any, ends well. -/
theorem nothingLost_step {core : CoreRegister V} (h : NothingLost bags s) {a : Act V}
    (hs : step core s a = some s') : NothingLost bags s' ↔ EndsWell s a := by
  have haccount := h.1.step hs
  rcases endings_step hs with hsame | ⟨k, clock, flight, rfl, hk, hmore⟩
  · -- No collect ends, and there is nothing to meet.
    have hends : EndsWell s a := by
      cases a with
      | finish k clock =>
        obtain ⟨flight, hk, rfl⟩ := Option.map_eq_some_iff.1 hs
        exact absurd hsame (by simp)
      | _ => trivial
    refine ⟨fun _ => hends, fun _ => ⟨haccount, ?_⟩⟩
    rw [hsame]
    exact h.2
  · -- A collect ends, and what it owes is the condition.
    have hkept := kept_iff flight s.worker clock
    constructor
    · rintro ⟨_, hall⟩ flight' hk'
      rw [hk] at hk'
      cases hk'
      exact hkept.1 (hall _ (by rw [hmore]; exact List.mem_append_right _ List.mem_cons_self))
    · intro hends
      refine ⟨haccount, ?_⟩
      intro ending hending
      rw [hmore] at hending
      rcases List.mem_append.1 hending with hold | hnew
      · exact h.2 ending hold
      · rw [List.mem_singleton] at hnew
        rw [hnew]
        exact hkept.2 (hends flight hk)

end

/-- Before the first action nothing has been retired. -/
theorem accounted_start [PyValue V] [LegacyBag B V] (worker : Worker V B) (desk : DeliveryDesk V)
    (population : Population) (clock : Instant) :
    Accounted worker.bags (start worker desk population clock : State V B) where
  bags _ := rfl
  retired := List.Perm.refl []
  handed := List.Perm.refl []

end GenropyAsgi.Delivery
