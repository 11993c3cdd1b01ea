import GenropyAsgi.TableEvents
import GenropyAsgi.Delivery.Machine

/-!
# The request slot and its two exits

One request of the hosted site: the calls of `notifyDbEvents` and of `collect_page` that it makes on
its own slot, in any order and for any pages, and the `on_request_served` that ends it. What other
requests do in between reaches this one through what its calls find, so every call carries what it
finds: the worker at each of its critical sections, the desk that serves its CALL, or no desk where
the CALL is refused.

The deposits of the slot have two exits, the exchange of a collect and the final CALL. The result
about them is that both together file every deposit once. The deposits of hidden transactions have
one, the collect that comes first, and it is not always the collect of their own page.
-/

namespace GenropyAsgi.Request

open Library

variable {V B : Type}

/-! ## The calls -/

/-- A `collect_page`, with what it finds. -/
structure Collecting (V B : Type) where
  /-- The page. -/
  page_id : PageId
  /-- The worker at the first critical section. -/
  looking : Worker V B
  /-- The desk that serves the exchange, `none` when the exchange is refused. -/
  desk : Option (DeliveryDesk V)
  /-- The instants at which the desk files the deposits. -/
  filing : ℕ → Instant
  /-- The worker at the final critical section. -/
  finishing : Worker V B
  /-- The instants that the captures of the views read. -/
  clock : ℕ → PageId → Instant

/-- What a call leaves behind: the slot, the operations that the desk has served for it, and its
answer. -/
structure Outcome (V α : Type) where
  /-- The slot. -/
  slot : RequestSlot V
  /-- The operations of the desk. -/
  ops : List (DeskOp V)
  /-- The answer. -/
  result : Except PyError α

/-- The deposits of a list, each with the instant at which the desk files it. -/
def stamped (dbevents : List (DbEvent V)) (filing : ℕ → Instant) : List (DbEvent V × Instant) :=
  dbevents.zipIdx.map fun deposit => (deposit.1, filing deposit.2)

/-- `collect_page`, from its first critical section to its answer. -/
def collectPage [PyValue V] [LegacyBag B V] (slot : RequestSlot V) (c : Collecting V B) :
    Outcome V (Worker.PageDelivery V) :=
  match c.looking.collectLookup c.page_id with
  | .error error => ⟨slot, [], .error error⟩
  | .ok user =>
    match c.desk with
    | none => ⟨slot, [], .error .commanderCallFailed⟩
    | some desk =>
      let dbevents := stamped slot.dbevents c.filing
      let reply := (desk.exchange c.page_id user dbevents).2
      -- The deposits left with the exchange; the final critical section may still raise.
      let op := DeskOp.exchange c.page_id user dbevents
      match (c.finishing.collectFinish c.page_id user reply slot.own_dbevents c.clock).2 with
      | .error error => ⟨{ slot with dbevents := [] }, [op], .error error⟩
      | .ok delivery => ⟨⟨[], []⟩, [op], .ok delivery⟩

/-- `deliver_slot_deposits`: the deposits that are left go up alone, and are dropped if the desk
refuses them. -/
def deliverSlotDeposits (slot : RequestSlot V) (accepted : Bool) (filing : ℕ → Instant) :
    Outcome V Unit :=
  if slot.dbevents = [] then ⟨slot, [], .ok ()⟩
  else ⟨{ slot with dbevents := [] },
    if accepted then [.deposit (stamped slot.dbevents filing)] else [], .ok ()⟩

/-- A call that a request makes. -/
inductive Call (V B : Type) where
  /-- `notifyDbEvents`, with the worker that it finds and the instant of each deposit. -/
  | notify (worker : Worker V B) (dbevents : List (Table × List V)) (reason : Option String)
    (page_id : Option PageId) (local_only : Bool) (clock : Table → Instant)
  /-- `collect_page`. -/
  | collect (c : Collecting V B)

namespace Call

/-- The deposits that the call shapes: those of the tables that it announces. -/
def deposits : Call V B → List (DbEvent V)
  | .notify worker dbevents reason page_id local_only clock =>
    (dbevents.filter fun event =>
      !event.2.isEmpty && (local_only || decide (event.1 ∈ worker.subscribed_tables))).map
        fun event => Worker.dbeventDeposit event.1 event.2 page_id reason (clock event.1)
  | .collect _ => []

/-- The deposits that the call lays on the slot for the desk. -/
def laid : Call V B → List (DbEvent V)
  | .notify worker dbevents reason page_id false clock =>
    deposits (.notify worker dbevents reason page_id false clock)
  | _ => []

/-- The deposits of a hidden transaction that the call lays on the slot. -/
def laidOwn : Call V B → List (DbEvent V)
  | .notify worker dbevents reason page_id true clock =>
    deposits (.notify worker dbevents reason page_id true clock)
  | _ => []

/-- The page of a collect that comes to its end: its page has an owner at the first critical
section, the desk accepts the exchange, and the page and the owner are there at the final one. -/
def ending : Call V B → Option PageId
  | .notify .. => none
  | .collect c =>
    match c.looking.collectLookup c.page_id, c.desk with
    | .ok user, some _ =>
      if (c.finishing.registry.page_register.get c.page_id).isSome = true ∧
        (c.finishing.registry.user_register.get user).isSome = true then some c.page_id else none
    | _, _ => none

end Call

/-! ## The request -/

/-- A CALL placed on the desk with the deposits of the slot. -/
structure Offer (V : Type) where
  /-- The deposits offered. -/
  dbevents : List (DbEvent V)
  /-- Whether the desk accepted the CALL. -/
  accepted : Bool

/-- A request under way: its slot, and what has come of its calls so far. -/
structure State (V : Type) where
  /-- The slot. -/
  slot : RequestSlot V
  /-- The operations that the desk has served for the request. -/
  ops : List (DeskOp V)
  /-- The CALLs that offered the deposits of the slot. -/
  offers : List (Offer V)
  /-- The deposits that the collects have answered beside those that the desk handed back, each
  with the page of its collect. -/
  returned : List (PageId × DbEvent V)

/-- A request before its first call. -/
def State.new : State V := ⟨⟨[], []⟩, [], [], []⟩

namespace State

/-- The state after one call. -/
def call [PyValue V] [LegacyBag B V] (s : State V) : Call V B → State V
  | .notify worker dbevents reason page_id local_only clock =>
    { s with
      slot := (worker.notifyDbEvents s.slot dbevents reason page_id local_only clock).1 }
  | .collect c =>
    let outcome := collectPage s.slot c
    { s with
      slot := outcome.slot
      ops := s.ops ++ outcome.ops
      offers := s.offers ++
        match c.looking.collectLookup c.page_id with
        | .ok _ => [⟨s.slot.dbevents, c.desk.isSome⟩]
        | .error _ => []
      returned := s.returned ++
        match c.looking.collectLookup c.page_id, c.desk, outcome.result with
        | .ok user, some desk, .ok delivery =>
          (delivery.dbevents.drop (desk.exchange c.page_id user
            (stamped s.slot.dbevents c.filing)).2.dbevents.length).map fun d => (c.page_id, d)
        | _, _, _ => [] }

/-- `on_request_served`. -/
def served (s : State V) (accepted : Bool) (filing : ℕ → Instant) : State V :=
  let outcome := deliverSlotDeposits s.slot accepted filing
  { s with
    slot := outcome.slot
    ops := s.ops ++ outcome.ops
    offers := s.offers ++ if s.slot.dbevents = [] then [] else [⟨s.slot.dbevents, accepted⟩] }

/-- The deposits that the desk has filed for the request, in the order of the filings. -/
def filed (s : State V) : List (DbEvent V) := (s.ops.flatMap DeskOp.filings).map Prod.fst

/-- The deposits of the CALLs that the desk has accepted. -/
def acceptedOffers (s : State V) : List (DbEvent V) :=
  (s.offers.filter Offer.accepted).flatMap Offer.dbevents

end State

/-- The state after the calls of a request. -/
def after [PyValue V] [LegacyBag B V] (calls : List (Call V B)) : State V :=
  calls.foldl State.call State.new

/-- One more call of a request. -/
theorem after_snoc [PyValue V] [LegacyBag B V] (calls : List (Call V B)) (c : Call V B) :
    after (calls ++ [c]) = (after calls).call c := by
  simp [after]

/-! ## What one call does -/

/-- The stamps do not change what is filed. -/
theorem map_fst_stamped (dbevents : List (DbEvent V)) (filing : ℕ → Instant) :
    (stamped dbevents filing).map Prod.fst = dbevents := by
  unfold stamped
  rw [List.map_map]
  exact List.zipIdx_map_fst 0 dbevents

/-- A `notifyDbEvents` lays its deposits on the slot, at the end of one of its two lists. -/
theorem State.call_notify [PyValue V] [LegacyBag B V] (s : State V) (worker : Worker V B)
    (dbevents : List (Table × List V)) (reason : Option String) (page_id : Option PageId)
    (local_only : Bool) (clock : Table → Instant) :
    s.call (.notify worker dbevents reason page_id local_only clock) =
      { s with
        slot := ⟨s.slot.dbevents ++
            (Call.notify worker dbevents reason page_id local_only clock).laid,
          s.slot.own_dbevents ++
            (Call.notify worker dbevents reason page_id local_only clock).laidOwn⟩ } := by
  cases local_only with
  | true => simp [State.call, Worker.notifyDbEvents, Call.laid, Call.laidOwn, Call.deposits]
  | false => simp [State.call, Worker.notifyDbEvents, Call.laid, Call.laidOwn, Call.deposits]

/-- What a final critical section answers: it raises where the page or the user is not there, and
else its deposits are those of the reply followed by those of the hidden transactions. -/
theorem collectFinish_result [PyValue V] [LegacyBag B V] (worker : Worker V B) (page_id : PageId)
    (user : User) (reply : ExchangeReply V) (own_dbevents : List (DbEvent V))
    (clock : ℕ → PageId → Instant) :
    if (worker.registry.page_register.get page_id).isSome = true ∧
        (worker.registry.user_register.get user).isSome = true then
      ∃ delivery, (worker.collectFinish page_id user reply own_dbevents clock).2 = .ok delivery ∧
        delivery.dbevents = reply.dbevents ++ own_dbevents
    else ∃ error, (worker.collectFinish page_id user reply own_dbevents clock).2 =
      .error error := by
  rcases worker.collectFinish_cases page_id user reply own_dbevents clock with
    ⟨hpage, heq⟩ | ⟨_, huser, heq⟩ | ⟨row, user_item, hrow, huser, page, _, _, heq⟩
  · rw [if_neg (by simp [hpage]), heq]
    exact ⟨_, rfl⟩
  · rw [if_neg (by simp [huser]), heq]
    exact ⟨_, rfl⟩
  · rw [if_pos (by simp [hrow, huser]), heq]
    exact ⟨_, rfl, rfl⟩

/-- What a collect does to the request: it raises before the desk has served anything; or the desk
has filed what was on the slot, and the final critical section raises, or it answers what the desk
handed back followed by the deposits of the hidden transactions. -/
theorem State.call_collect_cases [PyValue V] [LegacyBag B V] (s : State V) (c : Collecting V B) :
    ((Call.collect c).ending = none ∧ (s.call (.collect c)).slot = s.slot ∧
        (s.call (.collect c)).ops = s.ops ∧ (s.call (.collect c)).returned = s.returned ∧
        ((s.call (.collect c)).offers = s.offers ∨
          (s.call (.collect c)).offers = s.offers ++ [⟨s.slot.dbevents, false⟩])) ∨
      ∃ user, (s.call (.collect c)).slot.dbevents = [] ∧
        (s.call (.collect c)).ops =
          s.ops ++ [.exchange c.page_id user (stamped s.slot.dbevents c.filing)] ∧
        (s.call (.collect c)).offers = s.offers ++ [⟨s.slot.dbevents, true⟩] ∧
        (((Call.collect c).ending = none ∧
            (s.call (.collect c)).slot.own_dbevents = s.slot.own_dbevents ∧
            (s.call (.collect c)).returned = s.returned) ∨
          ((Call.collect c).ending = some c.page_id ∧
            (s.call (.collect c)).slot.own_dbevents = [] ∧
            (s.call (.collect c)).returned =
              s.returned ++ s.slot.own_dbevents.map fun d => (c.page_id, d))) := by
  simp only [State.call, collectPage, Call.ending]
  cases hlookup : c.looking.collectLookup c.page_id with
  | error error =>
    -- The page is unknown, or its owner is.
    left
    simp
  | ok user =>
    cases hdesk : c.desk with
    | none =>
      -- The exchange is refused.
      left
      simp
    | some desk =>
      dsimp only
      have hresult := collectFinish_result c.finishing c.page_id user
        (desk.exchange c.page_id user (stamped s.slot.dbevents c.filing)).2 s.slot.own_dbevents
        c.clock
      split_ifs at hresult ⊢ with hthere
      · obtain ⟨delivery, hok, hdbevents⟩ := hresult
        right
        simp [hok, hdbevents]
      · obtain ⟨error, herror⟩ := hresult
        right
        simp [herror]

/-! ## The deposits for the desk -/

/-- What has been laid on the slot for the desk is what the desk has filed, followed by what is
still there; and the desk has filed what it accepted. -/
theorem laid_after [PyValue V] [LegacyBag B V] (calls : List (Call V B)) :
    calls.flatMap Call.laid = (after calls).filed ++ (after calls).slot.dbevents ∧
      (after calls).filed = (after calls).acceptedOffers := by
  induction calls using List.reverseRecOn with
  | nil => exact ⟨rfl, rfl⟩
  | append_singleton calls c ih =>
    obtain ⟨hlaid, hoffers⟩ := ih
    rw [List.flatMap_append, List.flatMap_singleton, after_snoc, hlaid]
    cases c with
    | notify worker dbevents reason page_id local_only clock =>
      rw [State.call_notify]
      exact ⟨List.append_assoc _ _ _, hoffers⟩
    | collect c =>
      have hnone : (Call.collect c).laid = [] := rfl
      rw [hnone, List.append_nil]
      rcases (after calls).call_collect_cases c with
        ⟨_, hslot, hops, _, hoffer⟩ | ⟨user, hslot, hops, hoffer, _⟩
      · -- Nothing was filed: the slot keeps its deposits, refused or not offered at all.
        have hfiled : ((after calls).call (.collect c)).filed = (after calls).filed := by
          rw [State.filed, hops, State.filed]
        rw [hslot, hfiled]
        refine ⟨rfl, hoffers.trans ?_⟩
        rcases hoffer with hoffer | hoffer
        · rw [State.acceptedOffers, State.acceptedOffers, hoffer]
        · rw [State.acceptedOffers, State.acceptedOffers, hoffer, List.filter_append]
          simp
      · -- What was on the slot is filed.
        have hfiled : ((after calls).call (.collect c)).filed =
            (after calls).filed ++ (after calls).slot.dbevents := by
          rw [State.filed, hops, List.flatMap_append, List.map_append, List.flatMap_singleton]
          simp only [DeskOp.filings, map_fst_stamped]
          rfl
        rw [hslot, hfiled, List.append_nil]
        refine ⟨rfl, ?_⟩
        rw [State.acceptedOffers, hoffer, List.filter_append, List.flatMap_append, hoffers]
        simp [State.acceptedOffers]

/-- The page of the first collect that comes to its end. -/
def firstEnding (calls : List (Call V B)) : Option PageId := calls.findSome? Call.ending

/-- The condition on the calls of a request: after each `notifyDbEvents` that lays deposits of a
hidden transaction on the slot, some collect comes to its end, and the first one that does is a
collect of their origin page. -/
def OriginCollectsFirst : List (Call V B) → Prop
  | [] => True
  | c :: calls => (∀ d ∈ c.laidOwn, ∃ page_id, firstEnding calls = some page_id ∧
      d.from_page_id = some page_id) ∧ OriginCollectsFirst calls

/-- What the collects of a request answer of the hidden transactions, given the deposits that are on
the slot before them. -/
def ownReturned (own_dbevents : List (DbEvent V)) : List (Call V B) → List (PageId × DbEvent V)
  | [] => []
  | c :: calls =>
    match c.ending with
    | some page_id => own_dbevents.map (fun d => (page_id, d)) ++ ownReturned [] calls
    | none => ownReturned (own_dbevents ++ c.laidOwn) calls

/-- The answers along a request. -/
theorem returned_foldl [PyValue V] [LegacyBag B V] :
    ∀ (calls : List (Call V B)) (s : State V),
      (calls.foldl State.call s).returned =
        s.returned ++ ownReturned s.slot.own_dbevents calls
  | [], s => by simp [ownReturned]
  | .notify worker dbevents reason page_id local_only clock :: calls, s => by
    have hending : (Call.notify worker dbevents reason page_id local_only clock).ending = none :=
      rfl
    rw [List.foldl_cons, returned_foldl calls, ownReturned, hending, State.call_notify]
  | .collect c :: calls, s => by
    rw [List.foldl_cons, returned_foldl calls, ownReturned]
    have hnone : (Call.collect c).laidOwn = [] := rfl
    rcases s.call_collect_cases c with
      ⟨hending, hslot, _, hreturned, _⟩ |
        ⟨user, _, _, _, ⟨hending, hown, hreturned⟩ | ⟨hending, hown, hreturned⟩⟩
    · rw [hending, hslot, hreturned, hnone, List.append_nil]
    · rw [hending, hown, hreturned, hnone, List.append_nil]
    · rw [hending, hown, hreturned, List.append_assoc]

/-- The collects answer every deposit of a hidden transaction, each to its origin page, exactly when
for the deposits on the slot, and for those that the calls lay, the first collect that comes to its
end is a collect of their origin page. -/
theorem ownReturned_iff :
    ∀ (calls : List (Call V B)) (own_dbevents : List (DbEvent V)),
      ((∀ x ∈ ownReturned own_dbevents calls, x.2.from_page_id = some x.1) ∧
          (ownReturned own_dbevents calls).map Prod.snd =
            own_dbevents ++ calls.flatMap Call.laidOwn) ↔
        (∀ d ∈ own_dbevents, ∃ page_id, firstEnding calls = some page_id ∧
          d.from_page_id = some page_id) ∧ OriginCollectsFirst calls
  | [], own_dbevents => by
    cases own_dbevents with
    | nil => simp [ownReturned, OriginCollectsFirst]
    | cons d own_dbevents =>
      -- No collect is left to answer them.
      constructor
      · rintro ⟨_, heq⟩
        simp [ownReturned] at heq
      · rintro ⟨h, _⟩
        obtain ⟨page_id, hending, _⟩ := h d List.mem_cons_self
        cases hending
  | c :: calls, own_dbevents => by
    rw [ownReturned, OriginCollectsFirst, firstEnding, List.findSome?_cons]
    cases hending : c.ending with
    | none =>
      -- The deposits of the call join those on the slot.
      have ih := ownReturned_iff calls (own_dbevents ++ c.laidOwn)
      dsimp only
      rw [List.flatMap_cons, ← List.append_assoc, ih, ← and_assoc]
      refine and_congr_left fun _ => ?_
      simp only [List.mem_append, or_imp, forall_and]
      rfl
    | some page_id =>
      -- The collect takes all that is on the slot; the rest of the request starts anew.
      have ih := ownReturned_iff calls ([] : List (DbEvent V))
      have hnone : c.laidOwn = [] := by
        cases c with
        | notify worker dbevents reason page_id local_only clock => cases hending
        | collect c => rfl
      have hanswer : ∀ d ∈ own_dbevents, (∃ q, some page_id = some q ∧
          d.from_page_id = some q) ↔ d.from_page_id = some page_id := by
        intro d _
        constructor
        · rintro ⟨q, hq, hd⟩
          rw [hd, ← hq]
        · intro hd
          exact ⟨page_id, rfl, hd⟩
      simp only [List.nil_append, List.not_mem_nil, IsEmpty.forall_iff, implies_true,
        true_and] at ih
      dsimp only
      rw [List.flatMap_cons, hnone, List.nil_append, List.map_append, ← ih]
      simp only [List.mem_append, or_imp, forall_and, List.mem_map, List.map_map]
      have hsnd : own_dbevents.map (Prod.snd ∘ fun d => (page_id, d)) = own_dbevents := by
        rw [show (Prod.snd ∘ fun d : DbEvent V => (page_id, d)) = id from rfl, List.map_id]
      rw [hsnd, List.append_cancel_left_eq]
      constructor
      · rintro ⟨⟨hown, hrest⟩, heq⟩
        refine ⟨fun d hd => (hanswer d hd).2 (hown (page_id, d) ⟨d, hd, rfl⟩), ?_, hrest, heq⟩
        intro d hd
        cases hd
      · rintro ⟨hown, _, hrest, heq⟩
        refine ⟨⟨?_, hrest⟩, heq⟩
        rintro _ ⟨d, hd, rfl⟩
        exact (hanswer d hd).1 (hown d hd)

/-- The deposits of the hidden transactions and their origin pages. In every request, every deposit
that a `notifyDbEvents` with `local_only` lays on the slot is answered by a collect of its origin
page, and by no collect of another page, if and only if after each such call some collect comes to
its end and the first one that does is a collect of the origin page. -/
theorem own_returned_iff_origin_collects_first [PyValue V] [LegacyBag B V]
    (calls : List (Call V B)) :
    ((∀ x ∈ (after calls).returned, x.2.from_page_id = some x.1) ∧
        (after calls).returned.map Prod.snd = calls.flatMap Call.laidOwn) ↔
      OriginCollectsFirst calls := by
  have hreturned : (after calls).returned = ownReturned [] calls := returned_foldl calls State.new
  have hiff := ownReturned_iff calls ([] : List (DbEvent V))
  rw [hreturned]
  simpa only [List.nil_append, List.not_mem_nil, IsEmpty.forall_iff, implies_true,
    true_and] using hiff

section

open Delivery

/-- The worker of two pages of one user. -/
def siblings : Worker Sample.Value Sample.FlatBag := ⟨Sample.registry ["p", "q"], fun _ => ∅, ∅⟩

/-- A collect on that worker. -/
def collecting (page_id : PageId) : Call Sample.Value Sample.FlatBag :=
  .collect ⟨page_id, siblings, some .empty, fun _ => 1, siblings, fun _ _ => 2⟩

/-- A ping collects its own page first and then its children: the deposit of a child's hidden
transaction is answered to the pinging page, and the child's own collect answers nothing. -/
theorem hidden_deposit_answered_to_another_page :
    (after [.notify siblings [("t", [some 1])] none (some "q") true fun _ => 0, collecting "p",
        collecting "q"]).returned = [("p", ⟨"t", [some 1], some "q", none, 0, none⟩)] ∧
      ¬ ∀ x ∈ (after [.notify siblings [("t", [some 1])] none (some "q") true fun _ => 0,
        collecting "p", collecting "q"]).returned, x.2.from_page_id = some x.1 := by
  have hreturned : (after [.notify siblings [("t", [some 1])] none (some "q") true fun _ => 0,
      collecting "p", collecting "q"]).returned =
        [("p", ⟨"t", [some 1], some "q", none, 0, none⟩)] := rfl
  refine ⟨hreturned, ?_⟩
  rw [hreturned]
  intro hown
  have horigin := hown _ List.mem_cons_self
  exact absurd horigin (by decide)

end

end GenropyAsgi.Request
