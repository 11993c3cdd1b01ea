import GenropyAsgi.DeliveryDesk

/-!
# Table events over the runs of the desk

The desk serves one operation at a time, whichever worker it comes from, so a run of the desk is the
list of the operations that it has served. `subscribedAfter` and `heardSince` are read off that list
alone: which pairs hold after it, and which deposits a page has heard in a part of it. The results
say that the index and the queues of the desk are these two functions of its history, and with them
what an exchange answers.
-/

namespace GenropyAsgi

open Library

variable {V : Type}

/-- An operation that the desk serves. -/
inductive DeskOp (V : Type) where
  /-- `subscribe_table`. -/
  | subscribeTable (page_id : PageId) (table : Table) (subscribe : Bool)
  /-- `record_page_table_subscriptions`. -/
  | recordPageTableSubscriptions (page_id : PageId) (tables : List Table)
  /-- `exchange`. -/
  | exchange (page_id : PageId) (user : User) (dbevents : List (DbEvent V × Instant))
  /-- `deposit`. -/
  | deposit (dbevents : List (DbEvent V × Instant))
  /-- `on_datachange`, under the population of that moment. -/
  | onDatachange (population : Population) (message : Message V) (now : Instant)
  /-- `drop_page`. -/
  | dropPage (page_id : PageId)
  /-- `drop_user`. -/
  | dropUser (user : User)

namespace DeskOp

/-- The deposits that the operation files, in the order in which it files them. -/
def filings : DeskOp V → List (DbEvent V × Instant)
  | .exchange _ _ dbevents => dbevents
  | .deposit dbevents => dbevents
  | _ => []

/-- Whether the operation takes everything that waits for a page away from the desk: an exchange or
a drop of that page. -/
def retires (page_id : PageId) : DeskOp V → Bool
  | .exchange q _ _ => decide (q = page_id)
  | .dropPage q => decide (q = page_id)
  | _ => false

/-- What the operation makes of the desk. -/
def perform (desk : DeliveryDesk V) : DeskOp V → DeliveryDesk V
  | .subscribeTable page_id table subscribe => (desk.subscribeTable page_id table subscribe).1
  | .recordPageTableSubscriptions page_id tables =>
    (desk.recordPageTableSubscriptions page_id tables).1
  | .exchange page_id user dbevents => (desk.exchange page_id user dbevents).1
  | .deposit dbevents => desk.deposit dbevents
  | .onDatachange population message now => (desk.onDatachange population message now).1
  | .dropPage page_id => (desk.dropPage page_id).1
  | .dropUser user => desk.dropUser user

/-- Whether the pair is subscribed after the operation, given whether it was before. -/
def holds (page_id : PageId) (table : Table) (held : Bool) : DeskOp V → Bool
  | .subscribeTable q u subscribe => if page_id = q ∧ table = u then subscribe else held
  | .recordPageTableSubscriptions q tables => held || decide (page_id = q ∧ table ∈ tables)
  | .dropPage q => held && decide (page_id ≠ q)
  | _ => held

end DeskOp

/-- The desk after the operations of a history, the oldest one first. -/
def deskAfter (ops : List (DeskOp V)) : DeliveryDesk V := ops.foldl DeskOp.perform .empty

/-- Whether a page is subscribed to a table after a history. -/
def subscribedAfter (page_id : PageId) (table : Table) (ops : List (DeskOp V)) : Bool :=
  ops.foldl (DeskOp.holds page_id table) false

/-- The deposits that a page hears of one operation, after a history. -/
def heardOf (page_id : PageId) (past : List (DeskOp V)) (op : DeskOp V) : List (DbEvent V) :=
  (op.filings.filter fun deposit => subscribedAfter page_id deposit.1.table past).map
    DeliveryDesk.filedDeposit

/-- The deposits filed along `ops`, after the history `past`, whose table the page was subscribed to
at the moment of filing: each filing once, in filing order. -/
def heardSince (page_id : PageId) (past : List (DeskOp V)) : List (DeskOp V) → List (DbEvent V)
  | [] => []
  | op :: ops => heardOf page_id past op ++ heardSince page_id (past ++ [op]) ops

/-- One more operation after a history. -/
theorem deskAfter_snoc (ops : List (DeskOp V)) (op : DeskOp V) :
    deskAfter (ops ++ [op]) = op.perform (deskAfter ops) := by
  simp [deskAfter]

/-- An addressed write leaves the index and the deposits as they were. -/
theorem DeliveryDesk.onDatachange_dbevents (desk : DeliveryDesk V) (population : Population)
    (message : Message V) (now : Instant) :
    (desk.onDatachange population message now).1.page_subscriptions = desk.page_subscriptions ∧
      (desk.onDatachange population message now).1.page_dbevent_map = desk.page_dbevent_map := by
  unfold DeliveryDesk.onDatachange
  cases message.target with
  | none => exact ⟨rfl, rfl⟩
  | some target =>
    dsimp only
    split_ifs
    · unfold DeliveryDesk.fileDatachange
      cases message.filters with
      | some filters => exact ⟨rfl, rfl⟩
      | none =>
        dsimp only
        split_ifs <;> exact ⟨rfl, rfl⟩
    · exact ⟨rfl, rfl⟩

/-- One operation settles a pair of the index as `holds` says. -/
theorem DeskOp.mem_pagesFor_perform (desk : DeliveryDesk V) (p : PageId) (t : Table) (held : Bool)
    (hheld : p ∈ desk.page_subscriptions.pagesFor t ↔ held = true) :
    ∀ op : DeskOp V, p ∈ (op.perform desk).page_subscriptions.pagesFor t ↔
      op.holds p t held = true
  | .subscribeTable q u subscribe => by
    simp only [perform, holds, DeliveryDesk.mem_pagesFor_subscribeTable, hheld]
    split_ifs <;> rfl
  | .recordPageTableSubscriptions q tables => by
    simp only [perform, holds, DeliveryDesk.mem_pagesFor_recordPageTableSubscriptions, hheld,
      Bool.or_eq_true, decide_eq_true_eq]
  | .exchange q user dbevents => by
    simp only [perform, holds, DeliveryDesk.page_subscriptions_exchange, hheld]
  | .deposit dbevents => by
    simp only [perform, holds, DeliveryDesk.deposit, DeliveryDesk.page_subscriptions_fileDbevents,
      hheld]
  | .onDatachange population message now => by
    simp only [perform, holds, (desk.onDatachange_dbevents population message now).1, hheld]
  | .dropPage q => by
    simp only [perform, holds, DeliveryDesk.mem_pagesFor_dropPage, hheld, Bool.and_eq_true,
      decide_eq_true_eq]
  | .dropUser user => hheld

/-- The index of the desk is the function `subscribedAfter` of its history. -/
theorem mem_pagesFor_deskAfter (p : PageId) (t : Table) (ops : List (DeskOp V)) :
    p ∈ (deskAfter ops).page_subscriptions.pagesFor t ↔ subscribedAfter p t ops = true := by
  -- Both sides are folds along the history, so the last operation is the one to look at.
  induction ops using List.reverseRecOn with
  | nil => simp [deskAfter, subscribedAfter, DeliveryDesk.empty]
  | append_singleton ops op ih =>
    rw [deskAfter_snoc, DeskOp.mem_pagesFor_perform _ p t _ ih]
    simp [subscribedAfter]

/-- What a page hears of the filings of an operation, by the index and by the history. -/
theorem heardBy_deskAfter (p : PageId) (past : List (DeskOp V)) (op : DeskOp V) :
    (deskAfter past).heardBy p op.filings = heardOf p past op := by
  unfold DeliveryDesk.heardBy heardOf
  congr 1
  apply List.filter_congr
  intro deposit _
  rw [Bool.eq_iff_iff, decide_eq_true_eq]
  exact mem_pagesFor_deskAfter p deposit.1.table past

/-- One operation that does not retire a page's deposits adds those that the page hears of it. -/
theorem dbeventsFor_perform (desk : DeliveryDesk V) (p : PageId) :
    ∀ op : DeskOp V, op.retires p = false →
      (op.perform desk).dbeventsFor p = desk.dbeventsFor p ++ desk.heardBy p op.filings
  | .subscribeTable .., _ => by simp [DeskOp.perform, DeskOp.filings, DeliveryDesk.heardBy,
      DeliveryDesk.subscribeTable, DeliveryDesk.dbeventsFor]
  | .recordPageTableSubscriptions .., _ => by simp [DeskOp.perform, DeskOp.filings,
      DeliveryDesk.heardBy, DeliveryDesk.recordPageTableSubscriptions, DeliveryDesk.dbeventsFor]
  | .exchange q user dbevents, h => by
    have hq : p ≠ q := fun hpq => by simp [DeskOp.retires, hpq] at h
    simp only [DeskOp.perform, DeskOp.filings, DeliveryDesk.dbeventsFor_exchange, if_neg hq]
  | .deposit dbevents, _ => desk.dbeventsFor_fileDbevents p dbevents
  | .onDatachange population message now, _ => by
    simp [DeskOp.perform, DeskOp.filings, DeliveryDesk.heardBy, DeliveryDesk.dbeventsFor,
      (desk.onDatachange_dbevents population message now).2]
  | .dropPage q, h => by
    have hq : p ≠ q := fun hpq => by simp [DeskOp.retires, hpq] at h
    simp [DeskOp.perform, DeskOp.filings, DeliveryDesk.heardBy,
      DeliveryDesk.dbeventsFor_dropPage, hq]
  | .dropUser user, _ => by simp [DeskOp.perform, DeskOp.filings, DeliveryDesk.heardBy,
      DeliveryDesk.dropUser, DeliveryDesk.dbeventsFor]

/-- Along operations that do not retire a page's deposits, its queue grows by what it hears. -/
theorem dbeventsFor_deskAfter_append (p : PageId) :
    ∀ (since past : List (DeskOp V)), (∀ op ∈ since, op.retires p = false) →
      (deskAfter (past ++ since)).dbeventsFor p =
        (deskAfter past).dbeventsFor p ++ heardSince p past since
  | [], past, _ => by simp [heardSince]
  | op :: since, past, h => by
    have ih := dbeventsFor_deskAfter_append p since (past ++ [op]) fun op' hop' =>
      h op' (List.mem_cons_of_mem op hop')
    rw [List.append_assoc, List.singleton_append] at ih
    rw [ih, deskAfter_snoc, dbeventsFor_perform _ p op (h op List.mem_cons_self),
      heardBy_deskAfter, heardSince, List.append_assoc]

/-- A history at whose end nothing waits for a page: it is empty, or it ends in an exchange or a
drop of the page. -/
def EndsRetired (page_id : PageId) (past : List (DeskOp V)) : Prop :=
  ∀ op ∈ past.getLast?, op.retires page_id = true

/-- At the end of such a history nothing waits for the page. -/
theorem EndsRetired.dbeventsFor {p : PageId} {past : List (DeskOp V)} (h : EndsRetired p past) :
    (deskAfter past).dbeventsFor p = [] := by
  rcases List.eq_nil_or_concat' past with rfl | ⟨init, op, rfl⟩
  · rfl
  · have hop : op.retires p = true := h op (by simp)
    rw [deskAfter_snoc]
    cases op with
    | exchange q user dbevents =>
      have hq : p = q := by simpa [DeskOp.retires, eq_comm] using hop
      simp [DeskOp.perform, DeliveryDesk.dbeventsFor_exchange, hq]
    | dropPage q =>
      have hq : p = q := by simpa [DeskOp.retires, eq_comm] using hop
      simp [DeskOp.perform, DeliveryDesk.dbeventsFor_dropPage, hq]
    | _ => simp [DeskOp.retires] at hop

/-- What heardSince collects along two consecutive parts of a history. -/
theorem heardSince_append (p : PageId) :
    ∀ (since since' past : List (DeskOp V)),
      heardSince p past (since ++ since') =
        heardSince p past since ++ heardSince p (past ++ since) since'
  | [], since', past => by simp [heardSince]
  | op :: since, since', past => by
    simp [heardSince, heardSince_append p since since' (past ++ [op])]

/-- An operation that retires a page's deposits leaves every other page's pending ones as they are,
but for the deposits that it files itself. -/
theorem dbeventsFor_of_retires {p q : PageId} {ops : List (DeskOp V)} {op : DeskOp V}
    (hop : op.retires p = true) (hq : q ≠ p) :
    (deskAfter (ops ++ [op])).dbeventsFor q =
      (deskAfter ops).dbeventsFor q ++ heardOf q ops op := by
  -- What retires the one page does not retire the other.
  have hother : op.retires q = false := by
    cases op with
    | exchange r user dbevents =>
      have hr : r = p := by simpa [DeskOp.retires] using hop
      simpa [DeskOp.retires, hr] using hq.symm
    | dropPage r =>
      have hr : r = p := by simpa [DeskOp.retires] using hop
      simpa [DeskOp.retires, hr] using hq.symm
    | _ => rfl
  rw [deskAfter_snoc, dbeventsFor_perform _ q op hother, heardBy_deskAfter]

/-- Addressed, exactly-once, in-order delivery of table events. After any history `past` at whose
end nothing waits for a page, and any operations `since` then that neither exchange nor drop it, an
exchange of the page answers exactly the deposits filed since whose table the page was subscribed to
at the moment of filing, its own included, each once and in filing order. And whatever the history,
an exchange or a drop of the page leaves to every other page what waited for it, followed by what it
hears of the deposits that the operation itself files. -/
theorem exchange_answers_heardSince (p : PageId) (user : User)
    (dbevents : List (DbEvent V × Instant)) (past since : List (DeskOp V))
    (hpast : EndsRetired p past) (hsince : ∀ op ∈ since, op.retires p = false) :
    ((deskAfter (past ++ since)).exchange p user dbevents).2.dbevents =
        heardSince p past (since ++ [.exchange p user dbevents]) ∧
      ∀ (ops : List (DeskOp V)) (op : DeskOp V), op.retires p = true → ∀ q, q ≠ p →
        (deskAfter (ops ++ [op])).dbeventsFor q =
          (deskAfter ops).dbeventsFor q ++ heardOf q ops op := by
  constructor
  · -- The queue has grown from nothing by what the page heard, and the exchange adds its own.
    have hown := heardBy_deskAfter p (past ++ since) (.exchange p user dbevents)
    rw [DeliveryDesk.exchange_reply, dbeventsFor_deskAfter_append p since past hsince,
      hpast.dbeventsFor, List.nil_append, heardSince_append]
    simp only [heardSince, List.append_nil]
    rw [← hown]
    rfl
  · intro ops op hop q hq
    exact dbeventsFor_of_retires hop hq

/-- A page that subscribes a table, exchanges, and exchanges again after one commit on the table and
one on another: the second exchange answers the first commit alone, stamped when it was filed. -/
theorem exchange_answers_heardSince_second_round :
    ((deskAfter ([.subscribeTable "p" "t" true, .exchange "p" "u" []] ++
        [.deposit [(⟨"t", [1], none, none, 3, none⟩, 4)]] : List (DeskOp ℕ))).exchange "p" "u"
          [(⟨"s", [2], none, none, 5, none⟩, 6)]).2.dbevents =
      [⟨"t", [1], none, none, 3, some 4⟩] := by
  refine (exchange_answers_heardSince "p" "u" _ _ _ ?_ ?_).1.trans ?_
  · intro op hop
    cases hop
    rfl
  · intro op hop
    rw [List.mem_singleton] at hop
    rw [hop]
    rfl
  · rfl

end GenropyAsgi
