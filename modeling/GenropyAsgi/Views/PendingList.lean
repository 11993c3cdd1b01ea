import GenropyAsgi.Library.Account
import GenropyAsgi.Library.Run
import GenropyAsgi.Delivery.Readers

/-!
# The pending list of a collector

The operations of a `LegacyBagCollector` as one machine: the events of its Bag, `append`, `drop`,
`reset`, `drain` with its flag, the two verbs of the prefix set, and `detach`. Each operation but a
drain that empties is an edit of the pending list (`changes_act`), whose entry takes the next number
(`change_idx_of_entry`); a drain that empties hands the list over. The account of the list is
therefore sound on every run (`Sound.step`), from which `pending_in_deposit_order` reads the order
of the list and where every deposited change has gone.
-/

namespace GenropyAsgi

open Library

variable {V : Type}

namespace LegacyBagCollector

/-- `drop`. -/
def drop (collector : LegacyBagCollector V) (top : String) : LegacyBagCollector V :=
  { collector with
    changes := collector.changes.filter fun pending => !under pending.key.path top }

/-- `reset`. -/
def reset (collector : LegacyBagCollector V) : LegacyBagCollector V :=
  { collector with changes := [] }

/-- After an append with `replace` the last pending change is the one of its key. -/
theorem changes_append_replace (collector : LegacyBagCollector V) (change : Change V) :
    ∃ rest last, (collector.append change true).changes = rest ++ [last] ∧
      last.key = change.key ∧ ∀ pending ∈ rest, pending.key ≠ change.key := by
  refine ⟨_, _, rfl, rfl, ?_⟩
  intro pending hpending
  have hkept := (List.mem_filter.1 hpending).2
  exact of_decide_eq_true hkept

end LegacyBagCollector

namespace PendingList

/-- An operation on a collector. -/
inductive Act (V : Type) where
  /-- The Bag sends an event. -/
  | event (event : BagEvent V) (now : Instant)
  /-- `append`. -/
  | append (change : Change V) (replace : Bool)
  /-- `drop`. -/
  | drop (top : String)
  /-- `reset`. -/
  | reset
  /-- `drain`: with `reset` it empties the list, without it is a peek. -/
  | drain (reset : Bool)
  /-- `subscribe_path`. -/
  | subscribePath (top : String)
  /-- `unsubscribe_path`. -/
  | unsubscribePath (top : String)
  /-- `detach`. -/
  | detach

/-- The operation, with the changes that it answers. The events of the Bag reach an attached
collector. -/
def act [PyValue V] (collector : LegacyBagCollector V) :
    Act V → LegacyBagCollector V × List (Change V)
  | .event event now =>
    (if collector.attached then collector.onEvent event now else collector, [])
  | .append change replace => (collector.append change replace, [])
  | .drop top => (collector.drop top, [])
  | .reset => (collector.reset, [])
  | .drain reset => Peek.drain collector reset
  | .subscribePath top => (collector.subscribePath top, [])
  | .unsubscribePath top => (collector.unsubscribePath top, [])
  | .detach => (collector.detach, [])

/-- A change as the collector deposits it. -/
def deposited (collector : LegacyBagCollector V) (change : Change V) : Change V :=
  { change with change_idx := collector.change_idx + 1 }

/-- What an operation removes from the pending list, a drain aside, and what it deposits. -/
def edit [PyValue V] (collector : LegacyBagCollector V) : Act V → Edit (Change V)
  | .event event now =>
    ⟨fun _ => false,
      if collector.attached && collector.captures event.path then
        some (deposited collector (event.change event.reason now))
      else none⟩
  | .append change replace =>
    ⟨fun pending => replace && decide (pending.key = change.key),
      some (deposited collector change)⟩
  | .drop top => ⟨fun pending => under pending.key.path top, none⟩
  | .reset => ⟨fun _ => true, none⟩
  | _ => ⟨fun _ => false, none⟩

/-- A collector with the account of its pending list: the deposited changes, those that a drain has
answered and emptied, and those that a replace, a drop or a reset has removed. -/
structure State (V : Type) where
  /-- The collector. -/
  collector : LegacyBagCollector V
  /-- The account. -/
  account : Account (Change V)

/-- A newborn collector. -/
def start (bag : BagId) (paths : Option (Finset String)) : State V :=
  ⟨LegacyBagCollector.new bag paths, Account.empty⟩

/-- One operation, with its answer. -/
def step [PyValue V] (s : State V) (a : Act V) : State V × List (Change V) :=
  let acted := act s.collector a
  match a with
  -- The list goes to the reader; every other operation edits it.
  | .drain true => (⟨acted.1, s.account.give acted.2⟩, acted.2)
  | _ => (⟨acted.1, s.account.post s.collector.changes (edit s.collector a)⟩, acted.2)

/-- The state that a sequence of operations on a newborn collector leads to. -/
def reached [PyValue V] (bag : BagId) (paths : Option (Finset String)) (acts : List (Act V)) :
    State V :=
  (serve step (start bag paths) acts).1

/-! ## One operation -/

/-- An event is deposited if it reaches an attached collector and is captured. -/
theorem act_event [PyValue V] (collector : LegacyBagCollector V) (event : BagEvent V)
    (now : Instant) :
    (act collector (.event event now)).1 =
      if collector.attached && collector.captures event.path then
        collector.deposit (event.change event.reason now)
      else collector := by
  unfold act LegacyBagCollector.onEvent
  cases collector.attached with
  | false => rfl
  | true => rfl

/-- An operation that does not empty the list by draining it edits it. -/
theorem changes_act [PyValue V] (collector : LegacyBagCollector V) {a : Act V}
    (ha : a ≠ .drain true) :
    (act collector a).1.changes = (edit collector a).apply collector.changes := by
  cases a with
  | event event now =>
    rw [Edit.apply_of_forall_not fun _ => rfl, act_event]
    unfold edit
    dsimp only
    split_ifs
    · rfl
    · exact (List.append_nil collector.changes).symm
  | append change replace =>
    cases replace with
    | false =>
      rw [Edit.apply_of_forall_not fun _ => rfl]
      rfl
    | true =>
      -- The pending changes of another key stay, and the copy follows them.
      simp [act, edit, Edit.apply, LegacyBagCollector.append, LegacyBagCollector.deposit, deposited]
  | drop top => simp [act, edit, Edit.apply, LegacyBagCollector.drop]
  | reset => simp [act, edit, Edit.apply, LegacyBagCollector.reset]
  | drain reset =>
    cases reset with
    | false => simp [act, edit, Edit.apply, Peek.drain]
    | true => exact absurd rfl ha
  | subscribePath top => simp [act, edit, Edit.apply, LegacyBagCollector.subscribePath]
  | unsubscribePath top => simp [act, edit, Edit.apply, LegacyBagCollector.unsubscribePath]
  | detach => simp [act, edit, Edit.apply, LegacyBagCollector.detach]

/-- The counter moves with the deposits. -/
theorem change_idx_act [PyValue V] (collector : LegacyBagCollector V) (a : Act V) :
    (act collector a).1.change_idx =
      collector.change_idx + (edit collector a).entry.toList.length := by
  cases a with
  | event event now =>
    rw [act_event]
    unfold edit
    dsimp only
    split_ifs
    · rfl
    · rfl
  | append change replace => cases replace <;> rfl
  | _ => rfl

/-- A deposit takes the next number. -/
theorem change_idx_of_entry [PyValue V] (collector : LegacyBagCollector V) (a : Act V) :
    ∀ change ∈ (edit collector a).entry, change.change_idx = collector.change_idx + 1 := by
  intro change hchange
  cases a with
  | event event now =>
    simp only [edit, Option.mem_def, Option.ite_none_right_eq_some] at hchange
    obtain ⟨_, hentry⟩ := hchange
    cases hentry
    rfl
  | append appended replace =>
    cases hchange
    rfl
  | _ => cases hchange

/-! ## The runs -/

/-- The account of the collector's pending list is sound. -/
def State.Sound (s : State V) : Prop :=
  s.account.Sound Change.change_idx s.collector.change_idx s.collector.changes

/-- The pending list of a sound state is numbered. -/
theorem State.Sound.collector_numbered {s : State V} (h : s.Sound) : s.collector.Numbered :=
  ⟨h.increasing, h.bounded⟩

/-- The answer of a drain, with or without the flag, is the pending list as it stands. -/
theorem State.Sound.drain_eq {s : State V} (h : s.Sound) (reset : Bool) :
    (Peek.drain s.collector reset).2 = s.collector.changes :=
  h.collector_numbered.drain_eq

/-- A newborn collector. -/
theorem sound_start (bag : BagId) (paths : Option (Finset String)) :
    (start bag paths : State V).Sound := Account.sound_empty Change.change_idx

/-- A drain that empties the list hands it over. -/
theorem State.Sound.drain [PyValue V] {s : State V} (h : s.Sound) :
    (step s (.drain true)).1.Sound := by
  show (s.account.give (Peek.drain s.collector true).2).Sound Change.change_idx
    s.collector.change_idx []
  rw [h.drain_eq true]
  exact h.give

/-- One operation. -/
theorem State.Sound.step [PyValue V] {s : State V} (h : s.Sound) (a : Act V) :
    (step s a).1.Sound := by
  by_cases ha : a = .drain true
  · rw [ha]
    exact h.drain
  · -- Any other operation posts its edit to the account.
    have hstep : (PendingList.step s a).1 =
        ⟨(act s.collector a).1, s.account.post s.collector.changes (edit s.collector a)⟩ := by
      unfold PendingList.step
      split
      · exact absurd rfl ha
      · rfl
    rw [hstep]
    show Account.Sound Change.change_idx (act s.collector a).1.change_idx
      (act s.collector a).1.changes _
    rw [changes_act s.collector ha, change_idx_act]
    exact h.post (change_idx_of_entry s.collector a)

/-- A run. -/
theorem sound_reached [PyValue V] (bag : BagId) (paths : Option (Finset String))
    (acts : List (Act V)) : (reached bag paths acts).Sound := by
  have hstep : ∀ (s : State V) (a : Act V), s.Sound → True → (step s a).1.Sound :=
    fun _ a h _ => h.step a
  exact serve_invariant hstep (sound_start bag paths) fun _ _ => trivial

/-- How many of the changes carry the number of a change. -/
def times (changes : List (Change V)) (change : Change V) : ℕ :=
  (changes.map Change.change_idx).count change.change_idx

/-- What holds of a collector and of the account of its pending list. -/
structure InDepositOrder [PyValue V] (s : State V) : Prop where
  /-- The numbers of the pending list grow, and none is past the counter. -/
  numbered : s.collector.Numbered
  /-- A drain and a peek answer the list as it stands: the sort moves nothing. -/
  answered : ∀ reset, (act s.collector (.drain reset)).2 = s.collector.changes
  /-- The deposits were numbered from one on, whatever was drained between them. -/
  counted : s.account.joined.map Change.change_idx = List.range' 1 s.collector.change_idx
  /-- What the drains answered, and then what is pending, follow the order of the deposits. -/
  delivered : (s.account.given ++ s.collector.changes).Sublist s.account.joined
  /-- An append with `replace` leaves one pending change of its key, the last one. -/
  replaced : ∀ change, ∃ rest last,
    (act s.collector (.append change true)).1.changes = rest ++ [last] ∧
      last.key = change.key ∧ ∀ pending ∈ rest, pending.key ≠ change.key
  /-- The deposits are those drained, those removed and those pending. -/
  balance : (s.account.given ++ s.account.removed ++ s.collector.changes).Perm s.account.joined
  /-- Each was drained once, or removed once, or is pending once. -/
  once : ∀ change ∈ s.account.joined,
    times s.account.given change + times s.account.removed change +
      times s.collector.changes change = 1

/-- A sound account says where each deposit stands. -/
theorem State.Sound.times_eq_one {s : State V} (h : s.Sound) {change : Change V}
    (hchange : change ∈ s.account.joined) :
    times s.account.given change + times s.account.removed change +
      times s.collector.changes change = 1 := by
  have hnumber : change.change_idx ∈ List.range' 1 s.collector.change_idx := by
    rw [← h.numbered]
    exact List.mem_map_of_mem hchange
  rw [List.mem_range'_1] at hnumber
  exact h.count_eq_one (by omega) (by omega)

/-- A sound state is in deposit order. -/
theorem State.Sound.inDepositOrder [PyValue V] {s : State V} (h : s.Sound) : InDepositOrder s where
  numbered := h.collector_numbered
  answered := h.drain_eq
  counted := h.numbered
  delivered := h.ordered
  replaced := s.collector.changes_append_replace
  balance := h.balance
  once _ := h.times_eq_one

/-- The pending list of a collector is in deposit order. Let any sequence of operations act on a
newborn collector: events of its Bag, appends with and without `replace`, drops, resets, drains,
peeks and moves of its prefix set. In the state reached the pending list is numbered in growing
order, up to the counter, and is what a drain answers; no number was given twice; an append with
`replace` leaves one pending change of its key, the last; and every deposited change was drained
once, or removed once by a replace, a drop or a reset, or is still pending. After a last drain none
is pending, so that each was drained once or removed once. -/
theorem pending_in_deposit_order [PyValue V] (bag : BagId) (paths : Option (Finset String))
    (acts : List (Act V)) :
    InDepositOrder (reached bag paths acts) ∧
      ∀ change ∈ (reached bag paths (acts ++ [.drain true])).account.joined,
        times (reached bag paths (acts ++ [.drain true])).account.given change +
          times (reached bag paths (acts ++ [.drain true])).account.removed change = 1 := by
  refine ⟨(sound_reached bag paths acts).inDepositOrder, ?_⟩
  intro change hchange
  have hlast : (reached bag paths (acts ++ [.drain true])).collector.changes = [] := by
    unfold reached
    rw [serve_concat]
    rfl
  have honce := (sound_reached bag paths (acts ++ [.drain true])).times_eq_one hchange
  rw [hlast] at honce
  exact honce

/-- A replace, a drop of a prefix and a second window of the same collector: the replaced change and
the dropped one are removed, the others are drained in order, and the numbers go on. -/
example :
    let change (path : String) := Delivery.Sample.change path 0
    let s := reached 0 none
      [.append (change "a") false, .append (change "b.c") false, .append (change "a") true,
        .drain false, .drop "b", .drain true, .append (change "d") false]
    s.account.given.map Change.change_idx = [3] ∧
      s.account.removed.map Change.change_idx = [1, 2] ∧
        s.collector.changes.map Change.change_idx = [4] := by decide +kernel

end PendingList
end GenropyAsgi
