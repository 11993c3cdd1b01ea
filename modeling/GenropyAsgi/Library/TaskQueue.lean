import Mathlib.Algebra.Order.BigOperators.Group.List
import Mathlib.Algebra.Order.Ring.Nat
import GenropyAsgi.Library.Listing

/-!
# A queue and its reader

`TaskQueue` is a queue with the one thread that reads it, which takes an item, and is done with it
before it takes the next one. Every item put is a task until the reader is done with it. The queue
bears its history: what was put is what the reader is done with, then what it has taken, then what
is queued, in this order, so that with no task unfinished the reader is done with all that was put.

Where queues stand in a dictionary, a figure of theirs added up over the dictionary (`tally`) moves
with the one queue that moves.
-/

namespace GenropyAsgi.Library

/-- A queue and its reader. -/
structure TaskQueue (α : Type) where
  /-- What is queued, the next item first. -/
  items : List α
  /-- What the reader has taken, and is not done with. -/
  taken : Option α
  /-- How many tasks are unfinished. -/
  unfinished_tasks : ℕ
  /-- What was ever put. -/
  puts : List α
  /-- What the reader is done with. -/
  finished : List α
  /-- The unfinished tasks are what is queued and what is taken. -/
  unfinished_eq : unfinished_tasks = items.length + taken.toList.length
  /-- Items are taken in the order in which they were put. -/
  puts_eq : puts = finished ++ (taken.toList ++ items)

namespace TaskQueue

variable {α : Type}

/-- A new queue. -/
def empty : TaskQueue α := ⟨[], none, 0, [], [], rfl, rfl⟩

/-- `put`. -/
def put (q : TaskQueue α) (x : α) : TaskQueue α where
  items := q.items ++ [x]
  taken := q.taken
  unfinished_tasks := q.unfinished_tasks + 1
  puts := q.puts ++ [x]
  finished := q.finished
  unfinished_eq := by
    rw [q.unfinished_eq, List.length_append, List.length_singleton]
    omega
  puts_eq := by
    rw [q.puts_eq, List.append_assoc, List.append_assoc]

/-- `get`, by a reader that is done with what it took before: it waits where nothing is queued. -/
def get (q : TaskQueue α) : Option (TaskQueue α) :=
  match h : q.items, h' : q.taken with
  | x :: rest, none => some
    { items := rest
      taken := some x
      unfinished_tasks := q.unfinished_tasks
      puts := q.puts
      finished := q.finished
      unfinished_eq := by
        rw [q.unfinished_eq, h, h']
        rfl
      puts_eq := by
        rw [q.puts_eq, h, h']
        rfl }
  | [], _ => none
  | _ :: _, some _ => none

/-- `task_done`, by a reader that has taken an item. -/
def task_done (q : TaskQueue α) : Option (TaskQueue α) :=
  match h : q.taken with
  | none => none
  | some x => some
    { items := q.items
      taken := none
      unfinished_tasks := q.unfinished_tasks - 1
      puts := q.puts
      finished := q.finished ++ [x]
      unfinished_eq := by
        rw [q.unfinished_eq, h]
        simp
      puts_eq := by
        rw [q.puts_eq, h, List.append_assoc]
        rfl }

/-- What a `get` makes of the queue. -/
theorem get_eq_some {q q' : TaskQueue α} (h : q.get = some q') :
    ∃ x, q.taken = none ∧ q'.taken = some x ∧ q.items = x :: q'.items ∧ q'.puts = q.puts ∧
      q'.finished = q.finished ∧ q'.unfinished_tasks = q.unfinished_tasks := by
  unfold get at h
  split at h
  · rename_i x rest hitems htaken
    cases h
    exact ⟨x, htaken, rfl, hitems, rfl, rfl, rfl⟩
  · cases h
  · cases h

/-- What a `task_done` makes of the queue. -/
theorem task_done_eq_some {q q' : TaskQueue α} (h : q.task_done = some q') :
    ∃ x, q.taken = some x ∧ q'.taken = none ∧ q'.items = q.items ∧ q'.puts = q.puts ∧
      q'.finished = q.finished ++ [x] ∧ q.unfinished_tasks = q'.unfinished_tasks + 1 := by
  unfold task_done at h
  split at h
  · cases h
  · rename_i x htaken
    cases h
    refine ⟨x, htaken, rfl, rfl, rfl, rfl, ?_⟩
    have hcount := q.unfinished_eq
    rw [htaken, Option.toList_some, List.length_singleton] at hcount
    dsimp only
    omega

/-- With no task unfinished, nothing is queued and nothing is taken. -/
theorem unfinished_eq_zero {q : TaskQueue α} :
    q.unfinished_tasks = 0 ↔ q.items = [] ∧ q.taken = none := by
  rw [q.unfinished_eq]
  cases q.taken with
  | none => simp
  | some x => simp

end TaskQueue

namespace Listing

variable {K V M : Type} [DecidableEq K]

/-- A sum over a listing is the summand of one value and a rest, which another value under its key
leaves. -/
theorem exists_sum_set [AddCommMonoid M] (f : V → M) {k : K} {v : V} {items : List (K × V)}
    (hget : get items k = some v) :
    ∃ rest, (items.map fun item => f item.2).sum = f v + rest ∧
      ∀ w, ((set items k w).map fun item => f item.2).sum = f w + rest := by
  induction items with
  | nil => cases hget
  | cons item items ih =>
    obtain ⟨i, u⟩ := item
    unfold get at hget
    by_cases hi : i = k
    · rw [if_pos hi] at hget
      cases hget
      refine ⟨_, List.sum_cons, fun w => ?_⟩
      unfold set
      rw [if_pos hi, List.map_cons, List.sum_cons]
    · rw [if_neg hi] at hget
      obtain ⟨rest, hrest, hset⟩ := ih hget
      refine ⟨f u + rest, ?_, fun w => ?_⟩
      · rw [List.map_cons, List.sum_cons, hrest, add_left_comm]
      · unfold set
        rw [if_neg hi, List.map_cons, List.sum_cons, hset, add_left_comm]

/-- What holds of the first values of a listing holds of them after an assignment that keeps it. -/
theorem forall_take_set {P : V → Prop} {k : K} {v w : V} {items : List (K × V)} {n : ℕ}
    (hget : get items k = some v) (hw : P v → P w) (h : ∀ item ∈ items.take n, P item.2) :
    ∀ item ∈ (set items k w).take n, P item.2 := by
  induction items generalizing n with
  | nil => cases hget
  | cons old items ih =>
    cases n with
    | zero => exact fun item hitem => absurd hitem List.not_mem_nil
    | succ n =>
      obtain ⟨i, u⟩ := old
      rw [List.take_succ_cons] at h
      obtain ⟨hfirst, hlater⟩ := List.forall_mem_cons.1 h
      unfold get at hget
      unfold set
      by_cases hi : i = k
      · rw [if_pos hi] at hget
        cases hget
        rw [if_pos hi, List.take_succ_cons]
        exact List.forall_mem_cons.2 ⟨hw hfirst, hlater⟩
      · rw [if_neg hi] at hget
        rw [if_neg hi, List.take_succ_cons]
        exact List.forall_mem_cons.2 ⟨hfirst, ih hget hlater⟩

end Listing

namespace OrderedDict

variable {K V M : Type} [DecidableEq K] [AddCommMonoid M]

/-- A figure of the values, added up. -/
def tally (f : V → M) (d : OrderedDict K V) : M := (d.items.map fun item => f item.2).sum

/-- The tally is the figure of one value and a rest, which another value under its key leaves. -/
theorem exists_tally_set (f : V → M) {d : OrderedDict K V} {k : K} {v : V}
    (hget : d.get k = some v) :
    ∃ rest, d.tally f = f v + rest ∧ ∀ w, (d.set k w).tally f = f w + rest :=
  Listing.exists_sum_set f hget

/-- A value whose figure is greater by something adds it to the tally. -/
theorem tally_set_add (f : V → M) {d : OrderedDict K V} {k : K} {v w : V} {x : M}
    (hget : d.get k = some v) (h : f w = f v + x) : (d.set k w).tally f = d.tally f + x := by
  obtain ⟨rest, hrest, hrest'⟩ := exists_tally_set f hget
  rw [hrest', hrest, h, add_right_comm]

/-- A value with the same figure leaves the tally. -/
theorem tally_set_same (f : V → M) {d : OrderedDict K V} {k : K} {v w : V}
    (hget : d.get k = some v) (h : f w = f v) : (d.set k w).tally f = d.tally f := by
  obtain ⟨rest, hrest, hrest'⟩ := exists_tally_set f hget
  rw [hrest', hrest, h]

/-- An assignment to a key that is there leaves the length. -/
theorem length_set {d : OrderedDict K V} {k : K} {v : V} (hget : d.get k = some v) (w : V) :
    (d.set k w).items.length = d.items.length := by
  have hk : k ∈ d.items.map Prod.fst := List.mem_map.2 ⟨_, mem_items.2 hget, rfl⟩
  have hkeys := congrArg List.length (keys_set_of_mem hk w)
  rwa [List.length_map, List.length_map] at hkeys

/-- A new key stands at the end. -/
theorem items_set_new {d : OrderedDict K V} {k : K} (hget : d.get k = none) (w : V) :
    (d.set k w).items = d.items ++ [(k, w)] := by
  refine Listing.set_of_not_mem (fun hk => ?_) w
  obtain ⟨item, hitem, rfl⟩ := List.mem_map.1 hk
  have hsome : d.get item.1 = some item.2 := get_of_mem hitem
  cases hget.symm.trans hsome

/-- A value under a new key adds its figure. -/
theorem tally_set_new (f : V → M) {d : OrderedDict K V} {k : K} (hget : d.get k = none) (w : V) :
    (d.set k w).tally f = d.tally f + f w := by
  unfold tally
  rw [items_set_new hget, List.map_append, List.sum_append, List.map_singleton, List.sum_singleton]

omit [DecidableEq K] in
/-- Two figures that agree on the values have one tally. -/
theorem tally_congr {f g : V → M} {d : OrderedDict K V}
    (h : ∀ item ∈ d.items, f item.2 = g item.2) : d.tally f = d.tally g := by
  unfold tally
  rw [List.map_congr_left h]

omit [DecidableEq K] in
/-- The tally of a sum. -/
theorem tally_add (f g : V → M) (d : OrderedDict K V) :
    d.tally (fun v => f v + g v) = d.tally f + d.tally g := by
  unfold tally
  induction d.items with
  | nil => simp
  | cons item items ih =>
    simp only [List.map_cons, List.sum_cons, ih, add_add_add_comm]

omit [DecidableEq K] in
/-- A tally of numbers is zero where every number is. -/
theorem tally_eq_zero {f : V → ℕ} {d : OrderedDict K V} :
    d.tally f = 0 ↔ ∀ item ∈ d.items, f item.2 = 0 := by
  unfold tally
  induction d.items with
  | nil => simp
  | cons item items ih =>
    rw [List.map_cons, List.sum_cons, Nat.add_eq_zero_iff, ih, List.forall_mem_cons]

omit [DecidableEq K] in
/-- A figure that is nowhere greater has no greater tally. -/
theorem tally_le {f g : V → ℕ} {d : OrderedDict K V} (h : ∀ item ∈ d.items, f item.2 ≤ g item.2) :
    d.tally f ≤ d.tally g := by
  unfold tally
  exact List.sum_le_sum h

/-- What holds of the first values of a dictionary holds of them after an assignment that keeps
it. -/
theorem forall_take_set {P : V → Prop} {d : OrderedDict K V} {k : K} {v w : V} {n : ℕ}
    (hget : d.get k = some v) (hw : P v → P w) (h : ∀ item ∈ d.items.take n, P item.2) :
    ∀ item ∈ (d.set k w).items.take n, P item.2 := Listing.forall_take_set hget hw h

end OrderedDict

end GenropyAsgi.Library
