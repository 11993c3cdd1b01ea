import Mathlib.Data.List.Basic

/-!
# A value copied over a wire

A source is copied to a reader over a first-in first-out wire: now and then the value of that moment
is put on it, and the reader replaces its copy with each value that the wire delivers. `Feed` keeps
all that has been put and how much of it has been served, so that a value on the wire is known by
its place.

Two things are then said of a copy. It is what was put last once nothing is in flight, so that a
source whose every change leaves a put behind or ahead is what the reader ends up with (`Told`). And
what all values from some place on satisfy, the copy satisfies for good once the wire has served
that place (`SettledFrom`).
-/

namespace GenropyAsgi.Library

variable {α : Type}

/-- A copy and the wire that refreshes it. -/
structure Feed (α : Type) where
  /-- What the reader holds before anything is served. -/
  first : α
  /-- All that has been put on the wire, the oldest first. -/
  sent : List α
  /-- How much of it has been served. -/
  served : ℕ
  /-- Nothing is served that was not put. -/
  served_le : served ≤ sent.length

namespace Feed

/-- A wire on which nothing has been put. -/
def new (a : α) : Feed α := ⟨a, [], 0, Nat.le_refl 0⟩

/-- The values that the reader holds one after another. -/
def values (feed : Feed α) : List α := feed.first :: feed.sent

/-- What the reader holds. -/
def copy (feed : Feed α) : α :=
  feed.values.get ⟨feed.served, Nat.lt_succ_of_le feed.served_le⟩

/-- What was put last, and the first value when nothing was. -/
def newest (feed : Feed α) : α := feed.values.getLast (List.cons_ne_nil _ _)

/-- What has been put and not served. -/
def inFlight (feed : Feed α) : List α := feed.sent.drop feed.served

/-- A value is put on the wire. -/
def put (feed : Feed α) (a : α) : Feed α where
  first := feed.first
  sent := feed.sent ++ [a]
  served := feed.served
  served_le := by
    rw [List.length_append]
    exact Nat.le_add_right_of_le feed.served_le

/-- The wire serves the oldest value in flight. -/
def serve (feed : Feed α) : Option (α × Feed α) :=
  if h : feed.served < feed.sent.length then
    some (feed.sent[feed.served], ⟨feed.first, feed.sent, feed.served + 1, h⟩)
  else none

/-- What was put last is what was just put. -/
@[simp]
theorem newest_put (feed : Feed α) (a : α) : (feed.put a).newest = a := by
  simp only [newest, values, put, ← List.cons_append]
  exact List.getLast_append_singleton _

/-- A put leaves the copy as it is. -/
@[simp]
theorem copy_put (feed : Feed α) (a : α) : (feed.put a).copy = feed.copy := by
  have hlt : feed.served < feed.values.length := Nat.lt_succ_of_le feed.served_le
  simp only [copy, values, put, List.get_eq_getElem, ← List.cons_append]
  exact List.getElem_append_left hlt

/-- What a wire serves is the new copy, and nothing that was put is changed. -/
theorem serve_eq_some {feed feed' : Feed α} {a : α} (h : feed.serve = some (a, feed')) :
    feed'.copy = a ∧ feed'.first = feed.first ∧ feed'.sent = feed.sent ∧
      feed'.served = feed.served + 1 := by
  unfold serve at h
  split_ifs at h with hlt
  cases h
  exact ⟨rfl, rfl, rfl, rfl⟩

/-- A wire that serves has the same value put last. -/
theorem newest_serve {feed feed' : Feed α} {a : α} (h : feed.serve = some (a, feed')) :
    feed'.newest = feed.newest := by
  obtain ⟨_, hfirst, hsent, _⟩ := serve_eq_some h
  simp only [newest, values, hfirst, hsent]

/-- With nothing in flight the copy is what was put last. -/
theorem copy_eq_newest {feed : Feed α} (h : feed.inFlight = []) : feed.copy = feed.newest := by
  have hserved : feed.served = feed.sent.length :=
    Nat.le_antisymm feed.served_le (List.drop_eq_nil_iff.1 h)
  simp only [copy, List.get_eq_getElem, hserved]
  exact (List.getLast_eq_getElem _).symm

/-! ## A source whose changes are pushed -/

/-- The reader is told of a value: a push is pending, or the value is what was put last. -/
def Told (pending : Prop) (a : α) (feed : Feed α) : Prop := pending ∨ feed.newest = a

/-- A reader that is told, with no push pending and nothing in flight, holds the value. -/
theorem Told.settled {pending : Prop} {a : α} {feed : Feed α} (h : Told pending a feed)
    (hpending : ¬ pending) (hwire : feed.inFlight = []) : feed.copy = a := by
  rw [copy_eq_newest hwire]
  exact h.resolve_left hpending

/-! ## From a place on -/

/-- The values from a place on satisfy `Q`; the place of the first value is zero. -/
def SettledFrom (Q : α → Prop) (n : ℕ) (feed : Feed α) : Prop := ∀ a ∈ feed.values.drop n, Q a

/-- Once the place is served, the copy satisfies `Q`. -/
theorem SettledFrom.copy {Q : α → Prop} {n : ℕ} {feed : Feed α} (h : SettledFrom Q n feed)
    (hserved : n ≤ feed.served) : Q feed.copy := by
  refine h _ (List.mem_drop_iff_getElem.2 ⟨feed.served - n, ?_, ?_⟩)
  · have hlt : feed.served < feed.values.length := Nat.lt_succ_of_le feed.served_le
    omega
  · simp only [Feed.copy, List.get_eq_getElem, Nat.add_sub_cancel' hserved]

/-- A put of a value that satisfies `Q`. -/
theorem SettledFrom.put {Q : α → Prop} {n : ℕ} {feed : Feed α} (h : SettledFrom Q n feed) {a : α}
    (ha : Q a) : SettledFrom Q n (feed.put a) := by
  intro b hb
  rw [values, Feed.put, ← List.cons_append, List.drop_append] at hb
  rcases List.mem_append.1 hb with hold | hnew
  · exact h b hold
  · rw [List.mem_singleton.1 (List.mem_of_mem_drop hnew)]
    exact ha

/-- What is served has been put before. -/
theorem SettledFrom.serve {Q : α → Prop} {n : ℕ} {feed feed' : Feed α} {a : α}
    (h : SettledFrom Q n feed) (hs : feed.serve = some (a, feed')) : SettledFrom Q n feed' := by
  obtain ⟨_, hfirst, hsent, _⟩ := serve_eq_some hs
  rw [SettledFrom, values, hfirst, hsent]
  exact h

/-- The place of the last value put, or of the next one if a push is pending. -/
def due (pending : Prop) [Decidable pending] (feed : Feed α) : ℕ :=
  feed.sent.length + if pending then 1 else 0

/-- A reader that is told of a value with `Q` holds it at the place that is due. -/
theorem Told.settledFrom {Q : α → Prop} {pending : Prop} [Decidable pending] {a : α}
    {feed : Feed α} (h : Told pending a feed) (ha : Q a) :
    SettledFrom Q (feed.due pending) feed := by
  intro b hb
  unfold due at hb
  split_ifs at hb with hpending
  · -- The place is that of the push to come, and nothing stands there yet.
    rw [values, List.drop_of_length_le (by simp)] at hb
    cases hb
  · -- The one value from the place on is the last one put.
    have hnewest : feed.newest = a := h.resolve_left hpending
    have hlt : feed.sent.length < feed.values.length := Nat.lt_succ_self _
    have hnil : feed.values.drop (feed.sent.length + 1) = [] :=
      List.drop_of_length_le (Nat.le_refl _)
    have hlast : feed.values.drop feed.sent.length = [feed.newest] := by
      rw [List.drop_eq_getElem_cons hlt, hnil]
      exact congrArg (fun a => [a]) (List.getLast_eq_getElem _).symm
    rw [Nat.add_zero, hlast, List.mem_singleton] at hb
    rw [hb, hnewest]
    exact ha

end Feed
end GenropyAsgi.Library
