import GenropyAsgi.Library.Ledger

/-!
# The last entry of each key

The entries of a list stand under keys, and an edit takes out entries of the key of its own entry
only. Whatever the edits take out, the entry that came last under a key is still there:
`KeepsLatest` is kept by every such edit of a part of the list, and by every rearrangement. An edit
that takes out what stands under its key leaves one entry of the key at most.
-/

namespace GenropyAsgi.Library

variable {α K : Type} [DecidableEq K] (key : α → K)

/-- The entry that came last under a key. -/
def latest (k : K) (history : List α) : Option α :=
  (history.filter fun x => decide (key x = k)).getLast?

/-- How many entries stand under a key. -/
def countOf (k : K) (xs : List α) : ℕ := xs.countP fun x => decide (key x = k)

/-- What is kept of a history: some of its entries, each as often as it came at most, and the last
one of every key. -/
structure KeepsLatest (history kept : List α) : Prop where
  /-- Nothing is kept that did not come. -/
  subperm : kept.Subperm history
  /-- The last entry of every key is kept. -/
  latest : ∀ k x, latest key k history = some x → x ∈ kept

/-- An edit that takes out entries of the key of its own entry only. -/
def Edit.Replaces (edit : Edit α) : Prop :=
  ∀ x, edit.covers x = true → ∃ entry, edit.entry = some entry ∧ key x = key entry

/-- An edit that takes out all entries of a key where its own entry stands under it. -/
def Edit.Coalesces (k : K) (edit : Edit α) : Prop :=
  ∀ entry, edit.entry = some entry → key entry = k → ∀ x, key x = k → edit.covers x = true

/-- The edit that does nothing. -/
def Edit.idle : Edit α := ⟨fun _ => false, none⟩

/-- The edit that does nothing leaves the list. -/
@[simp]
theorem Edit.apply_idle (xs : List α) : Edit.apply xs Edit.idle = xs := by
  simp [Edit.apply, Edit.idle]

variable {key}

/-- The last entry of a key stands under it. -/
theorem key_latest {k : K} {history : List α} {x : α} (h : latest key k history = some x) :
    key x = k := by
  have hmem := List.mem_of_getLast? h
  simpa using (List.mem_filter.1 hmem).2

/-- The last entry of a key in two histories, one after the other. -/
theorem latest_append (k : K) (history later : List α) :
    latest key k (history ++ later) = (latest key k later).or (latest key k history) := by
  rw [latest, List.filter_append, List.getLast?_append]
  rfl

/-- A history of nothing has no last entry. -/
@[simp]
theorem latest_nil (k : K) : latest key k ([] : List α) = none := rfl

/-- The last entry of a history of one. -/
theorem latest_singleton (k : K) (x : α) :
    latest key k [x] = if key x = k then some x else none := by
  by_cases h : key x = k
  · simp [latest, h]
  · simp [latest, h]

namespace KeepsLatest

variable {history kept kept' : List α}

/-- Of nothing, nothing is kept. -/
theorem nil : KeepsLatest key ([] : List α) [] where
  subperm := List.Subperm.refl []
  latest := by
    intro k x h
    cases h

/-- The order of what is kept does not matter. -/
theorem perm (h : KeepsLatest key history kept) (hperm : kept.Perm kept') :
    KeepsLatest key history kept' where
  subperm := hperm.symm.subperm.trans h.subperm
  latest := fun k x hx => hperm.mem_iff.1 (h.latest k x hx)

/-- An edit of a part of what is kept: its entry is the last one of its key now, and what it takes
out was not the last one of any other. -/
theorem edit {queue others : List α} {edit : Edit α}
    (h : KeepsLatest key history (queue ++ others)) (hedit : edit.Replaces key) :
    KeepsLatest key (history ++ edit.entry.toList) (edit.apply queue ++ others) where
  subperm := by
    -- What is left of the part, what is elsewhere, and the entry.
    have hleft : (queue.filter (fun x => !edit.covers x) ++ others).Subperm history :=
      (List.filter_sublist.append (List.Sublist.refl others)).subperm.trans h.subperm
    have hentry := hleft.append (List.Subperm.refl edit.entry.toList)
    have hperm : (edit.apply queue ++ others).Perm
        (queue.filter (fun x => !edit.covers x) ++ others ++ edit.entry.toList) := by
      rw [Edit.apply, List.append_assoc, List.append_assoc]
      exact List.Perm.append_left _ List.perm_append_comm
    exact hperm.subperm.trans hentry
  latest := by
    intro k x hx
    rw [latest_append] at hx
    cases hentry : edit.entry with
    | none =>
      -- Without an entry nothing is taken out.
      rw [hentry, Option.toList_none, latest_nil, Option.none_or] at hx
      have hmem := h.latest k x hx
      have hcovers : edit.covers x = false := by
        by_contra hcovers
        obtain ⟨entry, hsome, _⟩ := hedit x (by simpa using hcovers)
        rw [hentry] at hsome
        cases hsome
      simpa [Edit.apply, hentry, hcovers] using hmem
    | some entry =>
      rw [hentry, Option.toList_some, latest_singleton] at hx
      by_cases hkey : key entry = k
      · -- The entry itself.
        rw [if_pos hkey, Option.some_or] at hx
        cases hx
        simp [Edit.apply, hentry]
      · rw [if_neg hkey, Option.none_or] at hx
        have hmem := h.latest k x hx
        have hcovers : edit.covers x = false := by
          by_contra hcovers
          obtain ⟨entry', hsome, hsame⟩ := hedit x (by simpa using hcovers)
          rw [hentry] at hsome
          cases hsome
          exact hkey (hsame.symm.trans (key_latest hx))
        simp only [List.mem_append] at hmem ⊢
        rcases hmem with hqueue | hothers
        · exact Or.inl (List.mem_append_left _ (List.mem_filter.2 ⟨hqueue, by simp [hcovers]⟩))
        · exact Or.inr hothers

end KeepsLatest

/-- How many entries of a key an edit leaves: one at most, where there was one at most. -/
theorem countOf_apply_le {k : K} {queue : List α} {edit : Edit α} (hedit : edit.Coalesces key k)
    (h : countOf key k queue ≤ 1) : countOf key k (edit.apply queue) ≤ 1 := by
  have hfilter : countOf key k (queue.filter fun x => !edit.covers x) ≤ countOf key k queue :=
    List.filter_sublist.countP_le
  rw [countOf, Edit.apply, List.countP_append]
  cases hentry : edit.entry with
  | none =>
    rw [Option.toList_none, List.countP_nil, Nat.add_zero]
    exact Nat.le_trans hfilter h
  | some entry =>
    rw [Option.toList_some, List.countP_singleton]
    by_cases hkey : key entry = k
    · -- Whatever stood under the key has been taken out.
      have hnone : (queue.filter fun x => !edit.covers x).countP
          (fun x => decide (key x = k)) = 0 := by
        rw [List.countP_eq_zero]
        intro x hx
        have hcovers := (List.mem_filter.1 hx).2
        intro hxk
        rw [hedit entry hentry hkey x (of_decide_eq_true hxk)] at hcovers
        cases hcovers
      rw [hnone]
      simp [hkey]
    · rw [if_neg (by simpa using hkey), Nat.add_zero]
      exact Nat.le_trans hfilter h

/-- How many entries of a key two lists have. -/
theorem countOf_append (k : K) (xs ys : List α) :
    countOf key k (xs ++ ys) = countOf key k xs + countOf key k ys := List.countP_append

/-- The order does not count. -/
theorem countOf_perm {k : K} {xs ys : List α} (h : xs.Perm ys) :
    countOf key k xs = countOf key k ys := h.countP_eq _

end GenropyAsgi.Library
