import Mathlib.Data.List.Nodup
import GenropyAsgi.Library.Ledger

/-!
# The account of a numbered list

A list of pending entries is kept by edits, and is now and then handed over whole to a reader. Each
entry carries a number, and an entry that joins carries the next one. An `Account` of the list has
every entry that joined it, those that were handed over, and those that an edit took off.

`Sound` is what the edits and the readings keep (`Sound.post`, `Sound.give`): the numbers run from
one on without gaps, what was handed over and what is pending follow each other in the order in
which they joined, and what joined is what was handed over, what was removed and what is pending. So
the pending list is in the order of its numbers (`Sound.increasing`), and each number given stands
at exactly one place (`Sound.count_eq_one`).
-/

namespace GenropyAsgi.Library

variable {α : Type}

/-- The account of a list. -/
structure Account (α : Type) where
  /-- The entries that joined the list. -/
  joined : List α
  /-- Those that were handed over. -/
  given : List α
  /-- Those that an edit took off. -/
  removed : List α

namespace Account

/-- The account of a newborn list. -/
def empty : Account α := ⟨[], [], []⟩

/-- An edit of a list, on its account. -/
def post (account : Account α) (xs : List α) (edit : Edit α) : Account α :=
  { account with
    joined := account.joined ++ edit.entry.toList
    removed := account.removed ++ edit.taken xs }

/-- A list handed over, on its account. -/
def give (account : Account α) (xs : List α) : Account α :=
  { account with given := account.given ++ xs }

/-- What holds of the account of a list whose last entry has the number `n`. -/
structure Sound (number : α → ℕ) (n : ℕ) (xs : List α) (account : Account α) : Prop where
  /-- The entries were numbered from one on. -/
  numbered : account.joined.map number = List.range' 1 n
  /-- What was handed over and what is pending follow the order in which they joined. -/
  ordered : (account.given ++ xs).Sublist account.joined
  /-- Nothing is lost, nothing is doubled. -/
  balance : (account.given ++ account.removed ++ xs).Perm account.joined

/-- The account of a newborn list is sound. -/
theorem sound_empty (number : α → ℕ) : (empty : Account α).Sound number 0 [] where
  numbered := rfl
  ordered := List.Sublist.refl []
  balance := List.Perm.refl []

namespace Sound

variable {number : α → ℕ} {n : ℕ} {xs : List α} {account : Account α}

/-- An edit whose entry, if it has one, carries the next number. -/
theorem post (h : account.Sound number n xs) {edit : Edit α}
    (hentry : ∀ x ∈ edit.entry, number x = n + 1) :
    (account.post xs edit).Sound number (n + edit.entry.toList.length) (edit.apply xs) where
  numbered := by
    show (account.joined ++ edit.entry.toList).map number = _
    rw [List.map_append, h.numbered]
    cases hx : edit.entry with
    | none => simp
    | some x =>
      have hnumber : number x = 1 + n := by
        rw [hentry x hx]
        exact Nat.add_comm n 1
      simp [hnumber, List.range'_1_concat]
  ordered := by
    show (account.given ++ (xs.filter _ ++ edit.entry.toList)).Sublist
      (account.joined ++ edit.entry.toList)
    rw [← List.append_assoc]
    -- What the edit leaves is in order, and the entry joins behind it on both sides.
    have hkept : (account.given ++ xs.filter fun x => !edit.covers x).Sublist account.joined :=
      (List.filter_sublist.append_left account.given).trans h.ordered
    exact hkept.append_right edit.entry.toList
  balance := by
    -- What is taken off and what is left make up the list again, with the entry.
    have hparts : account.given ++ (account.removed ++ edit.taken xs) ++ edit.apply xs =
        account.given ++ account.removed ++ (edit.taken xs ++ edit.apply xs) := by
      simp only [List.append_assoc]
    show (account.given ++ (account.removed ++ edit.taken xs) ++ edit.apply xs).Perm
      (account.joined ++ edit.entry.toList)
    rw [hparts]
    refine ((edit.taken_append_apply_perm xs).append_left _).trans ?_
    rw [← List.append_assoc]
    exact h.balance.append_right edit.entry.toList

/-- The list handed over. -/
theorem give (h : account.Sound number n xs) : (account.give xs).Sound number n [] where
  numbered := h.numbered
  ordered := by
    show (account.given ++ xs ++ []).Sublist account.joined
    rw [List.append_nil]
    exact h.ordered
  balance := by
    show (account.given ++ xs ++ account.removed ++ []).Perm account.joined
    rw [List.append_nil, List.append_assoc]
    have hswap : (xs ++ account.removed).Perm (account.removed ++ xs) := List.perm_append_comm
    refine (hswap.append_left account.given).trans ?_
    rw [← List.append_assoc]
    exact h.balance

/-- The entries joined in the order of their numbers. -/
theorem pairwise_joined (h : account.Sound number n xs) :
    account.joined.Pairwise fun x y => number x < number y := by
  rw [← List.pairwise_map, h.numbered]
  exact List.pairwise_lt_range'

/-- The pending list is in the order of its numbers. -/
theorem increasing (h : account.Sound number n xs) :
    xs.Pairwise fun x y => number x < number y :=
  h.pairwise_joined.sublist ((List.sublist_append_right account.given xs).trans h.ordered)

/-- No pending entry is numbered past the last one. -/
theorem bounded (h : account.Sound number n xs) : ∀ x ∈ xs, number x ≤ n := by
  intro x hx
  have hjoined : x ∈ account.joined :=
    h.ordered.subset (List.mem_append_right account.given hx)
  have hnumber : number x ∈ List.range' 1 n := by
    rw [← h.numbered]
    exact List.mem_map_of_mem hjoined
  rw [List.mem_range'_1] at hnumber
  omega

/-- Each number given stands at one place: handed over once, removed once, or pending once. -/
theorem count_eq_one (h : account.Sound number n xs) {i : ℕ} (hpos : 0 < i) (hle : i ≤ n) :
    (account.given.map number).count i + (account.removed.map number).count i +
      (xs.map number).count i = 1 := by
  have hmem : i ∈ List.range' 1 n := List.mem_range'_1.2 (by omega)
  have hone : (List.range' 1 n).count i = 1 := List.count_eq_one_of_mem List.nodup_range' hmem
  rw [← h.numbered, ← (h.balance.map number).count_eq i] at hone
  simpa only [List.map_append, List.count_append] using hone

end Sound
end Account
end GenropyAsgi.Library
