import Mathlib.Data.List.Sort

/-!
# Two-way merges by a key

`mergeOn key xs ys` yields at each step the smaller of the two heads, and the head of `xs` on a tie:
what a two-way `heapq.merge` computes, whether or not its inputs are sorted. It is `List.merge` at
the order of the keys, written by structural recursion so that the kernel evaluates it, and
`mergeOn_eq_merge` brings that function's lemmas over: a merge is a permutation of its inputs,
sorted when they are, and it keeps the order of each of them (`mergeOn_filter`).
-/

namespace GenropyAsgi.Library

variable {α K : Type} [LinearOrder K]

/-- The merge of `x :: xs` with a list, given the merge `rest` of `xs` with any list. -/
def mergeHead (key : α → K) (x : α) (xs : List α) (rest : List α → List α) : List α → List α
  | [] => x :: xs
  | y :: ys => if key x ≤ key y then x :: rest (y :: ys) else y :: mergeHead key x xs rest ys

/-- The merge of two lists by a key; ties go to the first list. -/
def mergeOn (key : α → K) : List α → List α → List α
  | [] => fun ys => ys
  | x :: xs => mergeHead key x xs (mergeOn key xs)

/-- Nothing merged with a list is that list. -/
@[simp]
theorem mergeOn_nil (key : α → K) (ys : List α) : mergeOn key [] ys = ys := rfl

/-- A list merged with nothing is that list. -/
@[simp]
theorem mergeOn_nil_right (key : α → K) (xs : List α) : mergeOn key xs [] = xs := by
  cases xs <;> rfl

/-- The smaller head comes first, the first list's on a tie. -/
theorem mergeOn_cons_cons (key : α → K) (x y : α) (xs ys : List α) :
    mergeOn key (x :: xs) (y :: ys) =
      if key x ≤ key y then x :: mergeOn key xs (y :: ys) else y :: mergeOn key (x :: xs) ys := rfl

/-- The merge is `List.merge` at the order of the keys. -/
theorem mergeOn_eq_merge (key : α → K) :
    ∀ xs ys : List α, mergeOn key xs ys = List.merge xs ys fun a b => decide (key a ≤ key b)
  | [], ys => by simp
  | x :: xs, [] => by simp
  | x :: xs, y :: ys => by
    rw [mergeOn_cons_cons, List.cons_merge_cons, mergeOn_eq_merge key xs (y :: ys),
      mergeOn_eq_merge key (x :: xs) ys]
    simp only [decide_eq_true_eq]

/-- A merge is a permutation of its two inputs. -/
theorem mergeOn_perm (key : α → K) (xs ys : List α) : (mergeOn key xs ys).Perm (xs ++ ys) := by
  rw [mergeOn_eq_merge]
  exact List.merge_perm_append _

/-- The elements of a merge are those of its two inputs. -/
@[simp]
theorem mem_mergeOn {key : α → K} {xs ys : List α} {a : α} :
    a ∈ mergeOn key xs ys ↔ a ∈ xs ∨ a ∈ ys := by
  rw [(mergeOn_perm key xs ys).mem_iff, List.mem_append]

/-- The merge of two lists sorted by the key is sorted by the key. -/
theorem mergeOn_sorted {key : α → K} {xs ys : List α}
    (hx : xs.Pairwise fun a b => key a ≤ key b) (hy : ys.Pairwise fun a b => key a ≤ key b) :
    (mergeOn key xs ys).Pairwise fun a b => key a ≤ key b := by
  rw [mergeOn_eq_merge]
  have h := @List.pairwise_merge α (fun a b : α => decide (key a ≤ key b))
    (fun a b c hab hbc => by
      simp only [decide_eq_true_eq] at hab hbc ⊢
      exact le_trans hab hbc)
    (fun a b => by simpa using le_total (key a) (key b)) xs ys
    (hx.imp fun h => by simpa using h) (hy.imp fun h => by simpa using h)
  exact h.imp fun h => by simpa using h

/-- The first input is found in the merge in its own order. -/
theorem sublist_mergeOn_left (key : α → K) :
    ∀ xs ys : List α, xs.Sublist (mergeOn key xs ys)
  | [], _ => List.nil_sublist _
  | x :: xs, [] => by rw [mergeOn_nil_right]
  | x :: xs, y :: ys => by
    rw [mergeOn_cons_cons]
    split_ifs
    · exact (sublist_mergeOn_left key xs (y :: ys)).cons_cons x
    · exact (sublist_mergeOn_left key (x :: xs) ys).cons y

/-- So is the second one. -/
theorem sublist_mergeOn_right (key : α → K) :
    ∀ xs ys : List α, ys.Sublist (mergeOn key xs ys)
  | [], _ => List.Sublist.refl _
  | x :: xs, [] => List.nil_sublist _
  | x :: xs, y :: ys => by
    rw [mergeOn_cons_cons]
    split_ifs
    · exact (sublist_mergeOn_right key xs (y :: ys)).cons x
    · exact (sublist_mergeOn_right key (x :: xs) ys).cons_cons y

/-- A merge keeps the order of each input: what a test keeps of the first list and drops of the
second one is found in the merge as it stood. -/
theorem mergeOn_filter (key : α → K) (p : α → Bool) :
    ∀ xs ys : List α, (∀ x ∈ xs, p x = true) → (∀ y ∈ ys, p y = false) →
      (mergeOn key xs ys).filter p = xs
  | [], ys, _, hy => by
    rw [mergeOn_nil, List.filter_eq_nil_iff]
    intro y hmem
    simp [hy y hmem]
  | x :: xs, [], hx, _ => by
    rw [mergeOn_nil_right, List.filter_eq_self]
    exact hx
  | x :: xs, y :: ys, hx, hy => by
    have h₁ := mergeOn_filter key p xs (y :: ys) (fun a ha => hx a (List.mem_cons_of_mem x ha)) hy
    have h₂ := mergeOn_filter key p (x :: xs) ys hx fun b hb => hy b (List.mem_cons_of_mem y hb)
    have hpx : p x = true := hx x (by simp)
    have hpy : p y = false := hy y (by simp)
    -- The head that comes first is kept if it is the first list's.
    rw [mergeOn_cons_cons]
    split_ifs
    · rw [List.filter_cons_of_pos hpx, h₁]
    · rw [List.filter_cons_of_neg (by simp [hpy]), h₂]

end GenropyAsgi.Library
