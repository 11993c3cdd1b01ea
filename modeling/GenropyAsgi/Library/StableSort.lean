import GenropyAsgi.Library.Merge

/-!
# Stable sorts, and merges compared with them

`sortOn key` is `List.mergeSort` at the order of the keys. A list that is sorted by a key is told by
its classes, the sublists of the elements of one key (`eq_of_sorted_of_classes`), and a stable sort
keeps every class as it stands in its input (`sortOn_class`); so a stable sort commutes with every
filter.

A merge of two lists that are sorted by its own key can be compared with a sort by another key:
`mergeOn_pairwise_iff` says when the merge is in order for any relation, `mergeOn_const` what it
does with a list of one key, and `filter_mergeOn` when a filter goes through it.
-/

namespace GenropyAsgi.Library

variable {α β K : Type} [LinearOrder K]

/-! ## Sorted lists and their classes -/

/-- The elements of one key, in their order. -/
def classOf (key : α → K) (t : K) (xs : List α) : List α := xs.filter fun a => decide (key a = t)

/-- The elements of a class. -/
@[simp]
theorem mem_classOf {key : α → K} {t : K} {xs : List α} {a : α} :
    a ∈ classOf key t xs ↔ a ∈ xs ∧ key a = t := by
  simp [classOf]

/-- The class of a list with a first element. -/
theorem classOf_cons (key : α → K) (t : K) (x : α) (xs : List α) :
    classOf key t (x :: xs) = if key x = t then x :: classOf key t xs else classOf key t xs := by
  simp [classOf, List.filter_cons]

/-- The class of two lists, one after the other. -/
@[simp]
theorem classOf_append (key : α → K) (t : K) (xs ys : List α) :
    classOf key t (xs ++ ys) = classOf key t xs ++ classOf key t ys := by
  simp [classOf]

/-- The first key of a sorted list with the same classes as another one. -/
theorem le_head_of_classes {key : α → K} {x y : α} {xs ys : List α}
    (hx : (x :: xs).Pairwise fun a b => key a ≤ key b)
    (h : ∀ t, classOf key t (x :: xs) = classOf key t (y :: ys)) : key x ≤ key y := by
  have hmem : y ∈ classOf key (key y) (x :: xs) := by
    rw [h (key y)]
    simp
  rcases List.mem_cons.1 (mem_classOf.1 hmem).1 with rfl | hy
  · exact le_refl _
  · exact (List.pairwise_cons.1 hx).1 y hy

/-- Two lists sorted by a key are the same as soon as their classes are. -/
theorem eq_of_sorted_of_classes (key : α → K) :
    ∀ {xs ys : List α}, xs.Pairwise (fun a b => key a ≤ key b) →
      ys.Pairwise (fun a b => key a ≤ key b) →
        (∀ t, classOf key t xs = classOf key t ys) → xs = ys
  | [], [], _, _, _ => rfl
  | [], y :: ys, _, _, h => by
    have hy := h (key y)
    rw [classOf_cons, if_pos rfl] at hy
    cases hy
  | x :: xs, [], _, _, h => by
    have hx := h (key x)
    rw [classOf_cons, if_pos rfl] at hx
    cases hx
  | x :: xs, y :: ys, hx, hy, h => by
    -- The two heads have the same key, and open the same class.
    have hkey : key x = key y :=
      le_antisymm (le_head_of_classes hx h) (le_head_of_classes hy fun t => (h t).symm)
    have hhead := h (key x)
    rw [classOf_cons, classOf_cons, if_pos rfl, if_pos hkey.symm] at hhead
    obtain ⟨rfl, htail⟩ := List.cons.inj hhead
    have hrest : ∀ t, classOf key t xs = classOf key t ys := by
      intro t
      have ht := h t
      rw [classOf_cons, classOf_cons] at ht
      split_ifs at ht
      · exact (List.cons.inj ht).2
      · exact ht
    rw [eq_of_sorted_of_classes key (List.pairwise_cons.1 hx).2 (List.pairwise_cons.1 hy).2 hrest]

/-- The images of two sorted lists under a map that shows the key are the same exactly when the
images of their classes are. -/
theorem map_eq_iff_classes {key : α → K} {f : α → β} {shown : β → K}
    (hshown : ∀ a, shown (f a) = key a) {xs ys : List α}
    (hx : xs.Pairwise fun a b => key a ≤ key b) (hy : ys.Pairwise fun a b => key a ≤ key b) :
    xs.map f = ys.map f ↔ ∀ t, (classOf key t xs).map f = (classOf key t ys).map f := by
  have hclass : ∀ t (zs : List α), (classOf key t zs).map f = classOf shown t (zs.map f) := by
    intro t zs
    simp only [classOf, List.filter_map]
    congr 1
    refine List.filter_congr fun a _ => ?_
    rw [Function.comp_apply, hshown]
  have hsorted : ∀ {zs : List α}, zs.Pairwise (fun a b => key a ≤ key b) →
      (zs.map f).Pairwise fun a b => shown a ≤ shown b := by
    intro zs hz
    rw [List.pairwise_map]
    exact hz.imp fun hab => by rwa [hshown, hshown]
  simp only [hclass]
  constructor
  · intro h t
    rw [h]
  · exact eq_of_sorted_of_classes shown (hsorted hx) (hsorted hy)

/-! ## The stable sort -/

/-- The stable sort by a key. -/
def sortOn (key : α → K) (xs : List α) : List α :=
  xs.mergeSort fun a b => decide (key a ≤ key b)

/-- The order of the keys, as `mergeSort` wants it. -/
theorem le_trans_key (key : α → K) (a b c : α) (hab : decide (key a ≤ key b) = true)
    (hbc : decide (key b ≤ key c) = true) : decide (key a ≤ key c) = true := by
  rw [decide_eq_true_eq] at hab hbc ⊢
  exact le_trans hab hbc

/-- Any two keys compare. -/
theorem le_total_key (key : α → K) (a b : α) :
    (decide (key a ≤ key b) || decide (key b ≤ key a)) = true := by
  rw [Bool.or_eq_true, decide_eq_true_eq, decide_eq_true_eq]
  exact le_total _ _

/-- A sort is a permutation. -/
theorem sortOn_perm (key : α → K) (xs : List α) : (sortOn key xs).Perm xs :=
  List.mergeSort_perm xs _

/-- A sort is sorted. -/
theorem sortOn_sorted (key : α → K) (xs : List α) :
    (sortOn key xs).Pairwise fun a b => key a ≤ key b := by
  have h := List.pairwise_mergeSort (le_trans_key key) (le_total_key key) xs
  exact h.imp fun hab => by simpa using hab

/-- A stable sort keeps every class as it stands. -/
theorem sortOn_class (key : α → K) (t : K) (xs : List α) :
    classOf key t (sortOn key xs) = classOf key t xs := by
  -- The class is a sorted sublist of the input, so it is one of the sort.
  have hclass : (classOf key t xs).Pairwise fun a b => decide (key a ≤ key b) = true := by
    rw [List.pairwise_iff_forall_sublist]
    intro a b hab
    have ha : a ∈ classOf key t xs := hab.subset (by simp)
    have hb : b ∈ classOf key t xs := hab.subset (by simp)
    rw [decide_eq_true_eq, (mem_classOf.1 ha).2, (mem_classOf.1 hb).2]
  have hsub : (classOf key t xs).Sublist (sortOn key xs) :=
    List.sublist_mergeSort (le_trans_key key) (le_total_key key) hclass List.filter_sublist
  have hself : classOf key t (classOf key t xs) = classOf key t xs := by
    rw [classOf, List.filter_eq_self]
    intro a ha
    exact decide_eq_true (mem_classOf.1 ha).2
  have hin : (classOf key t xs).Sublist (classOf key t (sortOn key xs)) := by
    have h := hsub.filter fun a => decide (key a = t)
    rwa [show (classOf key t xs).filter (fun a => decide (key a = t)) = classOf key t xs from
      hself] at h
  have hlength := ((sortOn_perm key xs).filter fun a => decide (key a = t)).length_eq
  exact (hin.eq_of_length hlength.symm).symm

/-- A stable sort commutes with a filter. -/
theorem filter_sortOn (key : α → K) (p : α → Bool) (xs : List α) :
    (sortOn key xs).filter p = sortOn key (xs.filter p) := by
  refine eq_of_sorted_of_classes key ((sortOn_sorted key xs).filter p)
    (sortOn_sorted key _) fun t => ?_
  have hcomm : ∀ zs : List α, classOf key t (zs.filter p) = (classOf key t zs).filter p := by
    intro zs
    simp only [classOf, List.filter_filter, Bool.and_comm]
  rw [sortOn_class, hcomm, hcomm, sortOn_class]

/-! ## Merges -/

/-- A merge of two lists in the order of its key is in order for a relation exactly when the two
lists are, and every pair across them is, taken as the merge takes it. -/
theorem mergeOn_pairwise_iff {key : α → K} {R : α → α → Prop} :
    ∀ {xs ys : List α}, xs.Pairwise (fun a b => key a ≤ key b) →
      ys.Pairwise (fun a b => key a ≤ key b) →
        ((mergeOn key xs ys).Pairwise R ↔ xs.Pairwise R ∧ ys.Pairwise R ∧
          ∀ x ∈ xs, ∀ y ∈ ys, if key x ≤ key y then R x y else R y x)
  | [], ys, _, _ => by simp
  | x :: xs, [], _, _ => by simp
  | x :: xs, y :: ys, hx, hy => by
    obtain ⟨hxhead, hxs⟩ := List.pairwise_cons.1 hx
    obtain ⟨hyhead, hys⟩ := List.pairwise_cons.1 hy
    rw [mergeOn_cons_cons]
    split_ifs with hkey
    · -- The head of the first list comes before everything of the second one.
      have hbefore : ∀ b ∈ y :: ys, key x ≤ key b := by
        intro b hb
        rcases List.mem_cons.1 hb with rfl | hb
        · exact hkey
        · exact le_trans hkey (hyhead b hb)
      rw [List.pairwise_cons, mergeOn_pairwise_iff hxs hy]
      constructor
      · rintro ⟨hfirst, hrest, hsecond, hcross⟩
        refine ⟨List.pairwise_cons.2 ⟨fun b hb => hfirst b (by simp [hb]), hrest⟩, hsecond, ?_⟩
        intro a ha b hb
        rcases List.mem_cons.1 ha with rfl | ha
        · rw [if_pos (hbefore b hb)]
          exact hfirst b (mem_mergeOn.2 (Or.inr hb))
        · exact hcross a ha b hb
      · rintro ⟨hfirst, hsecond, hcross⟩
        obtain ⟨hhead, hrest⟩ := List.pairwise_cons.1 hfirst
        refine ⟨?_, hrest, hsecond, fun a ha b hb => hcross a (List.mem_cons_of_mem x ha) b hb⟩
        intro b hb
        rcases mem_mergeOn.1 hb with hb | hb
        · exact hhead b hb
        · have h := hcross x List.mem_cons_self b hb
          rwa [if_pos (hbefore b hb)] at h
    · -- The head of the second list comes before everything of the first one.
      have hafter : ∀ a ∈ x :: xs, ¬ key a ≤ key y := by
        intro a ha hle
        rcases List.mem_cons.1 ha with rfl | ha
        · exact hkey hle
        · exact hkey (le_trans (hxhead a ha) hle)
      rw [List.pairwise_cons, mergeOn_pairwise_iff hx hys]
      constructor
      · rintro ⟨hfirst, hrest, hsecond, hcross⟩
        refine ⟨hrest, List.pairwise_cons.2 ⟨fun b hb => hfirst b (by simp [hb]), hsecond⟩, ?_⟩
        intro a ha b hb
        rcases List.mem_cons.1 hb with rfl | hb
        · rw [if_neg (hafter a ha)]
          exact hfirst a (mem_mergeOn.2 (Or.inl ha))
        · exact hcross a ha b hb
      · rintro ⟨hfirst, hsecond, hcross⟩
        obtain ⟨hhead, hrest⟩ := List.pairwise_cons.1 hsecond
        refine ⟨?_, hfirst, hrest, fun a ha b hb => hcross a ha b (List.mem_cons_of_mem y hb)⟩
        intro b hb
        rcases mem_mergeOn.1 hb with hb | hb
        · have h := hcross b hb y List.mem_cons_self
          rwa [if_neg (hafter b hb)] at h
        · exact hhead b hb
termination_by xs ys => xs.length + ys.length

/-- The merge of a sorted list with a list of one key: what is not later than that key comes before
the list, and the rest after it. -/
theorem mergeOn_const {key : α → K} {t : K} :
    ∀ {xs ys : List α}, xs.Pairwise (fun a b => key a ≤ key b) → (∀ y ∈ ys, key y = t) →
      mergeOn key xs ys = xs.filter (fun a => decide (key a ≤ t)) ++ ys ++
        xs.filter fun a => decide (t < key a)
  | [], ys, _, _ => by simp
  | x :: xs, [], hx, hy => by
    obtain ⟨hhead, hxs⟩ := List.pairwise_cons.1 hx
    have ih := mergeOn_const hxs hy
    rw [mergeOn_nil_right] at ih ⊢
    by_cases hkey : key x ≤ t
    · rw [List.filter_cons_of_pos (by simpa using hkey),
        List.filter_cons_of_neg (by simpa using hkey), List.cons_append, List.cons_append, ← ih]
    · -- Everything is later.
      have hlater : ∀ a ∈ x :: xs, t < key a := by
        intro a ha
        rcases List.mem_cons.1 ha with rfl | ha
        · exact not_le.1 hkey
        · exact lt_of_lt_of_le (not_le.1 hkey) (hhead a ha)
      rw [List.filter_eq_nil_iff.2 fun a ha => by simpa using hlater a ha,
        List.filter_eq_self.2 fun a ha => by simpa using hlater a ha]
      rfl
  | x :: xs, y :: ys, hx, hy => by
    obtain ⟨hhead, hxs⟩ := List.pairwise_cons.1 hx
    have hkeys := hy y List.mem_cons_self
    rw [mergeOn_cons_cons, hkeys]
    split_ifs with hkey
    · rw [mergeOn_const hxs hy, List.filter_cons_of_pos (by simpa using hkey),
        List.filter_cons_of_neg (by simpa using hkey)]
      rfl
    · have hlater : ∀ a ∈ x :: xs, ¬ key a ≤ t := by
        intro a ha hle
        rcases List.mem_cons.1 ha with rfl | ha
        · exact hkey hle
        · exact hkey (le_trans (hhead a ha) hle)
      rw [mergeOn_const hx fun b hb => hy b (List.mem_cons_of_mem y hb),
        List.filter_eq_nil_iff.2 fun a ha => by simpa using hlater a ha]
      rfl
termination_by xs ys => xs.length + ys.length

/-- What a test keeps of a list has no greater key before it. -/
def Dominates (key : α → K) (p : α → Bool) (xs : List α) : Prop :=
  xs.Pairwise fun a b => p b = true → key a ≤ key b

/-- So it is with a sorted list. -/
theorem dominates_of_sorted {key : α → K} (p : α → Bool) {xs : List α}
    (h : xs.Pairwise fun a b => key a ≤ key b) : Dominates key p xs := by
  refine List.Pairwise.imp ?_ h
  intro a b hab _
  exact hab

/-- So it is with a list followed by what the test drops. -/
theorem Dominates.append_dropped {key : α → K} {p : α → Bool} {xs ys : List α}
    (h : Dominates key p xs) (hy : ∀ y ∈ ys, p y = false) : Dominates key p (xs ++ ys) := by
  rw [Dominates, List.pairwise_append]
  refine ⟨h, ?_, ?_⟩
  · rw [List.pairwise_iff_forall_sublist]
    intro a b hab hpb
    rw [hy b (hab.subset (by simp))] at hpb
    cases hpb
  · intro a _ b hb hpb
    rw [hy b hb] at hpb
    cases hpb

/-- So it is with the merge of a sorted list and of what the test drops, in whatever order that
is. -/
theorem dominates_mergeOn {key : α → K} {p : α → Bool} :
    ∀ {xs ys : List α}, xs.Pairwise (fun a b => key a ≤ key b) → (∀ y ∈ ys, p y = false) →
      Dominates key p (mergeOn key xs ys)
  | [], ys, _, hy => by
    have h : Dominates key p ([] ++ ys) :=
      Dominates.append_dropped (show Dominates key p [] from List.Pairwise.nil) hy
    exact h
  | x :: xs, [], hx, _ => dominates_of_sorted p hx
  | x :: xs, y :: ys, hx, hy => by
    obtain ⟨hhead, hxs⟩ := List.pairwise_cons.1 hx
    have hys : ∀ b ∈ ys, p b = false := fun b hb => hy b (List.mem_cons_of_mem y hb)
    rw [mergeOn_cons_cons]
    split_ifs with hkey
    · refine List.pairwise_cons.2 ⟨?_, dominates_mergeOn hxs hy⟩
      intro b hb hpb
      rcases mem_mergeOn.1 hb with hb | hb
      · exact hhead b hb
      · rw [hy b hb] at hpb
        cases hpb
    · refine List.pairwise_cons.2 ⟨?_, dominates_mergeOn hx hys⟩
      intro b hb hpb
      rcases mem_mergeOn.1 hb with hb | hb
      · -- The dropped head is smaller than the whole sorted list.
        rcases List.mem_cons.1 hb with rfl | hb
        · exact le_of_lt (not_le.1 hkey)
        · exact le_trans (le_of_lt (not_le.1 hkey)) (hhead b hb)
      · rw [hys b hb] at hpb
        cases hpb
termination_by xs ys => xs.length + ys.length

/-- What the test keeps of a list that begins with a given head is not smaller than the head. -/
theorem Dominates.head_le {key : α → K} {p : α → Bool} {x b : α} {xs : List α}
    (h : Dominates key p (x :: xs)) (hb : b ∈ (x :: xs).filter p) : key x ≤ key b := by
  obtain ⟨hmem, hpb⟩ := List.mem_filter.1 hb
  rcases List.mem_cons.1 hmem with rfl | hmem
  · exact le_refl _
  · exact (List.pairwise_cons.1 h).1 b hmem hpb

/-- A head that is not greater than anything of the second list comes first. -/
theorem mergeOn_cons_of_le {key : α → K} {x : α} {xs ys : List α}
    (h : ∀ y ∈ ys, key x ≤ key y) : mergeOn key (x :: xs) ys = x :: mergeOn key xs ys := by
  cases ys with
  | nil => rw [mergeOn_nil_right, mergeOn_nil_right]
  | cons y ys => rw [mergeOn_cons_cons, if_pos (h y List.mem_cons_self)]

/-- A head of the second list that is smaller than anything of the first one comes first. -/
theorem mergeOn_cons_of_lt {key : α → K} {y : α} {xs ys : List α}
    (h : ∀ x ∈ xs, key y < key x) : mergeOn key xs (y :: ys) = y :: mergeOn key xs ys := by
  cases xs with
  | nil => rfl
  | cons x xs => rw [mergeOn_cons_cons, if_neg (not_le.2 (h x List.mem_cons_self))]

/-- A filter goes through the merge of two lists where what it keeps has no greater key before
it. -/
theorem filter_mergeOn {key : α → K} {p : α → Bool} :
    ∀ {xs ys : List α}, Dominates key p xs → Dominates key p ys →
      (mergeOn key xs ys).filter p = mergeOn key (xs.filter p) (ys.filter p)
  | [], ys, _, _ => by simp
  | x :: xs, [], _, _ => by simp
  | x :: xs, y :: ys, hx, hy => by
    have hxs : Dominates key p xs := (List.pairwise_cons.1 hx).2
    have hys : Dominates key p ys := (List.pairwise_cons.1 hy).2
    rw [mergeOn_cons_cons]
    split_ifs with hkey
    · by_cases hpx : p x = true
      · rw [List.filter_cons_of_pos hpx, List.filter_cons_of_pos hpx, filter_mergeOn hxs hy,
          mergeOn_cons_of_le fun b hb => le_trans hkey (hy.head_le hb)]
      · rw [List.filter_cons_of_neg hpx, List.filter_cons_of_neg hpx, filter_mergeOn hxs hy]
    · by_cases hpy : p y = true
      · rw [List.filter_cons_of_pos hpy, List.filter_cons_of_pos hpy, filter_mergeOn hx hys,
          mergeOn_cons_of_lt fun a ha => lt_of_lt_of_le (not_le.1 hkey) (hx.head_le ha)]
      · rw [List.filter_cons_of_neg hpy, List.filter_cons_of_neg hpy, filter_mergeOn hx hys]
termination_by xs ys => xs.length + ys.length

end GenropyAsgi.Library
