import Mathlib.Data.List.Induction
import Mathlib.Data.List.Nodup
import Mathlib.Data.Option.Basic

/-!
# Listings

A dictionary in the order in which its keys were first written: a list of pairs. An assignment to a
key that is there keeps its place, a new key joins at the end, and a `pop` closes the gap. A lookup
takes the first pair of its key, so the laws below need no hypothesis on the list.

`OrderedDict` is a listing whose keys are distinct, which every operation keeps.
-/

namespace GenropyAsgi.Library

namespace Listing

variable {K V W : Type} [DecidableEq K]

/-- The value under a key. -/
def get : List (K × V) → K → Option V
  | [], _ => none
  | (j, v) :: rest, k => if j = k then some v else get rest k

/-- The assignment to a key: in its place, or at the end. -/
def set : List (K × V) → K → V → List (K × V)
  | [], k, w => [(k, w)]
  | (j, v) :: rest, k, w => if j = k then (k, w) :: rest else (j, v) :: set rest k w

/-- The listing without a key. -/
def pop : List (K × V) → K → List (K × V)
  | [], _ => []
  | (j, v) :: rest, k => if j = k then pop rest k else (j, v) :: pop rest k

/-- Every value replaced by its image. -/
def mapVals (f : V → W) (items : List (K × V)) : List (K × W) :=
  items.map fun item => (item.1, f item.2)

@[simp]
theorem get_nil (k : K) : get ([] : List (K × V)) k = none := rfl

/-- A lookup after an assignment. -/
@[simp]
theorem get_set (items : List (K × V)) (k j : K) (w : V) :
    get (set items k w) j = if j = k then some w else get items j := by
  induction items with
  | nil =>
    unfold set get
    simp only [get_nil, eq_comm]
  | cons item rest ih =>
    obtain ⟨i, v⟩ := item
    by_cases hik : i = k
    · subst hik
      by_cases hj : j = i
      · simp [set, get, hj]
      · simp [set, get, hj, Ne.symm hj]
    · by_cases hij : i = j
      · subst hij
        simp [set, get, hik]
      · simp only [set, if_neg hik, get, if_neg hij]
        exact ih

/-- A lookup after a `pop`. -/
@[simp]
theorem get_pop (items : List (K × V)) (k j : K) :
    get (pop items k) j = if j = k then none else get items j := by
  induction items with
  | nil => simp [pop]
  | cons item rest ih =>
    obtain ⟨i, v⟩ := item
    unfold pop
    by_cases hik : i = k
    · rw [if_pos hik, ih]
      by_cases hj : j = k
      · simp [hj]
      · have hij : i ≠ j := fun h => hj (h.symm.trans hik)
        simp [get, hj, hij]
    · rw [if_neg hik]
      by_cases hij : i = j
      · subst hij
        simp [get, hik]
      · simp only [get, if_neg hij]
        exact ih

/-- A lookup among the images. -/
@[simp]
theorem get_mapVals (f : V → W) (items : List (K × V)) (k : K) :
    get (mapVals f items) k = (get items k).map f := by
  unfold mapVals
  induction items with
  | nil => rfl
  | cons item rest ih =>
    obtain ⟨i, v⟩ := item
    by_cases hik : i = k
    · simp [get, hik]
    · simp only [List.map_cons, get, if_neg hik]
      exact ih

/-- The images after an assignment. -/
theorem mapVals_set (f : V → W) (items : List (K × V)) (k : K) (v : V) :
    mapVals f (set items k v) = set (mapVals f items) k (f v) := by
  unfold mapVals
  induction items with
  | nil => rfl
  | cons item rest ih =>
    obtain ⟨i, w⟩ := item
    unfold set
    by_cases hik : i = k
    · simp [hik]
    · rw [if_neg hik, List.map_cons, ih, List.map_cons]
      simp [hik]

/-- Assigning what is there already changes nothing. -/
theorem set_of_get {items : List (K × V)} {k : K} {v : V} (h : get items k = some v) :
    set items k v = items := by
  induction items with
  | nil => cases h
  | cons item rest ih =>
    obtain ⟨i, w⟩ := item
    unfold get at h
    unfold set
    by_cases hik : i = k
    · rw [if_pos hik] at h ⊢
      rw [← hik, Option.some.inj h]
    · rw [if_neg hik] at h ⊢
      rw [ih h]

/-- A `pop` of a key that is not there changes nothing. -/
theorem pop_of_get {items : List (K × V)} {k : K} (h : get items k = none) :
    pop items k = items := by
  induction items with
  | nil => rfl
  | cons item rest ih =>
    obtain ⟨i, w⟩ := item
    unfold get at h
    split_ifs at h with hik
    unfold pop
    rw [if_neg hik, ih h]

/-- A `pop` only leaves pairs out. -/
theorem pop_sublist (items : List (K × V)) (k : K) : (pop items k).Sublist items := by
  induction items with
  | nil => exact List.Sublist.refl _
  | cons item rest ih =>
    obtain ⟨i, v⟩ := item
    unfold pop
    split_ifs
    · exact ih.cons _
    · exact ih.cons_cons _

/-- A value that is looked up stands in the list. -/
theorem mem_of_get {items : List (K × V)} {k : K} {v : V} (h : get items k = some v) :
    (k, v) ∈ items := by
  induction items with
  | nil => cases h
  | cons item rest ih =>
    obtain ⟨i, w⟩ := item
    unfold get at h
    by_cases hik : i = k
    · rw [if_pos hik] at h
      rw [← hik, Option.some.inj h]
      exact List.mem_cons_self
    · rw [if_neg hik] at h
      exact List.mem_cons_of_mem _ (ih h)

/-- Where no key stands twice, a value that stands in the list is looked up. -/
theorem get_of_mem {items : List (K × V)} (hnodup : (items.map Prod.fst).Nodup) {k : K} {v : V}
    (h : (k, v) ∈ items) : get items k = some v := by
  induction items with
  | nil => exact absurd h List.not_mem_nil
  | cons item rest ih =>
    obtain ⟨i, w⟩ := item
    rw [List.map_cons, List.nodup_cons] at hnodup
    unfold get
    rcases List.mem_cons.1 h with heq | hrest
    · cases heq
      rw [if_pos rfl]
    · have hne : i ≠ k := by
        rintro rfl
        exact hnodup.1 (List.mem_map.2 ⟨_, hrest, rfl⟩)
      rw [if_neg hne]
      exact ih hnodup.2 hrest

/-- What an assignment leaves in the list was there or was written. -/
theorem mem_set {items : List (K × V)} {k : K} {w : V} {item : K × V}
    (h : item ∈ set items k w) : item ∈ items ∨ item = (k, w) := by
  induction items with
  | nil =>
    unfold set at h
    exact Or.inr (List.mem_singleton.1 h)
  | cons first rest ih =>
    obtain ⟨i, v⟩ := first
    unfold set at h
    split_ifs at h with hik
    · rcases List.mem_cons.1 h with rfl | hrest
      · exact Or.inr rfl
      · exact Or.inl (List.mem_cons_of_mem _ hrest)
    · rcases List.mem_cons.1 h with rfl | hrest
      · exact Or.inl List.mem_cons_self
      · rcases ih hrest with hold | hnew
        · exact Or.inl (List.mem_cons_of_mem _ hold)
        · exact Or.inr hnew

/-- The keys after an assignment. -/
theorem keys_set (items : List (K × V)) (k : K) (w : V) :
    (set items k w).map Prod.fst =
      if k ∈ items.map Prod.fst then items.map Prod.fst else items.map Prod.fst ++ [k] := by
  induction items with
  | nil => rfl
  | cons item rest ih =>
    obtain ⟨i, v⟩ := item
    unfold set
    by_cases hik : i = k
    · simp [hik]
    · rw [if_neg hik, List.map_cons, ih, List.map_cons]
      by_cases hk : k ∈ rest.map Prod.fst
      · rw [if_pos hk, if_pos (List.mem_cons_of_mem _ hk)]
      · have hk' : k ∉ i :: rest.map Prod.fst := by
          intro hmem
          rcases List.mem_cons.1 hmem with h | h
          · exact hik h.symm
          · exact hk h
        rw [if_neg hk, if_neg hk', List.cons_append]

/-- An assignment to a key that is not there puts it at the end. -/
theorem set_of_not_mem {items : List (K × V)} {k : K} (h : k ∉ items.map Prod.fst) (v : V) :
    set items k v = items ++ [(k, v)] := by
  induction items with
  | nil => rfl
  | cons item rest ih =>
    obtain ⟨i, w⟩ := item
    rw [List.map_cons, List.mem_cons] at h
    push Not at h
    unfold set
    rw [if_neg (Ne.symm h.1), ih h.2, List.cons_append]

end Listing

/-- A dictionary in insertion order. -/
structure OrderedDict (K V : Type) where
  /-- The pairs, in insertion order. -/
  items : List (K × V)
  /-- No key stands twice. -/
  nodup : (items.map Prod.fst).Nodup

namespace OrderedDict

variable {K V W : Type} [DecidableEq K]

omit [DecidableEq K] in
/-- Two dictionaries with the same pairs in the same order are equal. -/
@[ext]
theorem ext {d d' : OrderedDict K V} (h : d.items = d'.items) : d = d' := by
  cases d
  cases d'
  cases h
  rfl

/-- The empty dictionary. -/
def empty : OrderedDict K V := ⟨[], List.nodup_nil⟩

/-- `d.get(k)`. -/
def get (d : OrderedDict K V) (k : K) : Option V := Listing.get d.items k

/-- `d[k] = v`. -/
def set (d : OrderedDict K V) (k : K) (v : V) : OrderedDict K V where
  items := Listing.set d.items k v
  nodup := by
    rw [Listing.keys_set]
    split_ifs with hk
    · exact d.nodup
    · exact List.nodup_append_comm.1 (List.nodup_cons.2 ⟨hk, d.nodup⟩)

/-- `d.pop(k, None)`, without the value. -/
def pop (d : OrderedDict K V) (k : K) : OrderedDict K V where
  items := Listing.pop d.items k
  nodup := d.nodup.sublist ((Listing.pop_sublist d.items k).map Prod.fst)

/-- The dictionary with every value replaced by its image. -/
def mapVals (f : V → W) (d : OrderedDict K V) : OrderedDict K W where
  items := Listing.mapVals f d.items
  nodup := by
    have hkeys : (Listing.mapVals f d.items).map Prod.fst = d.items.map Prod.fst := by
      unfold Listing.mapVals
      rw [List.map_map]
      rfl
    rw [hkeys]
    exact d.nodup

/-- A lookup after an assignment. -/
@[simp]
theorem get_set (d : OrderedDict K V) (k j : K) (v : V) :
    (d.set k v).get j = if j = k then some v else d.get j := Listing.get_set d.items k j v

/-- A lookup after a `pop`. -/
@[simp]
theorem get_pop (d : OrderedDict K V) (k j : K) :
    (d.pop k).get j = if j = k then none else d.get j := Listing.get_pop d.items k j

/-- A value that stands in the dictionary is looked up. -/
theorem get_of_mem {d : OrderedDict K V} {k : K} {v : V} (h : (k, v) ∈ d.items) :
    d.get k = some v := Listing.get_of_mem d.nodup h

/-- A lookup among the images. -/
@[simp]
theorem get_mapVals (f : V → W) (d : OrderedDict K V) (k : K) :
    (d.mapVals f).get k = (d.get k).map f := Listing.get_mapVals f d.items k

/-- The pairs of a dictionary are what its lookups answer. -/
theorem mem_items {d : OrderedDict K V} {k : K} {v : V} : (k, v) ∈ d.items ↔ d.get k = some v :=
  ⟨get_of_mem, Listing.mem_of_get⟩

/-- The assignments of a list of pairs, one after another. -/
def assign (d : OrderedDict K V) (pairs : List (K × V)) : OrderedDict K V :=
  pairs.foldl (fun d pair => d.set pair.1 pair.2) d

/-- A dictionary made of pairs with distinct keys is the list of them. -/
theorem items_assign {pairs : List (K × V)} (hnodup : (pairs.map Prod.fst).Nodup) :
    (empty.assign pairs).items = pairs := by
  induction pairs using List.reverseRecOn with
  | nil => rfl
  | append_singleton pairs last ih =>
    rw [List.map_append, List.map_singleton] at hnodup
    obtain ⟨hpairs, _, hdisjoint⟩ := List.nodup_append.1 hnodup
    have hlast : last.1 ∉ pairs.map Prod.fst :=
      fun h => hdisjoint _ h _ (List.mem_singleton_self _) rfl
    have hassign : empty.assign (pairs ++ [last]) =
        (empty.assign pairs).set last.1 last.2 := by
      unfold assign
      rw [List.foldl_append]
      rfl
    rw [hassign]
    unfold set
    dsimp only
    rw [ih hpairs, Listing.set_of_not_mem hlast]

/-- An assignment to a key that is there keeps the keys. -/
theorem keys_set_of_mem {d : OrderedDict K V} {k : K} (h : k ∈ d.items.map Prod.fst) (v : V) :
    (d.set k v).items.map Prod.fst = d.items.map Prod.fst := by
  unfold set
  dsimp only
  rw [Listing.keys_set, if_pos h]

/-- A pair that is the last of its key in a list. -/
def LastOf (pairs : List (K × V)) (pair : K × V) : Prop :=
  ∃ front back, pairs = front ++ pair :: back ∧ ∀ later ∈ back, later.1 ≠ pair.1

omit [DecidableEq K] in
/-- The last pair of a key, in a list with one more pair at its end. -/
theorem lastOf_concat {pairs : List (K × V)} {last pair : K × V} :
    LastOf (pairs ++ [last]) pair ↔ pair = last ∨ LastOf pairs pair ∧ last.1 ≠ pair.1 := by
  constructor
  · rintro ⟨front, back, heq, hback⟩
    rcases List.eq_nil_or_concat' back with rfl | ⟨back', b, rfl⟩
    · left
      have h := List.append_inj' heq rfl
      exact (List.singleton_inj.1 h.2).symm
    · right
      rw [← List.cons_append, ← List.append_assoc] at heq
      have h := List.append_inj' heq rfl
      rw [List.singleton_inj.1 h.2]
      refine ⟨⟨front, back', h.1, fun later hlater => hback later ?_⟩, hback b ?_⟩
      · exact List.mem_append_left _ hlater
      · exact List.mem_append_right _ (List.mem_singleton_self b)
  · rintro (rfl | ⟨⟨front, back, rfl, hback⟩, hne⟩)
    · exact ⟨pairs, [], rfl, fun later h => absurd h List.not_mem_nil⟩
    · refine ⟨front, back ++ [last], by rw [List.append_assoc, List.cons_append], ?_⟩
      intro later hlater
      rcases List.mem_append.1 hlater with h | h
      · exact hback later h
      · rw [List.mem_singleton.1 h]
        exact hne

omit [DecidableEq K] in
/-- The last pairs of their keys, once the values are replaced by their images. -/
theorem lastOf_map {f : V → W} {pairs : List (K × V)} {k : K} {w : W} :
    LastOf (pairs.map fun pair => (pair.1, f pair.2)) (k, w) ↔
      ∃ v, LastOf pairs (k, v) ∧ f v = w := by
  constructor
  · rintro ⟨front, back, heq, hback⟩
    obtain ⟨front', rest, rfl, rfl, hrest⟩ := List.map_eq_append_iff.1 heq
    obtain ⟨⟨j, v⟩, back', rfl, hpair, rfl⟩ := List.map_eq_cons_iff.1 hrest
    cases hpair
    refine ⟨v, ⟨front', back', rfl, fun later hlater => ?_⟩, rfl⟩
    exact hback _ (List.mem_map_of_mem hlater)
  · rintro ⟨v, ⟨front, back, rfl, hback⟩, rfl⟩
    refine ⟨front.map fun pair => (pair.1, f pair.2), back.map fun pair => (pair.1, f pair.2),
      by rw [List.map_append, List.map_cons], ?_⟩
    intro later hlater
    obtain ⟨pair, hpair, rfl⟩ := List.mem_map.1 hlater
    exact hback pair hpair

/-- The key of a pair of a list has a last pair. -/
theorem exists_lastOf {pairs : List (K × V)} {pair : K × V} (h : pair ∈ pairs) :
    ∃ v, LastOf pairs (pair.1, v) := by
  induction pairs using List.reverseRecOn with
  | nil => exact absurd h List.not_mem_nil
  | append_singleton pairs last ih =>
    by_cases hkey : last.1 = pair.1
    · exact ⟨last.2, lastOf_concat.2 (Or.inl (by rw [← hkey]))⟩
    · rcases List.mem_append.1 h with h | h
      · obtain ⟨v, hv⟩ := ih h
        exact ⟨v, lastOf_concat.2 (Or.inr ⟨hv, hkey⟩)⟩
      · rw [List.mem_singleton.1 h] at hkey
        exact absurd rfl hkey

omit [DecidableEq K] in
/-- The last pair of its key is one of the pairs. -/
theorem LastOf.mem {pairs : List (K × V)} {pair : K × V} (h : LastOf pairs pair) :
    pair ∈ pairs := by
  obtain ⟨front, back, rfl, _⟩ := h
  exact List.mem_append_right _ List.mem_cons_self

/-- What stands in a dictionary made of a list of pairs: of each key the last pair. -/
theorem mem_items_assign (pairs : List (K × V)) {k : K} {v : V} :
    (k, v) ∈ (empty.assign pairs).items ↔ LastOf pairs (k, v) := by
  induction pairs using List.reverseRecOn generalizing k v with
  | nil =>
    constructor
    · exact fun h => absurd h List.not_mem_nil
    · rintro ⟨front, back, heq, _⟩
      cases front <;> cases heq
  | append_singleton pairs last ih =>
    have hassign : empty.assign (pairs ++ [last]) =
        (empty.assign pairs).set last.1 last.2 := by
      unfold assign
      rw [List.foldl_append]
      rfl
    rw [lastOf_concat, ← ih, mem_items, mem_items, hassign, get_set]
    by_cases hk : k = last.1
    · subst hk
      simp [Prod.ext_iff, eq_comm]
    · simp [hk, Ne.symm hk, Prod.ext_iff]

/-- What stands in a dictionary made of a list of pairs stands in the list. -/
theorem mem_of_mem_assign {pairs : List (K × V)} {pair : K × V}
    (h : pair ∈ (empty.assign pairs).items) : pair ∈ pairs :=
  ((mem_items_assign pairs).1 h).mem

end OrderedDict

end GenropyAsgi.Library
