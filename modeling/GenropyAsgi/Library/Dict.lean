import Mathlib.Data.Finmap
import Mathlib.Data.Finset.Sort

/-!
# Dictionaries

A dictionary whose iteration order nobody reads is a finite map: Mathlib's `Finmap`, at a value
type that does not depend on the key. This module names the four operations that imperative code
performs on one (`get`, `set`, `pop`, and a map over the values) and gives each its lookup lemma in
the form with an `if`, so that a proof about a program rewrites a lookup without a case split on the
keys. Two dictionaries with the same lookups are equal (`ext`).
-/

namespace GenropyAsgi.Library

/-- A dictionary from `K` to `V`. -/
abbrev Dict (K V : Type) := Finmap fun _ : K => V

namespace Dict

variable {K V W ι : Type} [DecidableEq K]

/-- `d.get(k)`: the value under a key, `none` when the key is missing. -/
def get (d : Dict K V) (k : K) : Option V := Finmap.lookup k d

/-- `d[k] = v`. -/
def set (d : Dict K V) (k : K) (v : V) : Dict K V := Finmap.insert k v d

/-- `d.pop(k, None)`, without the value. -/
def pop (d : Dict K V) (k : K) : Dict K V := Finmap.erase k d

/-- Two dictionaries with the same lookups are the same dictionary. -/
theorem ext {d d' : Dict K V} (h : ∀ k, d.get k = d'.get k) : d = d' := Finmap.ext_lookup h

/-- The empty dictionary has no key. -/
@[simp]
theorem get_empty (k : K) : (∅ : Dict K V).get k = none := Finmap.lookup_empty k

/-- A lookup after an assignment. -/
@[simp]
theorem get_set (d : Dict K V) (k j : K) (v : V) :
    (d.set k v).get j = if j = k then some v else d.get j := by
  unfold get set
  split_ifs with h
  · rw [h, Finmap.lookup_insert]
  · rw [Finmap.lookup_insert_of_ne _ h]

/-- A lookup after a `pop`. -/
@[simp]
theorem get_pop (d : Dict K V) (k j : K) :
    (d.pop k).get j = if j = k then none else d.get j := by
  unfold get pop
  split_ifs with h
  · rw [h, Finmap.lookup_erase]
  · rw [Finmap.lookup_erase_ne h]

/-- A lookup after the `pop` of every key of a list. -/
theorem get_foldl_pop (j : K) :
    ∀ (keys : List K) (d : Dict K V), (keys.foldl pop d).get j = if j ∈ keys then none else d.get j
  | [], d => by simp
  | k :: keys, d => by
    rw [List.foldl_cons, get_foldl_pop j keys, get_pop]
    by_cases hj : j = k
    · simp [hj]
    · simp [hj]

/-- A key is present exactly when its lookup answers. -/
theorem mem_keys {d : Dict K V} {k : K} : k ∈ d.keys ↔ (d.get k).isSome := by
  rw [Finmap.mem_keys]
  exact Finmap.lookup_isSome.symm

/-- The dictionary with every value replaced by its image. -/
def mapVals (f : K → V → W) (d : Dict K V) : Dict K W where
  entries := d.entries.map fun e => ⟨e.1, f e.1 e.2⟩
  nodupKeys := by
    have h := Multiset.nodup_keys.2 d.nodupKeys
    refine Multiset.nodup_keys.1 ?_
    rwa [Multiset.keys, Multiset.map_map]

/-- A lookup in the mapped dictionary. -/
@[simp]
theorem get_mapVals (f : K → V → W) (d : Dict K V) (k : K) :
    (d.mapVals f).get k = (d.get k).map (f k) := by
  apply Option.ext
  intro w
  unfold get
  simp only [Option.map_eq_some_iff]
  constructor
  · intro h
    have hm := Finmap.lookup_eq_some_iff.1 h
    simp only [mapVals, Multiset.mem_map] at hm
    obtain ⟨⟨j, v⟩, hj, he⟩ := hm
    cases he
    exact ⟨v, Finmap.lookup_eq_some_iff.2 hj, rfl⟩
  · rintro ⟨v, hv, rfl⟩
    refine Finmap.lookup_eq_some_iff.2 ?_
    simp only [mapVals, Multiset.mem_map]
    exact ⟨⟨k, v⟩, Finmap.lookup_eq_some_iff.1 hv, rfl⟩

/-- The assignments `d[k] = f k (d.get(k))` for every key of a finite set, one after another. -/
def setAll [LinearOrder K] (d : Dict K V) (keys : Finset K) (f : K → Option V → V) : Dict K V :=
  (keys.sort (· ≤ ·)).foldl (fun d k => d.set k (f k (d.get k))) d

/-- Assigning along a list of distinct keys writes each of them once, over its first value. -/
theorem get_foldl_set (f : K → Option V → V) (j : K) :
    ∀ (keys : List K) (d : Dict K V), keys.Nodup →
      (keys.foldl (fun d k => d.set k (f k (d.get k))) d).get j =
        if j ∈ keys then some (f j (d.get j)) else d.get j
  | [], d, _ => by simp
  | k :: keys, d, hnd => by
    obtain ⟨hk, hkeys⟩ := List.nodup_cons.1 hnd
    rw [List.foldl_cons, get_foldl_set f j keys _ hkeys, get_set]
    by_cases hj : j = k
    · subst hj
      simp [hk]
    · simp [hj]

/-- Assigning a value to the key of every element of a list writes no other key. -/
theorem get_foldl_assign_of_notMem (key : ι → K) (value : ι → V) {j : K} :
    ∀ (elements : List ι) (d : Dict K V), (∀ e ∈ elements, key e ≠ j) →
      (elements.foldl (fun d e => d.set (key e) (value e)) d).get j = d.get j
  | [], _, _ => rfl
  | e :: elements, d, h => by
    obtain ⟨he, helements⟩ := List.forall_mem_cons.1 h
    rw [List.foldl_cons, get_foldl_assign_of_notMem key value elements _ helements, get_set,
      if_neg he.symm]

/-- Where the keys of the elements are distinct, the key of each gets its own value. -/
theorem get_foldl_assign_of_mem (key : ι → K) (value : ι → V) {i : ι} :
    ∀ (elements : List ι) (d : Dict K V), (elements.map key).Nodup → i ∈ elements →
      (elements.foldl (fun d e => d.set (key e) (value e)) d).get (key i) = some (value i)
  | [], _, _, hi => absurd hi List.not_mem_nil
  | e :: elements, d, hnodup, hi => by
    obtain ⟨he, helements⟩ := List.nodup_cons.1 hnodup
    rw [List.foldl_cons]
    obtain rfl | hi := List.mem_cons.1 hi
    · have hother : ∀ e' ∈ elements, key e' ≠ key i := fun e' he' heq =>
        he (heq ▸ List.mem_map_of_mem he')
      rw [get_foldl_assign_of_notMem key value elements _ hother, get_set, if_pos rfl]
    · exact get_foldl_assign_of_mem key value elements _ helements hi

/-- A lookup after `setAll`: the order in which the keys are visited does not matter. -/
@[simp]
theorem get_setAll [LinearOrder K] (d : Dict K V) (keys : Finset K) (f : K → Option V → V)
    (j : K) : (d.setAll keys f).get j = if j ∈ keys then some (f j (d.get j)) else d.get j := by
  unfold setAll
  rw [get_foldl_set f j _ d (Finset.sort_nodup keys _)]
  simp only [Finset.mem_sort]

/-- The entries of the dictionary that pass a test. -/
def filter (p : K → V → Bool) (d : Dict K V) : Dict K V where
  entries := d.entries.filter fun e => p e.1 e.2
  nodupKeys := by
    have h := Multiset.nodup_keys.2 d.nodupKeys
    have hle := Multiset.filter_le (fun e => p e.1 e.2) d.entries
    exact Multiset.nodup_keys.1 (Multiset.nodup_of_le (Multiset.map_le_map hle) h)

/-- A lookup among the entries that pass. -/
@[simp]
theorem get_filter (p : K → V → Bool) (d : Dict K V) (k : K) :
    (d.filter p).get k = (d.get k).filter (p k) := by
  apply Option.ext
  intro v
  unfold get
  rw [Option.filter_eq_some_iff, Finmap.lookup_eq_some_iff, Finmap.lookup_eq_some_iff]
  exact Multiset.mem_filter

end Dict

end GenropyAsgi.Library
