import GenropyAsgi.Change

/-!
# Dotted paths

A legacy path is a text of labels separated by dots. `labels` reads it as the list of its labels,
from which the text comes back; the prefix tests of the captures, which compare texts on a segment
boundary, compare these lists (`under_iff`).

`splitGlobalPath` is `split_global_path` of `global_store_adapter.py`, which takes the first label
off a path as the key of a dictionary.
-/

namespace GenropyAsgi

/-- Joining the two parts of a cut puts one separator between them. -/
theorem intercalate_append {α : Type} {sep : List α} {front rest : List (List α)}
    (hfront : front ≠ []) (hrest : rest ≠ []) :
    sep.intercalate (front ++ rest) = sep.intercalate front ++ sep ++ sep.intercalate rest := by
  induction front with
  | nil => exact absurd rfl hfront
  | cons label front ih =>
    cases front with
    | nil =>
      rw [List.singleton_append, List.intercalate_cons_of_ne_nil hrest, List.intercalate_singleton]
    | cons label' front =>
      have htail := ih (List.cons_ne_nil label' front)
      rw [List.cons_append, List.intercalate_cons_of_ne_nil (by simp), htail,
        List.intercalate_cons_of_ne_nil (List.cons_ne_nil label' front)]
      simp only [List.append_assoc]

/-- A list leads another one, cut at a separator, exactly when it is that list, or is followed in it
by the separator. -/
theorem splitOn_prefix_iff {α : Type} [BEq α] [LawfulBEq α] (a : α) (xs ys : List α) :
    xs.splitOn a <+: ys.splitOn a ↔ ys = xs ∨ xs ++ [a] <+: ys := by
  constructor
  · rintro ⟨rest, hrest⟩
    have hys : [a].intercalate (xs.splitOn a ++ rest) = ys := by
      rw [hrest, List.intercalate_splitOn]
    have hxs : [a].intercalate (xs.splitOn a) = xs := List.intercalate_splitOn a
    by_cases hne : rest = []
    · left
      rw [hne, List.append_nil] at hys
      rw [← hys, hxs]
    · right
      rw [intercalate_append (List.splitOn_ne_nil a xs) hne, hxs] at hys
      exact ⟨_, hys⟩
  · rintro (rfl | ⟨rest, rfl⟩)
    · exact List.prefix_refl _
    · rw [List.append_assoc, List.singleton_append, List.splitOn_append_cons_self]
      exact List.prefix_append _ _

/-- The labels of a dotted path. -/
def labels (path : String) : List String := (path.toList.splitOn '.').map String.ofList

/-- A path made of labels none of which is empty. -/
def Dotted (path : String) : Prop := "" ∉ labels path

instance (path : String) : Decidable (Dotted path) := inferInstanceAs (Decidable ("" ∉ labels path))

/-- A path has a label. -/
theorem labels_ne_nil (path : String) : labels path ≠ [] := by
  unfold labels
  intro h
  exact List.splitOn_ne_nil '.' path.toList (List.map_eq_nil_iff.1 h)

/-- The labels of a path as lists of characters. -/
theorem toList_labels (path : String) :
    (labels path).map String.toList = path.toList.splitOn '.' := by
  unfold labels
  rw [List.map_map]
  have hid : String.toList ∘ String.ofList = id := by
    funext chars
    exact String.toList_ofList
  rw [hid, List.map_id]

/-- The labels of a path, joined, are the path. -/
@[simp]
theorem intercalate_labels (path : String) : ".".intercalate (labels path) = path := by
  apply String.toList_inj.1
  rw [String.toList_intercalate, toList_labels]
  exact List.intercalate_splitOn '.'

/-- The test on a segment boundary compares the labels: the path goes through the prefix. -/
theorem under_iff (path top : String) : under path top = true ↔ labels top <+: labels path := by
  unfold under
  rw [Bool.or_eq_true, beq_iff_eq, String.startsWith_string_iff, String.toList_append]
  have hcut := splitOn_prefix_iff '.' top.toList path.toList
  rw [← toList_labels, ← toList_labels] at hcut
  have hmap : (labels top).map String.toList <+: (labels path).map String.toList ↔
      labels top <+: labels path := by
    constructor
    · rintro h
      have hback := h.map String.ofList
      rwa [List.map_map, List.map_map, show String.ofList ∘ String.toList = id from
        funext fun _ => String.ofList_toList, List.map_id, List.map_id] at hback
    · exact fun h => h.map String.toList
  rw [← hmap, hcut, String.toList_inj]
  rfl

/-- A text without dots is its only label. -/
theorem labels_of_not_mem {chars : List Char} (h : '.' ∉ chars) :
    labels (String.ofList chars) = [String.ofList chars] := by
  unfold labels
  rw [String.toList_ofList, List.splitOn_eq_singleton h]
  rfl

/-- The labels of a path that was joined from labels. -/
theorem labels_intercalate {parts : List String} (hne : parts ≠ [])
    (hdots : ∀ label ∈ parts, '.' ∉ label.toList) : labels (".".intercalate parts) = parts := by
  have hsplit : (['.'].intercalate (parts.map String.toList)).splitOn '.' =
      parts.map String.toList :=
    List.splitOn_intercalate '.' (by simpa using hdots) (by simpa using hne)
  have hid : String.ofList ∘ String.toList = id := by
    funext label
    exact String.ofList_toList
  unfold labels
  rw [String.toList_intercalate, show ".".toList = ['.'] from rfl, hsplit, List.map_map, hid,
    List.map_id]

/-- On joined labels the test on a segment boundary asks for an initial segment. -/
theorem under_intercalate_iff {p q : List String} (hp : p ≠ []) (hq : q ≠ [])
    (hpdots : ∀ label ∈ p, '.' ∉ label.toList) (hqdots : ∀ label ∈ q, '.' ∉ label.toList) :
    under (".".intercalate p) (".".intercalate q) = true ↔ q <+: p := by
  rw [under_iff, labels_intercalate hp hpdots, labels_intercalate hq hqdots]

/-- A path under a path under a prefix is under the prefix. -/
theorem under_trans {path mid top : String} (h : under path mid = true)
    (h' : under mid top = true) : under path top = true := by
  rw [under_iff] at h h' ⊢
  exact h'.trans h

/-- `split_global_path`: the dictionary key and the path inside its value. -/
def splitGlobalPath (path : Option String) : Option String × String :=
  match path with
  | none => (none, "")
  | some path =>
    if path = "" then (none, "")
    else (some (String.ofList (path.toList.takeWhile (· ≠ '.'))),
      String.ofList (path.toList.dropWhile (· ≠ '.')).tail)

/-- A path of non-empty labels is not the empty text. -/
theorem Dotted.ne_empty {path : String} (h : Dotted path) : path ≠ "" := by
  rintro rfl
  exact h (by decide)

/-- A list cut at the first place of a separator, or whole when it has none. -/
theorem takeWhile_dropWhile_ne {α : Type} [DecidableEq α] (a : α) (xs : List α) :
    (xs.takeWhile (· ≠ a) = xs ∧ xs.dropWhile (· ≠ a) = [] ∧ a ∉ xs) ∨
      ∃ front tail, xs = front ++ a :: tail ∧ a ∉ front ∧ xs.takeWhile (· ≠ a) = front ∧
        xs.dropWhile (· ≠ a) = a :: tail := by
  induction xs with
  | nil => exact Or.inl ⟨rfl, rfl, List.not_mem_nil⟩
  | cons x xs ih =>
    by_cases hx : x = a
    · subst hx
      exact Or.inr ⟨[], xs, rfl, List.not_mem_nil, by simp, by simp⟩
    · have htake : (x :: xs).takeWhile (· ≠ a) = x :: xs.takeWhile (· ≠ a) := by simp [hx]
      have hdrop : (x :: xs).dropWhile (· ≠ a) = xs.dropWhile (· ≠ a) := by simp [hx]
      rw [htake, hdrop]
      rcases ih with ⟨h₁, h₂, h₃⟩ | ⟨front, tail, rfl, h₂, h₃, h₄⟩
      · exact Or.inl ⟨by rw [h₁], h₂, List.not_mem_cons_of_ne_of_not_mem (Ne.symm hx) h₃⟩
      · exact Or.inr ⟨x :: front, tail, rfl,
          List.not_mem_cons_of_ne_of_not_mem (Ne.symm hx) h₂, by rw [h₃], h₄⟩

/-- A path with the key and the rest that `split_global_path` makes of it: the key is the first
label, and the rest has the other labels, and is empty when there are none. -/
structure Parts (path key rest : String) : Prop where
  /-- They are what the split answers. -/
  split : splitGlobalPath (some path) = (some key, rest)
  /-- The key is one label. -/
  one_label : labels key = [key]
  /-- The labels of the path. -/
  cut : rest = "" ∧ labels path = [key] ∨
    Dotted rest ∧ rest ≠ "" ∧ labels path = key :: labels rest

/-- A path of non-empty labels has two parts. -/
theorem Dotted.parts {path : String} (h : Dotted path) : ∃ key rest, Parts path key rest := by
  have hsplit : splitGlobalPath (some path) =
      (some (String.ofList (path.toList.takeWhile (· ≠ '.'))),
        String.ofList (path.toList.dropWhile (· ≠ '.')).tail) := by
    unfold splitGlobalPath
    exact if_neg h.ne_empty
  rcases takeWhile_dropWhile_ne '.' path.toList with
    ⟨htake, hdrop, hdot⟩ | ⟨front, tail, hparts, hdot, htake, hdrop⟩
  · -- A single label, and nothing after it.
    rw [htake, hdrop] at hsplit
    have hlabels : labels (String.ofList path.toList) = [String.ofList path.toList] :=
      labels_of_not_mem hdot
    rw [String.ofList_toList] at hlabels hsplit
    exact ⟨path, "", hsplit, hlabels, Or.inl ⟨rfl, hlabels⟩⟩
  · -- The first label, and the path after the dot.
    rw [htake, hdrop, List.tail_cons] at hsplit
    have hlabels : labels path = String.ofList front :: labels (String.ofList tail) := by
      unfold labels
      rw [String.toList_ofList, hparts, List.splitOn_append_cons_self_of_not_mem hdot]
      rfl
    have hrest : Dotted (String.ofList tail) := by
      intro hmem
      unfold Dotted at h
      rw [hlabels] at h
      exact h (List.mem_cons_of_mem _ hmem)
    exact ⟨_, _, hsplit, labels_of_not_mem hdot, Or.inr ⟨hrest, hrest.ne_empty, hlabels⟩⟩

end GenropyAsgi
