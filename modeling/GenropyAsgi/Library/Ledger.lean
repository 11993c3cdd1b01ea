import Mathlib.Data.List.Perm.Subperm

/-!
# Lists kept by edits, on one road and on two

A list of pending entries is kept by edits: an edit removes the entries that it covers and then may
append one. `replay` is the list that a sequence of edits leaves; an entry is in it exactly as long
as no later edit covers it (`replay_cons`). What an edit takes off and what it leaves are what was
there and its own entry (`taken_append_apply_perm`).

The same sequence may be kept on two lists, each edit acting on the list of its own road alone. What
the two lists hold together always contains what the one list would hold (`one_subperm_two`), and it
is the same, as a multiset, exactly when every entry that some later edit covers is also covered by
a later edit on its own road (`two_perm_one_iff`).
-/

namespace GenropyAsgi.Library

variable {α : Type}

/-- An edit: the entries that it removes, and the one that it appends. -/
structure Edit (α : Type) where
  /-- Whether a pending entry is removed. -/
  covers : α → Bool
  /-- The entry appended, if any. -/
  entry : Option α

namespace Edit

/-- What an edit makes of a list. -/
def apply (xs : List α) (edit : Edit α) : List α :=
  xs.filter (fun x => !edit.covers x) ++ edit.entry.toList

/-- The list that a sequence of edits leaves, the oldest one first. -/
def replay (edits : List (Edit α)) : List α := edits.foldl apply []

/-- Whether an entry is covered by none of the edits. -/
def survives (edits : List (Edit α)) (x : α) : Bool := edits.all fun edit => !edit.covers x

/-- The edits keep of a list what survives them, and go on from nothing otherwise. -/
theorem foldl_apply :
    ∀ (edits : List (Edit α)) (xs : List α),
      edits.foldl apply xs = xs.filter (survives edits) ++ replay edits
  | [], xs => by
    have hall : survives ([] : List (Edit α)) = fun _ => true := rfl
    simp [hall, replay]
  | edit :: edits, xs => by
    have hxs := foldl_apply edits (apply xs edit)
    have hnil := foldl_apply edits (apply [] edit)
    rw [replay, List.foldl_cons, List.foldl_cons, hxs, hnil]
    simp only [apply, List.filter_append, List.filter_filter, List.filter_nil, List.nil_append,
      List.append_assoc]
    congr 1
    apply List.filter_congr
    intro x _
    simp only [survives, List.all_cons, Bool.and_comm]

/-- The entry of the first edit stays as long as no later one covers it. -/
theorem replay_cons (edit : Edit α) (edits : List (Edit α)) :
    replay (edit :: edits) = edit.entry.toList.filter (survives edits) ++ replay edits := by
  rw [replay, List.foldl_cons, foldl_apply]
  simp [apply]

/-- One more edit. -/
theorem replay_snoc (edits : List (Edit α)) (edit : Edit α) :
    replay (edits ++ [edit]) = apply (replay edits) edit := by
  simp [replay]

/-- What the edits leave is some of what they appended, in the order in which they did. -/
theorem replay_sublist : ∀ edits : List (Edit α), (replay edits).Sublist (edits.filterMap entry)
  | [] => List.Sublist.refl _
  | edit :: edits => by
    have hentry : (edit.entry.toList.filter (survives edits)).Sublist edit.entry.toList :=
      List.filter_sublist
    rw [replay_cons]
    have hsub := hentry.append (replay_sublist edits)
    cases hx : edit.entry with
    | none => simpa [List.filterMap_cons, hx] using hsub
    | some x => simpa [List.filterMap_cons, hx] using hsub

/-! ## What the edits take off -/

/-- What an edit takes off a list. -/
def taken (xs : List α) (edit : Edit α) : List α := xs.filter edit.covers

/-- An edit that covers nothing only appends. -/
theorem apply_of_forall_not {edit : Edit α} (h : ∀ x, edit.covers x = false) (xs : List α) :
    apply xs edit = xs ++ edit.entry.toList := by
  have hxs : xs.filter (fun x => !edit.covers x) = xs :=
    List.filter_eq_self.2 fun x _ => by rw [h x]; rfl
  rw [apply, hxs]

/-- An edit loses nothing: what it takes off and what it leaves are what was there and its entry. -/
theorem taken_append_apply_perm (xs : List α) (edit : Edit α) :
    (taken xs edit ++ apply xs edit).Perm (xs ++ edit.entry.toList) := by
  unfold taken apply
  rw [← List.append_assoc]
  exact (List.filter_append_perm edit.covers xs).append_right edit.entry.toList

/-! ## Two roads -/

/-- The edits of one road. -/
def onRoad (road : Bool) (edits : List (Bool × Edit α)) : List (Edit α) :=
  (edits.filter fun edit => edit.1 == road).map Prod.snd

/-- What the one list holds. -/
def one (edits : List (Bool × Edit α)) : List α := replay (edits.map Prod.snd)

/-- What the two lists hold together. -/
def two (edits : List (Bool × Edit α)) : List α :=
  replay (onRoad true edits) ++ replay (onRoad false edits)

/-- Every entry that survives the later edits on its own road survives all the later ones. -/
def OwnRoad : List (Bool × Edit α) → Prop
  | [] => True
  | edit :: edits =>
    (∀ x ∈ edit.2.entry, survives (onRoad edit.1 edits) x = true →
      survives (edits.map Prod.snd) x = true) ∧ OwnRoad edits

/-- What survives all the edits survives those of a road. -/
theorem survives_onRoad {road : Bool} {edits : List (Bool × Edit α)} {x : α}
    (h : survives (edits.map Prod.snd) x = true) : survives (onRoad road edits) x = true := by
  simp only [survives, onRoad, List.all_eq_true, List.mem_map, List.mem_filter] at h ⊢
  rintro edit ⟨tagged, ⟨hmem, _⟩, rfl⟩
  exact h tagged.2 ⟨tagged, hmem, rfl⟩

/-- The two lists after a first edit, in some order. -/
theorem two_cons_perm (edit : Bool × Edit α) (edits : List (Bool × Edit α)) :
    (two (edit :: edits)).Perm
      (edit.2.entry.toList.filter (survives (onRoad edit.1 edits)) ++ two edits) := by
  obtain ⟨road, edit⟩ := edit
  -- An edit of the first road stands in front already; one of the second is moved there.
  cases road with
  | true =>
    have htrue : onRoad true ((true, edit) :: edits) = edit :: onRoad true edits := rfl
    have hfalse : onRoad false ((true, edit) :: edits) = onRoad false edits := rfl
    rw [two, htrue, hfalse, replay_cons, List.append_assoc]
    exact List.Perm.refl _
  | false =>
    have htrue : onRoad true ((false, edit) :: edits) = onRoad true edits := rfl
    have hfalse : onRoad false ((false, edit) :: edits) = edit :: onRoad false edits := rfl
    rw [two, htrue, hfalse, replay_cons, two, ← List.append_assoc, ← List.append_assoc]
    exact List.perm_append_comm.append_right _

/-- The entry of an edit, kept if it survives. -/
theorem filter_entry_sublist (edit : Bool × Edit α) (edits : List (Bool × Edit α)) :
    (edit.2.entry.toList.filter (survives (edits.map Prod.snd))).Sublist
      (edit.2.entry.toList.filter (survives (onRoad edit.1 edits))) :=
  List.monotone_filter_right _ fun _ => survives_onRoad

/-- The two lists hold at least what the one list would hold. -/
theorem one_subperm_two : ∀ edits : List (Bool × Edit α), (one edits).Subperm (two edits)
  | [] => List.Subperm.refl _
  | edit :: edits => by
    rw [one, List.map_cons, replay_cons]
    exact ((filter_entry_sublist edit edits).subperm.append (one_subperm_two edits)).trans
      (two_cons_perm edit edits).symm.subperm

/-- The two lists hold as many entries as the one exactly when every edit is followed on its own
road. -/
theorem length_two_eq_iff :
    ∀ edits : List (Bool × Edit α), (two edits).length = (one edits).length ↔ OwnRoad edits
  | [] => ⟨fun _ => trivial, fun _ => rfl⟩
  | edit :: edits => by
    have ih := length_two_eq_iff edits
    have hrest := (one_subperm_two edits).length_le
    have hhead := (filter_entry_sublist edit edits).length_le
    rw [(two_cons_perm edit edits).length_eq, one, List.map_cons, replay_cons, OwnRoad, ← ih,
      List.length_append, List.length_append]
    have hone : (replay (edits.map Prod.snd)).length = (one edits).length := rfl
    -- The entry counts the same on both sides when surviving its road is surviving.
    have hentry : (edit.2.entry.toList.filter (survives (onRoad edit.1 edits))).length =
        (edit.2.entry.toList.filter (survives (edits.map Prod.snd))).length ↔
          ∀ x ∈ edit.2.entry, survives (onRoad edit.1 edits) x = true →
            survives (edits.map Prod.snd) x = true := by
      cases edit.2.entry with
      | none => simp
      | some x =>
        have hmono := @survives_onRoad α edit.1 edits x
        cases hall : survives (edits.map Prod.snd) x with
        | true => simp [hall, hmono hall]
        | false => cases hroad : survives (onRoad edit.1 edits) x <;> simp [hall, hroad]
    -- Neither the head nor the rest can fall short, so the sum is tight when both are.
    constructor
    · intro h
      exact ⟨hentry.1 (by omega), by omega⟩
    · rintro ⟨h₁, h₂⟩
      have := hentry.2 h₁
      omega

/-- The two lists hold what the one list would hold exactly when every edit is followed on its own
road. -/
theorem two_perm_one_iff (edits : List (Bool × Edit α)) :
    (two edits).Perm (one edits) ↔ OwnRoad edits := by
  rw [← length_two_eq_iff]
  constructor
  · exact List.Perm.length_eq
  · -- The one list is contained in the two, and as long.
    intro h
    exact ((one_subperm_two edits).perm_of_length_le (Nat.le_of_eq h)).symm

end Edit
end GenropyAsgi.Library
