import Mathlib.Data.List.Basic
import Mathlib.Data.List.Forall2
import Mathlib.Order.Basic
import Mathlib.Order.Nat
import Mathlib.Tactic.Push

/-!
# Objects that refer to one another

A heap is a list of objects, an object being referred to by its place. The names of a program are
bound to values: immutable ones, and references. What a program can read off a value is `observe`,
along every path of positions; what it can write to is `Reach`. Two parties whose names reach no
object in common do not see one another's writes, and `Confined` is what one party can do to a heap:
write to what it reaches, make new objects, and store in them what it reaches.
-/

namespace GenropyAsgi.Library

/-- What a name is bound to. -/
inductive Val (A : Type) where
  /-- An immutable value. -/
  | atom (a : A)
  /-- The object at a place of the heap. -/
  | ref (r : ℕ)
deriving DecidableEq

/-- The objects of a heap, each of which holds values in some order. -/
class Cell (A : outParam Type) (O : Type) where
  /-- The values that an object holds. -/
  vals : O → List (Val A)
  /-- The object with other values in their places. -/
  refill : O → List (Val A) → O
  /-- A refilled object holds the values it was refilled with. -/
  vals_refill : ∀ o vs, vs.length = (vals o).length → vals (refill o vs) = vs
  /-- An object refilled with its own values. -/
  refill_vals : ∀ o, refill o (vals o) = o
  /-- Of two refills the second one counts. -/
  refill_refill : ∀ o vs ws, vs.length = (vals o).length → ws.length = (vals o).length →
    refill (refill o vs) ws = refill o ws

/-- The objects by their places. -/
abbrev Heap (O : Type) := List O

variable {A O : Type} [Cell A O]

open Cell

/-! ## Reachability -/

/-- The objects that a value leads to. -/
inductive Reach (h : Heap O) : Val A → ℕ → Prop where
  /-- A reference leads to its object. -/
  | here (r : ℕ) : Reach h (.ref r) r
  /-- And to what the values of the object lead to. -/
  | inside {r x : ℕ} {o : O} {w : Val A} (hr : h[r]? = some o) (hw : w ∈ vals o)
      (hx : Reach h w x) : Reach h (.ref r) x

/-- A list of values leads to what one of them leads to. -/
def ReachAny (h : Heap O) (vs : List (Val A)) (x : ℕ) : Prop := ∃ v ∈ vs, Reach h v x

/-- An immutable value leads nowhere. -/
theorem not_reach_atom (h : Heap O) (a : A) (x : ℕ) : ¬ Reach h (.atom a) x := nofun

/-- What is reached from something reached. -/
theorem Reach.trans {h : Heap O} {v : Val A} {r x : ℕ} (hv : Reach h v r)
    (hx : Reach h (.ref r) x) : Reach h v x := by
  induction hv with
  | here r => exact hx
  | inside hr hw _ ih => exact .inside hr hw (ih hx)

/-- What a reference leads to is its object or what the object's values lead to. -/
theorem reach_ref_iff {h : Heap O} {r x : ℕ} :
    Reach h (.ref r) x ↔ x = r ∨ ∃ o, h[r]? = some o ∧ ReachAny h (vals o) x := by
  constructor
  · rintro (_ | ⟨hr, hw, hx⟩)
    · exact Or.inl rfl
    · exact Or.inr ⟨_, hr, _, hw, hx⟩
  · rintro (rfl | ⟨o, hr, w, hw, hx⟩)
    · exact .here x
    · exact .inside hr hw hx

/-- A value of an object that is reached leads to what is reached. -/
theorem Reach.step {h : Heap O} {v w : Val A} {r x : ℕ} {o : O} (hv : Reach h v r)
    (hr : h[r]? = some o) (hw : w ∈ vals o) (hx : Reach h w x) : Reach h v x :=
  hv.trans (.inside hr hw hx)

/-- A value that refers to no place beyond the heap. -/
def Good (h : Heap O) (v : Val A) : Prop := ∀ r, v = .ref r → r < h.length

/-- No object of the heap refers beyond it. -/
def Closed (h : Heap O) : Prop :=
  ∀ (r : ℕ) (o : O), h[r]? = some o → ∀ v ∈ vals o, Good h v

instance (h : Heap O) : (v : Val A) → Decidable (Good h v)
  | .atom _ => isTrue nofun
  | .ref r => decidable_of_iff (r < h.length)
      ⟨fun hlt s hs => by cases hs; exact hlt, fun hgood => hgood r rfl⟩

/-- Every object of a closed heap holds good values. -/
theorem closed_iff {h : Heap O} : Closed h ↔ ∀ o ∈ h, ∀ v ∈ vals o, Good h v := by
  constructor
  · intro hc o ho
    obtain ⟨r, hr⟩ := List.mem_iff_getElem?.1 ho
    exact hc r o hr
  · exact fun hall r o hr => hall o (List.mem_of_getElem? hr)

instance (h : Heap O) : Decidable (Closed h) := decidable_of_iff _ closed_iff.symm

omit [Cell A O] in
/-- An immutable value refers to nothing. -/
theorem good_atom (h : Heap O) (a : A) : Good h (.atom a) := nofun

/-- What a good value leads to is there. -/
theorem Closed.reach_lt {h : Heap O} (hc : Closed h) {v : Val A} {x : ℕ} (hv : Good h v)
    (hx : Reach h v x) : x < h.length := by
  induction hx with
  | here r => exact hv r rfl
  | inside hr hw _ ih => exact ih (hc _ _ hr _ hw)

/-- Heaps that agree on what a value leads to in the first: it leads to the same in the second. -/
theorem Reach.congr {h h' : Heap O} {v : Val A} {x : ℕ}
    (hagree : ∀ r, Reach h v r → h'[r]? = h[r]?) (hx : Reach h v x) : Reach h' v x := by
  induction hx with
  | here r => exact .here r
  | inside hr hw _ ih =>
    refine .inside ((hagree _ (.here _)).trans hr) hw (ih fun r hr' => ?_)
    exact hagree r (.inside hr hw hr')

/-- And to no more. -/
theorem Reach.congr_back {h h' : Heap O} {v : Val A} {x : ℕ}
    (hagree : ∀ r, Reach h v r → h'[r]? = h[r]?) (hx : Reach h' v x) : Reach h v x := by
  induction hx with
  | here r => exact .here r
  | inside hr hw _ ih =>
    have hold := (hagree _ (.here _)).symm.trans hr
    exact .inside hold hw (ih fun r hr' => hagree r (.inside hold hw hr'))

/-! ## Observation -/

/-- What a value shows of itself: an immutable value, or an object without the values it holds. -/
inductive Sight (A O : Type) where
  /-- An immutable value. -/
  | atom (a : A)
  /-- An object whose values are blanked out. -/
  | outline (o : O)
deriving DecidableEq

/-- An object with its values blanked out. -/
def outline (o : O) : O := refill o ((vals o).map fun _ => .ref 0)

/-- A refilled object has the outline of the object. -/
theorem outline_refill {o : O} {vs : List (Val A)} (h : vs.length = (vals o).length) :
    outline (refill o vs) = outline o := by
  have hblank : (vals (refill o vs)).map (fun _ => (.ref 0 : Val A)) =
      (vals o).map fun _ => .ref 0 := by
    rw [vals_refill o vs h, List.map_const', List.map_const', h]
  unfold outline
  rw [hblank, refill_refill o vs _ h (List.length_map _)]

/-- What is seen at the end of a path of positions. -/
def observe (h : Heap O) (v : Val A) : List ℕ → Option (Sight A O)
  | [] =>
    match v with
    | .atom a => some (.atom a)
    | .ref r => h[r]?.map fun o => .outline (outline o)
  | i :: path =>
    match v with
    | .atom _ => none
    | .ref r => h[r]?.bind fun o => (vals o)[i]?.bind fun w => observe h w path

/-- A path into an object. -/
theorem observe_ref_cons (h : Heap O) (r i : ℕ) (path : List ℕ) :
    observe h (.ref r) (i :: path) =
      h[r]?.bind fun o => (vals o)[i]?.bind fun w => observe h w path := rfl

/-- Two objects of one outline show the same where their values, place by place, do. -/
theorem observe_of_vals {h h' : Heap O} {r r' : ℕ} {o o' : O} (hr : h[r]? = some o)
    (hr' : h'[r']? = some o') (houtline : outline o' = outline o)
    (hvals : List.Forall₂ (fun w w' => ∀ path, observe h' w' path = observe h w path)
      (vals o) (vals o')) (path : List ℕ) :
    observe h' (.ref r') path = observe h (.ref r) path := by
  cases path with
  | nil => simp only [observe, hr, hr', Option.map_some, houtline]
  | cons i path =>
    rw [observe_ref_cons, observe_ref_cons, hr, hr', Option.bind_some, Option.bind_some]
    generalize vals o = ws at hvals ⊢
    generalize vals o' = ws' at hvals ⊢
    induction hvals generalizing i with
    | nil => rfl
    | cons hw _ ih =>
      cases i with
      | zero => exact hw path
      | succ i => exact ih i

/-- Heaps that agree on what a value leads to show the same of it. -/
theorem observe_congr {h h' : Heap O} (path : List ℕ) {v : Val A}
    (hagree : ∀ r, Reach h v r → h'[r]? = h[r]?) : observe h' v path = observe h v path := by
  induction path generalizing v with
  | nil =>
    cases v with
    | atom a => rfl
    | ref r => simp only [observe, hagree r (.here r)]
  | cons i path ih =>
    cases v with
    | atom a => rfl
    | ref r =>
      rw [observe_ref_cons, observe_ref_cons, hagree r (.here r)]
      cases hr : h[r]? with
      | none => rfl
      | some o =>
        simp only [Option.bind_some]
        cases hw : (vals o)[i]? with
        | none => rfl
        | some w =>
          have hmem : w ∈ vals o := List.mem_of_getElem? hw
          exact ih fun x hx => hagree x (.inside hr hmem hx)

/-! ## Growth -/

/-- A heap that got new objects and kept the old ones. -/
structure Grows (h h' : Heap O) : Prop where
  /-- No object went. -/
  length : h.length ≤ h'.length
  /-- No object changed. -/
  kept : ∀ r < h.length, h'[r]? = h[r]?

omit [Cell A O] in
/-- A heap that stays. -/
theorem Grows.refl (h : Heap O) : Grows h h := ⟨le_refl _, fun _ _ => rfl⟩

omit [Cell A O] in
/-- One growth after another. -/
theorem Grows.trans {h h' h'' : Heap O} (h₁ : Grows h h') (h₂ : Grows h' h'') : Grows h h'' where
  length := h₁.length.trans h₂.length
  kept r hr := (h₂.kept r (hr.trans_le h₁.length)).trans (h₁.kept r hr)

omit [Cell A O] in
/-- A new object. -/
theorem Grows.alloc (h : Heap O) (o : O) : Grows h (h ++ [o]) where
  length := by simp
  kept r hr := List.getElem?_append_left hr

omit [Cell A O] in
/-- A good value stays good. -/
theorem Grows.good {h h' : Heap O} (hg : Grows h h') {v : Val A} (hv : Good h v) : Good h' v :=
  fun r hr => (hv r hr).trans_le hg.length

/-- A grown heap agrees with the old one on what a good value leads to. -/
theorem Grows.agree {h h' : Heap O} (hg : Grows h h') (hc : Closed h) {v : Val A} (hv : Good h v)
    (r : ℕ) (hr : Reach h v r) : h'[r]? = h[r]? := hg.kept r (hc.reach_lt hv hr)

/-- A good value leads to the same objects in a grown heap. -/
theorem Grows.reach_iff {h h' : Heap O} (hg : Grows h h') (hc : Closed h) {v : Val A}
    (hv : Good h v) {x : ℕ} : Reach h' v x ↔ Reach h v x :=
  ⟨Reach.congr_back (hg.agree hc hv), Reach.congr (hg.agree hc hv)⟩

/-- And shows the same. -/
theorem Grows.observe_eq {h h' : Heap O} (hg : Grows h h') (hc : Closed h) {v : Val A}
    (hv : Good h v) (path : List ℕ) : observe h' v path = observe h v path :=
  observe_congr path (hg.agree hc hv)

/-- A new object whose values are good leaves the heap closed. -/
theorem Closed.alloc {h : Heap O} (hc : Closed h) {o : O} (ho : ∀ v ∈ vals o, Good h v) :
    Closed (h ++ [o]) := by
  intro r o' hr v hv
  apply (Grows.alloc h o).good
  by_cases hlt : r < h.length
  · rw [List.getElem?_append_left hlt] at hr
    exact hc r o' hr v hv
  · have hmem : o' ∈ [o] := by
      rw [List.getElem?_append_right (not_lt.1 hlt)] at hr
      exact List.mem_of_getElem? hr
    rw [List.mem_singleton] at hmem
    subst hmem
    exact ho v hv

/-! ## What one party does -/

/-- What a party can make of a heap: it writes to the objects that `target` leads to, it makes new
ones, and what it puts in them is new or something that `held` leads to. -/
structure Confined (h : Heap O) (target held : List (Val A)) (h' : Heap O) : Prop where
  /-- No object goes. -/
  length : h.length ≤ h'.length
  /-- What the party does not write to stays. -/
  outside : ∀ r < h.length, ¬ ReachAny h target r → h'[r]? = h[r]?
  /-- An object that it wrote to, or made, refers to what it held, or made. -/
  inside : ∀ (r : ℕ) (o : O), h'[r]? = some o → (h.length ≤ r ∨ ReachAny h target r) →
    ∀ x, Val.ref x ∈ vals o → x < h'.length ∧ (h.length ≤ x ∨ ReachAny h held x)

namespace Confined

variable {h h' : Heap O} {target held : List (Val A)}

/-- The heap stays closed. -/
theorem closed (hd : Confined h target held h') (hc : Closed h) : Closed h' := by
  intro r o hr v hv x hx
  subst hx
  by_cases hin : h.length ≤ r ∨ ReachAny h target r
  · exact (hd.inside r o hr hin x hv).1
  · push Not at hin
    rw [hd.outside r hin.1 hin.2] at hr
    exact (hc r o hr _ hv x rfl).trans_le hd.length

/-- Values that lead to nothing that the party writes to: it leaves them alone. -/
theorem agree (hd : Confined h target held h') (hc : Closed h) {v : Val A} (hv : Good h v)
    (happart : ∀ x, Reach h v x → ¬ ReachAny h target x) (r : ℕ) (hr : Reach h v r) :
    h'[r]? = h[r]? := hd.outside r (hc.reach_lt hv hr) (happart r hr)

/-- Such a value shows what it showed. -/
theorem observe_eq (hd : Confined h target held h') (hc : Closed h) {v : Val A} (hv : Good h v)
    (happart : ∀ x, Reach h v x → ¬ ReachAny h target x) (path : List ℕ) :
    observe h' v path = observe h v path := observe_congr path (hd.agree hc hv happart)

/-- And leads to what it led to. -/
theorem reach_iff (hd : Confined h target held h') (hc : Closed h) {v : Val A} (hv : Good h v)
    (happart : ∀ x, Reach h v x → ¬ ReachAny h target x) {x : ℕ} :
    Reach h' v x ↔ Reach h v x :=
  ⟨Reach.congr_back (hd.agree hc hv happart), Reach.congr (hd.agree hc hv happart)⟩

/-- What is reached afterwards, from what the party held or made, was held before or made. -/
theorem reach_held (hd : Confined h target held h') {v : Val A} {x : ℕ}
    (hv : ∀ r, v = .ref r → h.length ≤ r ∨ ReachAny h held r) (hx : Reach h' v x) :
    h.length ≤ x ∨ ReachAny h held x := by
  induction hx with
  | here r => exact hv r rfl
  | @inside r x o w hr hw _ ih =>
    refine ih fun y hy => ?_
    subst hy
    by_cases hin : h.length ≤ r ∨ ReachAny h target r
    · exact (hd.inside r o hr hin y hw).2
    · -- The object was held and not written to.
      push Not at hin
      rw [hd.outside r hin.1 hin.2] at hr
      obtain ⟨u, hu, hreach⟩ := (hv r rfl).resolve_left (not_le.2 hin.1)
      exact Or.inr ⟨u, hu, hreach.step hr hw (.here y)⟩

/-- Two parties that share nothing: after a step of the one, what it has then and what the other one
has share nothing. -/
theorem apart (hd : Confined h target held h') (hc : Closed h)
    (hsub : ∀ x, ReachAny h target x → ReachAny h held x) (others has : List (Val A))
    (hothers : ∀ v ∈ others, Good h v)
    (happart : ∀ x, ReachAny h others x → ¬ ReachAny h held x)
    (hhas : ∀ v ∈ has, ∀ r, v = .ref r → h.length ≤ r ∨ ReachAny h held r) (x : ℕ)
    (hx : ReachAny h' others x) : ¬ ReachAny h' has x := by
  rintro ⟨v, hv, hreach⟩
  obtain ⟨u, hu, hreach'⟩ := hx
  have hold : Reach h u x := by
    refine (hd.reach_iff hc (hothers u hu) fun y hy htarget => ?_).1 hreach'
    exact happart y ⟨u, hu, hy⟩ (hsub y htarget)
  rcases hd.reach_held (hhas v hv) hreach with hnew | hheld
  · exact absurd (hc.reach_lt (hothers u hu) hold) (not_lt.2 hnew)
  · exact happart x ⟨u, hu, hold⟩ hheld

/-- A party that does nothing. -/
theorem refl (hc : Closed h) (held : List (Val A)) : Confined h held held h where
  length := le_refl _
  outside _ _ _ := rfl
  inside r o hr hin x hx := by
    have hlt : r < h.length := (List.getElem?_eq_some_iff.1 hr).1
    obtain ⟨v, hv, hreach⟩ := hin.resolve_left (not_le.2 hlt)
    exact ⟨hc r o hr _ hx x rfl, Or.inr ⟨v, hv, hreach.step hr hx (.here x)⟩⟩

/-- A party that makes an object of what it holds. -/
theorem alloc (hc : Closed h) {o : O} (ho : ∀ r, Val.ref r ∈ vals o → Val.ref r ∈ held)
    (hheld : ∀ v ∈ held, Good h v) : Confined h held held (h ++ [o]) where
  length := by simp
  outside r hr _ := List.getElem?_append_left hr
  inside r o' hr hin x hx := by
    have hlength : (h ++ [o]).length = h.length + 1 := List.length_append
    by_cases hlt : r < h.length
    · rw [List.getElem?_append_left hlt] at hr
      obtain ⟨hgood, hreach⟩ := (refl hc held).inside r o' hr hin x hx
      exact ⟨by omega, hreach⟩
    · have hmem : o' ∈ [o] := by
        rw [List.getElem?_append_right (not_lt.1 hlt)] at hr
        exact List.mem_of_getElem? hr
      rw [List.mem_singleton] at hmem
      subst hmem
      have hgood : x < h.length := hheld _ (ho x hx) x rfl
      exact ⟨by omega, Or.inr ⟨_, ho x hx, .here x⟩⟩

/-- A party that writes to an object that it holds. -/
theorem set (hc : Closed h) {r : ℕ} (hr : Val.ref r ∈ held) {o : O}
    (ho : ∀ x, Val.ref x ∈ vals o → Val.ref x ∈ held) (hheld : ∀ v ∈ held, Good h v) :
    Confined h held held (h.set r o) where
  length := by rw [List.length_set]
  outside s _ hs := by
    have hne : r ≠ s := by
      rintro rfl
      exact hs ⟨_, hr, .here r⟩
    exact List.getElem?_set_ne hne
  inside s o' hs hin x hx := by
    rw [List.length_set]
    by_cases hne : r = s
    · subst hne
      rw [List.getElem?_set_self (hheld _ hr r rfl)] at hs
      cases hs
      exact ⟨hheld _ (ho x hx) x rfl, Or.inr ⟨_, ho x hx, .here x⟩⟩
    · rw [List.getElem?_set_ne hne] at hs
      exact (refl hc held).inside s o' hs hin x hx

end Confined

end GenropyAsgi.Library
