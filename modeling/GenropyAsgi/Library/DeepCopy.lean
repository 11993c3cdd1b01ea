import Mathlib.Data.List.Nodup
import Mathlib.Data.List.Perm.Subperm
import Mathlib.Data.List.Range
import GenropyAsgi.Library.Heap

/-!
# Copies of everything a value leads to

`deepcopy` copies an object and, through a memo of the copies made so far, each object that it leads
to once: what is shared, or leads back to itself, is so in the copy. The invariant of the traversal
is `Copying`: outside the objects whose copy has begun and not ended, every copy that the memo holds
is its original with the references renamed by the memo. What comes out is a `Replica`, new objects
alone that show what the original shows.
-/

namespace GenropyAsgi.Library

open Cell

/-- A value with its reference renamed. -/
def Val.rename {A : Type} (f : ℕ → ℕ) : Val A → Val A
  | .atom a => .atom a
  | .ref r => .ref (f r)

/-- The originals copied so far, each with its copy. -/
abbrev Memo := List (ℕ × ℕ)

namespace Memo

/-- The originals copied so far. -/
def keys (m : Memo) : List ℕ := m.map Prod.fst

/-- The copy of an original. -/
def find (m : Memo) (r : ℕ) : ℕ := (m.lookup r).getD r

/-- The value is immutable or its object has a copy. -/
def Knows {A : Type} (m : Memo) (v : Val A) : Prop := ∀ r, v = .ref r → r ∈ m.keys

/-- An original has a copy exactly when the memo lists it. -/
theorem lookup_eq_none_iff {m : Memo} {r : ℕ} : m.lookup r = none ↔ r ∉ m.keys := by
  rw [List.lookup_eq_none_iff]
  simp only [bne_iff_ne, ne_eq, keys, List.mem_map, not_exists, not_and]
  exact forall₂_congr fun e _ => not_congr eq_comm

/-- The entry of an original that is listed once. -/
theorem lookup_of_mem {m : Memo} (hm : m.keys.Nodup) {r r' : ℕ} (h : (r, r') ∈ m) :
    m.lookup r = some r' := by
  cases hlookup : m.lookup r with
  | none => exact absurd (List.mem_map.2 ⟨_, h, rfl⟩) (lookup_eq_none_iff.1 hlookup)
  | some s =>
    -- The entry found and the given one have the same key.
    obtain ⟨l₁, l₂, hsplit, _⟩ := List.lookup_eq_some_iff.1 hlookup
    have hs : (r, s) ∈ m := by
      rw [hsplit]
      simp
    have heq : (r, s) = (r, r') := List.inj_on_of_nodup_map hm hs h rfl
    cases heq
    rfl

/-- The copy of an original that is listed once. -/
theorem find_of_mem {m : Memo} (hm : m.keys.Nodup) {r r' : ℕ} (h : (r, r') ∈ m) :
    m.find r = r' := by
  unfold find
  rw [lookup_of_mem hm h]
  rfl

/-- The entry of a listed original. -/
theorem mem_find {m : Memo} (hm : m.keys.Nodup) {r : ℕ} (h : r ∈ m.keys) : (r, m.find r) ∈ m := by
  obtain ⟨⟨s, s'⟩, he, rfl⟩ := List.mem_map.1 h
  rw [find_of_mem hm he]
  exact he

/-- A longer memo knows what the memo knows. -/
theorem Knows.mono {A : Type} {m m' : Memo} (hsub : m ⊆ m') {v : Val A} (h : m.Knows v) :
    m'.Knows v := by
  intro r hr
  obtain ⟨e, he, rfl⟩ := List.mem_map.1 (h r hr)
  exact List.mem_map.2 ⟨e, hsub he, rfl⟩

/-- A longer memo renames alike what the memo knows. -/
theorem rename_mono {A : Type} {m m' : Memo} (hm : m.keys.Nodup) (hm' : m'.keys.Nodup)
    (hsub : m ⊆ m') {v : Val A} (h : m.Knows v) : v.rename m'.find = v.rename m.find := by
  cases v with
  | atom a => rfl
  | ref r =>
    have hmem := mem_find hm (h r rfl)
    simp only [Val.rename, find_of_mem hm' (hsub hmem)]

/-- An original looked up is known. -/
theorem knows_of_lookup {A : Type} {m : Memo} {r r' : ℕ} (h : m.lookup r = some r') :
    m.Knows (.ref r : Val A) := by
  rintro s ⟨⟩
  by_contra hnot
  rw [lookup_eq_none_iff.2 hnot] at h
  cases h

/-- And renamed to what was looked up. -/
theorem rename_of_lookup {A : Type} {m : Memo} {r r' : ℕ} (h : m.lookup r = some r') :
    (.ref r' : Val A) = (Val.ref r).rename m.find := by
  simp only [Val.rename, find, h, Option.getD_some]

end Memo

variable {A O : Type} [Cell A O]

/-- The copies of a list of values, one after another. -/
def copyAll (copy : Heap O → Memo → Val A → Option (Heap O × Memo × Val A)) :
    Heap O → Memo → List (Val A) → Option (Heap O × Memo × List (Val A))
  | h, m, [] => some (h, m, [])
  | h, m, v :: vs =>
    (copy h m v).bind fun one =>
      (copyAll copy one.1 one.2.1 vs).map fun more => (more.1, more.2.1, one.2.2 :: more.2.2)

/-- The copy of a value. An object that the memo does not hold gets an empty copy, which the memo
holds before the values of the object are copied into it. -/
def deepcopy : ℕ → Heap O → Memo → Val A → Option (Heap O × Memo × Val A)
  | _, h, m, .atom a => some (h, m, .atom a)
  | 0, h, m, .ref r => (m.lookup r).map fun r' => (h, m, .ref r')
  | fuel + 1, h, m, .ref r =>
    match m.lookup r with
    | some r' => some (h, m, .ref r')
    | none =>
      h[r]?.bind fun o =>
        (copyAll (deepcopy fuel) (h ++ [refill o []]) ((r, h.length) :: m) (vals o)).map
          fun done => (done.1.set h.length (refill o done.2.2), done.2.1, .ref h.length)

/-- The traversal under way: `pending` are the originals whose copy has begun and not ended. -/
structure Copying (h₀ h : Heap O) (m : Memo) (pending : List ℕ) : Prop where
  /-- The heap before the traversal is still there. -/
  grows : Grows h₀ h
  /-- An original is listed once. -/
  keys : m.keys.Nodup
  /-- It is an object of the heap before the traversal. -/
  old : ∀ e ∈ m, e.1 < h₀.length
  /-- Its copy is a new object. -/
  fresh : ∀ e ∈ m, h₀.length ≤ e.2 ∧ e.2 < h.length
  /-- A new object is the copy of one original. -/
  copies : (m.map Prod.snd).Nodup
  /-- Every new object is a copy. -/
  all : ∀ x, h₀.length ≤ x → x < h.length → x ∈ m.map Prod.snd
  /-- A copy that has ended is its original, renamed. -/
  done : ∀ e ∈ m, e.1 ∉ pending → ∃ o, h₀[e.1]? = some o ∧ (∀ v ∈ vals o, m.Knows v) ∧
    h[e.2]? = some (refill o ((vals o).map (Val.rename m.find)))

namespace Copying

/-- Before the traversal. -/
theorem start (h : Heap O) : Copying h h [] [] where
  grows := .refl h
  keys := List.nodup_nil
  old := nofun
  fresh := nofun
  copies := List.nodup_nil
  all _ hge hlt := absurd hlt (not_lt.2 hge)
  done := nofun

variable {h₀ h : Heap O} {m : Memo} {pending : List ℕ}

/-- A copy that begins. -/
theorem begin (hc : Copying h₀ h m pending) {r : ℕ} (hr : r < h₀.length) (hnew : r ∉ m.keys)
    (o : O) : Copying h₀ (h ++ [o]) ((r, h.length) :: m) (r :: pending) where
  grows := hc.grows.trans (.alloc h o)
  keys := List.nodup_cons.2 ⟨hnew, hc.keys⟩
  old e he := by
    rcases List.mem_cons.1 he with rfl | he
    · exact hr
    · exact hc.old e he
  fresh e he := by
    have hlength : (h ++ [o]).length = h.length + 1 := List.length_append
    rcases List.mem_cons.1 he with rfl | he
    · exact ⟨hc.grows.length, by omega⟩
    · have := hc.fresh e he
      exact ⟨this.1, by omega⟩
  copies := by
    refine List.nodup_cons.2 ⟨fun hmem => ?_, hc.copies⟩
    obtain ⟨e, he, heq⟩ := List.mem_map.1 hmem
    have hlt := (hc.fresh e he).2
    rw [heq] at hlt
    exact lt_irrefl _ hlt
  all x hge hlt := by
    have hlength : (h ++ [o]).length = h.length + 1 := List.length_append
    by_cases hx : x < h.length
    · exact List.mem_cons_of_mem _ (hc.all x hge hx)
    · have : x = h.length := by omega
      rw [this]
      exact List.mem_cons_self
  done e he hpending := by
    -- The copies that had ended still are: the new entry renames none of their values.
    have hne : e.1 ≠ r := fun heq => hpending (heq ▸ List.mem_cons_self)
    have hmem : e ∈ m := by
      rcases List.mem_cons.1 he with rfl | he
      · exact absurd rfl hne
      · exact he
    obtain ⟨o', ho', hknows, hcopy⟩ := hc.done e hmem fun hp => hpending (List.mem_cons_of_mem _ hp)
    have hsub : m ⊆ (r, h.length) :: m := List.subset_cons_self _ _
    refine ⟨o', ho', fun v hv => (hknows v hv).mono hsub, ?_⟩
    rw [List.getElem?_append_left (hc.fresh e hmem).2, hcopy]
    have hrename : (vals o').map (Val.rename m.find) =
        (vals o').map (Val.rename (Memo.find ((r, h.length) :: m))) := by
      apply List.map_congr_left
      intro v hv
      have hkeys : Memo.keys ((r, h.length) :: m) |>.Nodup := List.nodup_cons.2 ⟨hnew, hc.keys⟩
      exact (Memo.rename_mono hc.keys hkeys hsub (hknows v hv)).symm
    rw [hrename]

/-- A copy that ends: the values of the original, renamed, are put into it. -/
theorem finish {r place : ℕ} {o : O} (hc : Copying h₀ h m (r :: pending)) (hmem : (r, place) ∈ m)
    (ho : h₀[r]? = some o) (hknows : ∀ v ∈ vals o, m.Knows v) :
    Copying h₀ (h.set place (refill o ((vals o).map (Val.rename m.find)))) m pending where
  grows := by
    refine ⟨?_, fun x hx => ?_⟩
    · rw [List.length_set]
      exact hc.grows.length
    · have hne : place ≠ x := by
        have := (hc.fresh _ hmem).1
        simp only at this
        omega
      rw [List.getElem?_set_ne hne]
      exact hc.grows.kept x hx
  keys := hc.keys
  old := hc.old
  fresh e he := by
    rw [List.length_set]
    exact hc.fresh e he
  copies := hc.copies
  all x hge hlt := by
    rw [List.length_set] at hlt
    exact hc.all x hge hlt
  done e he hpending := by
    by_cases hplace : place = e.2
    · -- The copy that ends is the copy of `r` alone.
      have heq : e = (r, place) := by
        have hinj := List.inj_on_of_nodup_map hc.copies
        exact hinj he hmem hplace.symm
      subst heq
      refine ⟨o, ho, hknows, ?_⟩
      exact List.getElem?_set_self (hc.fresh _ hmem).2
    · have hne : e.1 ≠ r := by
        rintro rfl
        have hfind := Memo.find_of_mem hc.keys hmem
        rw [Memo.find_of_mem hc.keys he] at hfind
        exact hplace hfind.symm
      obtain ⟨o', ho', hk, hcopy⟩ := hc.done e he fun hp =>
        (List.mem_cons.1 hp).elim hne hpending
      refine ⟨o', ho', hk, ?_⟩
      rw [List.getElem?_set_ne hplace]
      exact hcopy

end Copying

/-- What a step of the traversal leaves: a longer memo that knows what was to be copied. -/
structure Advances (h₀ : Heap O) (m : Memo) (pending : List ℕ) (h' : Heap O) (m' : Memo) :
    Prop where
  /-- The traversal goes on. -/
  copying : Copying h₀ h' m' pending
  /-- No copy is forgotten. -/
  sub : m ⊆ m'

/-- The step lemma of the traversal, with the values in the place of the one value. -/
theorem copyAll_advances {copy : Heap O → Memo → Val A → Option (Heap O × Memo × Val A)}
    {h₀ : Heap O} {pending : List ℕ}
    (hcopy : ∀ h m v h' m' v', Copying h₀ h m pending → Good h₀ v →
      copy h m v = some (h', m', v') →
        Advances h₀ m pending h' m' ∧ m'.Knows v ∧ v' = v.rename m'.find) :
    ∀ {vs : List (Val A)} {h h' : Heap O} {m m' : Memo} {vs' : List (Val A)},
      Copying h₀ h m pending → (∀ v ∈ vs, Good h₀ v) → copyAll copy h m vs = some (h', m', vs') →
        Advances h₀ m pending h' m' ∧ (∀ v ∈ vs, m'.Knows v) ∧
          vs' = vs.map (Val.rename m'.find)
  | [], _, _, _, _, _, hc, _, heq => by
    cases heq
    exact ⟨⟨hc, List.Subset.refl _⟩, nofun, rfl⟩
  | v :: vs, h, h', m, m', vs', hc, hgood, heq => by
    rw [copyAll, Option.bind_eq_some_iff] at heq
    obtain ⟨⟨h₁, m₁, w⟩, hone, hrest⟩ := heq
    rw [Option.map_eq_some_iff] at hrest
    obtain ⟨⟨h₂, m₂, ws⟩, hmore, hresult⟩ := hrest
    cases hresult
    obtain ⟨hadv, hknows, hw⟩ := hcopy h m v h₁ m₁ w hc (hgood v List.mem_cons_self) hone
    obtain ⟨hadv', hknows', hws⟩ := copyAll_advances hcopy hadv.copying
      (fun u hu => hgood u (List.mem_cons_of_mem v hu)) hmore
    refine ⟨⟨hadv'.copying, fun e he => hadv'.sub (hadv.sub he)⟩, fun u hu => ?_, ?_⟩
    · rcases List.mem_cons.1 hu with rfl | hu
      · exact hknows.mono hadv'.sub
      · exact hknows' u hu
    · have hrename := Memo.rename_mono hadv.copying.keys hadv'.copying.keys hadv'.sub hknows
      rw [List.map_cons, hrename, ← hw, ← hws]

/-- The step lemma of the traversal: it goes on, and the value has its copy. -/
theorem deepcopy_advances {h₀ : Heap O} (hclosed : Closed h₀) :
    ∀ (fuel : ℕ) {pending : List ℕ} (h : Heap O) (m : Memo) (v : Val A) (h' : Heap O) (m' : Memo)
      (v' : Val A), Copying h₀ h m pending → Good h₀ v → deepcopy fuel h m v = some (h', m', v') →
        Advances h₀ m pending h' m' ∧ m'.Knows v ∧ v' = v.rename m'.find
  | fuel, pending, h, m, .atom a, h', m', v', hc, _, heq => by
    have : deepcopy fuel h m (.atom a) = some (h, m, .atom a) := by cases fuel <;> rfl
    rw [this] at heq
    cases heq
    have hknows : m.Knows (.atom a : Val A) := by
      intro r hr
      cases hr
    exact ⟨⟨hc, List.Subset.refl _⟩, hknows, rfl⟩
  | 0, pending, h, m, .ref r, h', m', v', hc, _, heq => by
    obtain ⟨r', hr', hresult⟩ := Option.map_eq_some_iff.1 heq
    cases hresult
    exact ⟨⟨hc, List.Subset.refl _⟩, Memo.knows_of_lookup hr', Memo.rename_of_lookup hr'⟩
  | fuel + 1, pending, h, m, .ref r, h', m', v', hc, hgood, heq => by
    rw [deepcopy] at heq
    cases hr : m.lookup r with
    | some r' =>
      rw [hr] at heq
      cases heq
      exact ⟨⟨hc, List.Subset.refl _⟩, Memo.knows_of_lookup hr, Memo.rename_of_lookup hr⟩
    | none =>
      rw [hr] at heq
      obtain ⟨o, ho, heq⟩ := Option.bind_eq_some_iff.1 heq
      obtain ⟨⟨h₁, m₁, vs⟩, hall, hresult⟩ := Option.map_eq_some_iff.1 heq
      cases hresult
      have hlt : r < h₀.length := hgood r rfl
      have ho₀ : h₀[r]? = some o := (hc.grows.kept r hlt).symm.trans ho
      -- The copy of the object begins, its values are copied, and it ends.
      have hbegin := hc.begin hlt (Memo.lookup_eq_none_iff.1 hr) (refill o [])
      obtain ⟨hadv, hknows, rfl⟩ := copyAll_advances
        (fun h m v h' m' v' hc hv => deepcopy_advances hclosed fuel h m v h' m' v' hc hv)
        hbegin (hclosed r o ho₀) hall
      have hmem : (r, h.length) ∈ m₁ := hadv.sub List.mem_cons_self
      refine ⟨⟨hadv.copying.finish hmem ho₀ hknows, fun e he => ?_⟩, ?_, ?_⟩
      · exact hadv.sub (List.mem_cons_of_mem _ he)
      · rintro s ⟨⟩
        exact List.mem_map.2 ⟨_, hmem, rfl⟩
      · simp only [Val.rename, Memo.find_of_mem hadv.copying.keys hmem]

/-! ## The traversal ends -/

/-- The originals copied so far are as many as the objects of the heap, at most. -/
theorem Copying.memo_lt {h₀ h : Heap O} {m : Memo} {pending : List ℕ}
    (hc : Copying h₀ h m pending) {r : ℕ} (hr : r < h₀.length) (hnew : r ∉ m.keys) :
    m.length < h₀.length := by
  -- The originals are distinct objects of the heap, and `r` is one more.
  have hnodup : (r :: m.keys).Nodup := List.nodup_cons.2 ⟨hnew, hc.keys⟩
  have hsub : r :: m.keys ⊆ List.range h₀.length := by
    intro s hs
    rw [List.mem_range]
    rcases List.mem_cons.1 hs with rfl | hs
    · exact hr
    · obtain ⟨e, he, rfl⟩ := List.mem_map.1 hs
      exact hc.old e he
  have hle := (hnodup.subperm hsub).length_le
  rw [List.length_range, List.length_cons, Memo.keys, List.length_map] at hle
  exact hle

/-- A step of the traversal forgets no copy. -/
theorem Advances.length_le {h₀ h h' : Heap O} {m m' : Memo} {pending : List ℕ}
    (hc : Copying h₀ h m pending) (hadv : Advances h₀ m pending h' m') : m.length ≤ m'.length :=
  ((List.Nodup.of_map _ hc.keys).subperm hadv.sub).length_le

/-- The copies of a list of values are made where the copy of each one is. -/
theorem copyAll_isSome {copy : Heap O → Memo → Val A → Option (Heap O × Memo × Val A)}
    {h₀ : Heap O} {pending : List ℕ} {room : ℕ}
    (hcopy : ∀ h m v h' m' v', Copying h₀ h m pending → Good h₀ v →
      copy h m v = some (h', m', v') →
        Advances h₀ m pending h' m' ∧ m'.Knows v ∧ v' = v.rename m'.find)
    (hsome : ∀ h m v, Copying h₀ h m pending → Good h₀ v → h₀.length ≤ room + m.length →
      (copy h m v).isSome) :
    ∀ {vs : List (Val A)} {h : Heap O} {m : Memo}, Copying h₀ h m pending →
      (∀ v ∈ vs, Good h₀ v) → h₀.length ≤ room + m.length → (copyAll copy h m vs).isSome
  | [], _, _, _, _, _ => rfl
  | v :: vs, h, m, hc, hgood, hroom => by
    obtain ⟨⟨h₁, m₁, w⟩, hone⟩ :=
      Option.isSome_iff_exists.1 (hsome h m v hc (hgood v List.mem_cons_self) hroom)
    have hadv := (hcopy h m v h₁ m₁ w hc (hgood v List.mem_cons_self) hone).1
    have hlength := hadv.length_le hc
    obtain ⟨more, hmore⟩ := Option.isSome_iff_exists.1 (copyAll_isSome hcopy hsome hadv.copying
      (fun u hu => hgood u (List.mem_cons_of_mem v hu)) (by omega))
    simp only [copyAll, hone, Option.bind_some, hmore, Option.map_some, Option.isSome_some]

/-- With fuel for every object not copied yet the copy is made. -/
theorem deepcopy_isSome {h₀ : Heap O} (hclosed : Closed h₀) :
    ∀ (fuel : ℕ) {pending : List ℕ} (h : Heap O) (m : Memo) (v : Val A),
      Copying h₀ h m pending → Good h₀ v → h₀.length ≤ fuel + m.length →
        (deepcopy fuel h m v).isSome
  | fuel, _, h, m, .atom a, _, _, _ => by
    cases fuel <;> rfl
  | 0, _, h, m, .ref r, hc, hgood, hroom => by
    -- Without fuel every object has been copied, and `r` is one of them.
    have hknown : ¬ m.lookup r = none := by
      intro hnone
      have hlt := hc.memo_lt (hgood r rfl) (Memo.lookup_eq_none_iff.1 hnone)
      omega
    obtain ⟨r', hr'⟩ := Option.ne_none_iff_exists'.1 hknown
    simp only [deepcopy, hr', Option.map_some, Option.isSome_some]
  | fuel + 1, pending, h, m, .ref r, hc, hgood, hroom => by
    have hlt : r < h₀.length := hgood r rfl
    cases hr : m.lookup r with
    | some r' => simp only [deepcopy, hr, Option.isSome_some]
    | none =>
      have ho : h[r]? = some h₀[r] := (hc.grows.kept r hlt).trans (List.getElem?_eq_getElem hlt)
      have hvals := hclosed r h₀[r] (List.getElem?_eq_getElem hlt)
      have hbegin := hc.begin hlt (Memo.lookup_eq_none_iff.1 hr) (refill h₀[r] [])
      obtain ⟨done, hdone⟩ := Option.isSome_iff_exists.1 (copyAll_isSome
        (fun h m v h' m' v' hc hv => deepcopy_advances hclosed fuel h m v h' m' v' hc hv)
        (fun h m v hc hv => deepcopy_isSome hclosed fuel h m v hc hv)
        hbegin hvals (by simp only [List.length_cons]; omega))
      simp only [deepcopy, hr, ho, Option.bind_some, hdone, Option.map_some, Option.isSome_some]

/-! ## What comes out -/

/-- A copy of all that a value leads to, made of new objects. -/
structure Replica (h h' : Heap O) (v v' : Val A) (f : ℕ → ℕ) : Prop where
  /-- The objects that were there are as they were. -/
  grows : Grows h h'
  /-- The copy is the value with its reference renamed. -/
  value : v' = v.rename f
  /-- The copy of an object is the object with its references renamed. -/
  object : ∀ r o, Reach h v r → h[r]? = some o →
    h'[f r]? = some (refill o ((vals o).map (Val.rename f)))
  /-- It is a new object. -/
  fresh : ∀ r, Reach h v r → h.length ≤ f r ∧ f r < h'.length
  /-- Two objects have two copies. -/
  injective : ∀ r s, Reach h v r → Reach h v s → f r = f s → r = s
  /-- What was added refers to nothing beyond. -/
  closed : Closed h'

/-- `deepcopy` makes a copy of all that the value leads to. -/
theorem deepcopy_replica {h h' : Heap O} {m' : Memo} {v v' : Val A} {fuel : ℕ} (hclosed : Closed h)
    (hgood : Good h v) (heq : deepcopy fuel h [] v = some (h', m', v')) :
    Replica h h' v v' m'.find := by
  obtain ⟨⟨hcopying, _⟩, hknows, hvalue⟩ :=
    deepcopy_advances hclosed fuel h [] v h' m' v' (.start h) hgood heq
  -- Every object that the value leads to is in the memo.
  have hkeys : ∀ {u : Val A} {r : ℕ}, m'.Knows u → Reach h u r → r ∈ m'.keys := by
    intro u r hu hr
    induction hr with
    | here r => exact hu r rfl
    | @inside r x o w ho hw _ ih =>
      obtain ⟨o', ho', hvals, _⟩ := hcopying.done _ (Memo.mem_find hcopying.keys (hu r rfl)) nofun
      rw [ho] at ho'
      cases ho'
      exact ih (hvals w hw)
  have hentry : ∀ {r : ℕ}, Reach h v r → (r, m'.find r) ∈ m' := fun hr =>
    Memo.mem_find hcopying.keys (hkeys hknows hr)
  have hobject : ∀ e ∈ m', ∃ o, h[e.1]? = some o ∧ (∀ u ∈ vals o, m'.Knows u) ∧
      h'[e.2]? = some (refill o ((vals o).map (Val.rename m'.find))) := fun e he =>
    hcopying.done e he nofun
  refine ⟨hcopying.grows, hvalue, ?_, fun r hr => hcopying.fresh _ (hentry hr), ?_, ?_⟩
  · intro r o hr ho
    obtain ⟨o', ho', _, hcopy⟩ := hobject _ (hentry hr)
    rw [ho] at ho'
    cases ho'
    exact hcopy
  · intro r s hr hs heq
    have hinj := List.inj_on_of_nodup_map hcopying.copies
    have hpair : (r, m'.find r) = (s, m'.find s) := hinj (hentry hr) (hentry hs) heq
    exact congrArg Prod.fst hpair
  · intro x o ho u hu
    by_cases hx : x < h.length
    · rw [hcopying.grows.kept x hx] at ho
      exact hcopying.grows.good (hclosed x o ho u hu)
    · -- A new object holds copies of the values of its original.
      have hlt : x < h'.length := (List.getElem?_eq_some_iff.1 ho).1
      obtain ⟨e, he, rfl⟩ := List.mem_map.1 (hcopying.all x (not_lt.1 hx) hlt)
      obtain ⟨o', _, hvals, hcopy⟩ := hobject e he
      rw [ho] at hcopy
      cases hcopy
      rw [vals_refill _ _ (by rw [List.length_map])] at hu
      obtain ⟨w, hw, rfl⟩ := List.mem_map.1 hu
      cases w with
      | atom a => exact good_atom _ a
      | ref r =>
        rintro s ⟨⟩
        exact (hcopying.fresh _ (Memo.mem_find hcopying.keys (hvals _ hw r rfl))).2

namespace Replica

variable {h h' : Heap O} {v v' : Val A} {f : ℕ → ℕ}

/-- Along what the value leads to. -/
theorem inside (hr : Replica h h' v v' f) {r : ℕ} {o : O} {w : Val A} (hreach : Reach h v r)
    (ho : h[r]? = some o) (hw : w ∈ vals o) : Replica h h' w (w.rename f) f where
  grows := hr.grows
  value := rfl
  object s o' hs ho' := hr.object s o' (hreach.step ho hw hs) ho'
  fresh s hs := hr.fresh s (hreach.step ho hw hs)
  injective s t hs ht heq := hr.injective s t (hreach.step ho hw hs) (hreach.step ho hw ht) heq
  closed := hr.closed

/-- The copy shows what the value shows. -/
theorem observe_eq (hclosed : Closed h) (path : List ℕ) (hr : Replica h h' v v' f)
    (hgood : Good h v) : observe h' v' path = observe h v path := by
  induction path generalizing v v' with
  | nil =>
    rw [hr.value]
    cases v with
    | atom a => rfl
    | ref r =>
      have hlt : r < h.length := hgood r rfl
      have ho : h[r]? = some h[r] := List.getElem?_eq_getElem hlt
      simp only [observe, Val.rename, hr.object r _ (.here r) ho, ho, Option.map_some,
        outline_refill (List.length_map _)]
  | cons i path ih =>
    rw [hr.value]
    cases v with
    | atom a => rfl
    | ref r =>
      have hlt : r < h.length := hgood r rfl
      have ho : h[r]? = some h[r] := List.getElem?_eq_getElem hlt
      have hvals : vals (refill h[r] ((vals h[r]).map (Val.rename f))) =
          (vals h[r]).map (Val.rename f) := vals_refill _ _ (List.length_map _)
      simp only [Val.rename, observe_ref_cons, hr.object r _ (.here r) ho, ho, Option.bind_some,
        hvals, List.getElem?_map]
      cases hw : (vals h[r])[i]? with
      | none => rfl
      | some w =>
        have hmem : w ∈ vals h[r] := List.mem_of_getElem? hw
        exact ih (hr.inside (.here r) ho hmem) (hclosed r _ ho w hmem)

/-- The copy leads to new objects alone. -/
theorem reach_new (hr : Replica h h' v v' f) (hclosed : Closed h) (hgood : Good h v) {x : ℕ}
    (hx : Reach h' v' x) : ∃ r, Reach h v r ∧ x = f r := by
  rw [hr.value] at hx
  generalize hu : v.rename f = u at hx
  induction hx generalizing v v' with
  | here r =>
    cases v with
    | atom a => cases hu
    | ref s =>
      cases hu
      exact ⟨s, .here s, rfl⟩
  | @inside r y o w ho hw _ ih =>
    cases v with
    | atom a => cases hu
    | ref s =>
      cases hu
      have hs : s < h.length := hgood s rfl
      have hcopy := hr.object s h[s] (.here s) (List.getElem?_eq_getElem hs)
      rw [ho] at hcopy
      cases hcopy
      rw [vals_refill _ _ (List.length_map _)] at hw
      obtain ⟨w', hw', rfl⟩ := List.mem_map.1 hw
      have hold : h[s]? = some h[s] := List.getElem?_eq_getElem hs
      obtain ⟨t, ht, rfl⟩ :=
        ih (hr.inside (.here s) hold hw') (hclosed s _ hold w' hw') rfl
      exact ⟨t, .inside hold hw' ht, rfl⟩

end Replica

end GenropyAsgi.Library
