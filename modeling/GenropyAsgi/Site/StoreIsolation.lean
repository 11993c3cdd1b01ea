import GenropyAsgi.Library.Run
import GenropyAsgi.Site.StoreCopies

/-!
# The register and the site's code on one heap

The in-process register hands the site values out of the Bag of an item, and takes values from it,
without a wire in between. `Site` is the heap they share: the Bag of one item, and the values that
the site's code has names for. The site's code makes objects, looks into them and writes to them;
`getItem`, `setItem` and `delItem` are those of `ServerStore`, over the operations of the legacy
Bag, code outside the repository, whose contract is `StoreBag.Spec`.

What separates the two is that what crosses is copied. The copy is as good as a wire exactly for the
values of which `_copied` hands over nothing mutable itself (`isolated_iff_detached`), and then
neither side sees what the other one does to its own objects.
-/

namespace GenropyAsgi.Copies

open Library Cell

variable {A P : Type}

/-- What `ServerStore` calls on the Bag of an item. -/
structure StoreBag (A P : Type) where
  /-- `getItem(path, ...)`, `none` where the default is answered. -/
  getItem : Heap (Obj A) → ℕ → P → Option (Val A)
  /-- `setItem(path, value, **kwargs)`, the keywords being attributes. -/
  setItem : Heap (Obj A) → ℕ → P → Val A → List (String × Val A) → Heap (Obj A)
  /-- `delItem(path)`. -/
  delItem : Heap (Obj A) → ℕ → P → Heap (Obj A)

/-- What `ServerStore` needs of them: a read answers something that the Bag holds; a write changes
what the Bag leads to, and puts in there what it was given; a delete puts nothing in. -/
structure StoreBag.Spec (bag : StoreBag A P) : Prop where
  /-- What a read answers, the Bag leads to. -/
  getItem : ∀ (h : Heap (Obj A)) (b : ℕ) (path : P) (v : Val A) (x : ℕ),
    bag.getItem h b path = some v → Reach h v x → Reach h (.ref b) x
  /-- A write changes nothing but what the Bag leads to, and stores what it was given. -/
  setItem : ∀ (h : Heap (Obj A)) (b : ℕ) (path : P) (v : Val A) (kwargs : List (String × Val A)),
    Closed h → b < h.length → Good h v → (∀ w ∈ kwargs.map Prod.snd, Good h w) →
      Confined h [.ref b] (.ref b :: v :: kwargs.map Prod.snd) (bag.setItem h b path v kwargs)
  /-- Afterwards the Bag leads to what it was given. -/
  setItem_lands : ∀ (h : Heap (Obj A)) (b : ℕ) (path : P) (v : Val A)
    (kwargs : List (String × Val A)), Closed h → b < h.length → ∀ w ∈ v :: kwargs.map Prod.snd,
      ∀ x, Reach h w x → (∀ y, Reach h w y → ¬ Reach h (.ref b) y) →
        Reach (bag.setItem h b path v kwargs) (.ref b) x
  /-- A delete changes nothing but what the Bag leads to. -/
  delItem : ∀ (h : Heap (Obj A)) (b : ℕ) (path : P), Closed h → b < h.length →
    Confined h [.ref b] [.ref b] (bag.delItem h b path)

/-- The register and the site's code. -/
structure Site (A : Type) where
  /-- The objects of the process. -/
  heap : Heap (Obj A)
  /-- The Bag of the item. -/
  store : ℕ
  /-- The values that the site's code has names for. -/
  names : List (Val A)

/-- A value that the site's code can write down: immutable, or one that it has a name for. -/
def Has (names : List (Val A)) : Val A → Prop
  | .atom _ => True
  | .ref r => .ref r ∈ names

instance [DecidableEq A] (names : List (Val A)) : (v : Val A) → Decidable (Has names v)
  | .atom _ => isTrue trivial
  | .ref r => inferInstanceAs (Decidable (.ref r ∈ names))

/-- A step of the site's code. -/
inductive SiteAct (A P : Type) where
  /-- `store.getItem(path, default)`. -/
  | getItem (path : P) (default : Val A)
  /-- `store.setItem(path, value, **kwargs)`. -/
  | setItem (path : P) (value : Val A) (kwargs : List (String × Val A))
  /-- `store.delItem(path)`. -/
  | delItem (path : P)
  /-- An object is made. -/
  | make (o : Obj A)
  /-- A value is taken out of an object. -/
  | look (r i : ℕ)
  /-- An object is written to. -/
  | put (r : ℕ) (o : Obj A)

variable (bag : StoreBag A P) (depth : ℕ)

/-- What a step makes of the heap and of the names. -/
def step [DecidableEq A] (s : Site A) : SiteAct A P → Option (Site A)
  | .getItem path default =>
    if Has s.names default then
      (copied depth s.heap ((bag.getItem s.heap s.store path).getD default)).map fun done =>
        { s with heap := done.1, names := done.2 :: s.names }
    else none
  | .setItem path value kwargs =>
    if Has s.names value ∧ ∀ w ∈ kwargs.map Prod.snd, Has s.names w then
      (copied depth s.heap value).map fun done =>
        { s with heap := bag.setItem done.1 s.store path done.2 kwargs }
    else none
  | .delItem path => some { s with heap := bag.delItem s.heap s.store path }
  | .make o =>
    if ∀ w ∈ vals o, Has s.names w then
      some { s with heap := s.heap ++ [o], names := .ref s.heap.length :: s.names }
    else none
  | .look r i =>
    if .ref r ∈ s.names then
      s.heap[r]?.bind fun o => (vals o)[i]?.map fun w => { s with names := w :: s.names }
    else none
  | .put r o =>
    if .ref r ∈ s.names ∧ ∀ w ∈ vals o, Has s.names w then
      some { s with heap := s.heap.set r o }
    else none

/-- Nothing refers beyond the heap. -/
structure Sound (s : Site A) : Prop where
  /-- No object does. -/
  closed : Closed s.heap
  /-- The Bag of the item is there. -/
  store : s.store < s.heap.length
  /-- No name does. -/
  names : ∀ v ∈ s.names, Good s.heap v

/-- The Bag of the item and the names of the site's code lead to no object in common. -/
def Apart (s : Site A) : Prop :=
  ∀ x, Reach s.heap (.ref s.store) x → ¬ ReachAny s.heap s.names x

/-- A value of which `_copied` hands over nothing but immutable values. -/
def Detached (h : Heap (Obj A)) (v : Val A) : Prop := ∀ k, Kept h v k → ∃ a, k = .atom a

/-- What crosses in a step is detached: what a read finds, and what a write is given; and the
attributes of a write are immutable. -/
def DetachedStep [DecidableEq A] (s : Site A) (act : SiteAct A P) : Prop :=
  step bag depth s act ≠ none →
    match act with
    | .getItem path _ => ∀ v, bag.getItem s.heap s.store path = some v → Detached s.heap v
    | .setItem _ value kwargs =>
      Detached s.heap value ∧ ∀ w ∈ kwargs.map Prod.snd, ∃ a, w = .atom a
    | _ => True

/-- Neither side sees what the other one does: what the site's code does with its own objects, or
reads, changes nothing that the item shows; what it asks of the register changes nothing that its
names show. -/
def Undisturbed [DecidableEq A] (s : Site A) (act : SiteAct A P) : Prop :=
  ∀ s', step bag depth s act = some s' →
    match act with
    | .getItem _ _ => (∀ path, observe s'.heap (.ref s.store) path =
        observe s.heap (.ref s.store) path) ∧
      ∀ v ∈ s.names, ∀ path, observe s'.heap v path = observe s.heap v path
    | .setItem _ _ _ => ∀ v ∈ s.names, ∀ path, observe s'.heap v path = observe s.heap v path
    | .delItem _ => ∀ v ∈ s.names, ∀ path, observe s'.heap v path = observe s.heap v path
    | _ => ∀ path, observe s'.heap (.ref s.store) path = observe s.heap (.ref s.store) path

/-! ## One step -/

section Values

variable {h h' : Heap (Obj A)} {names : List (Val A)} {v v' : Val A} {b x : ℕ}

/-- What a value that the site's code can write down leads to, its names lead to. -/
theorem Has.reach (hv : Has names v) (hx : Reach h v x) : ReachAny h names x := by
  cases v with
  | atom a => exact absurd hx (not_reach_atom h a x)
  | ref r => exact ⟨_, hv, hx⟩

/-- Such a value is good where the names are. -/
theorem Has.good (hv : Has names v) (hnames : ∀ w ∈ names, Good h w) : Good h v := by
  cases v with
  | atom a => exact good_atom h a
  | ref r => exact hnames _ hv

/-- What one value leads to. -/
theorem reachAny_singleton : ReachAny h [v] x ↔ Reach h v x := by
  unfold ReachAny
  simp only [List.mem_singleton, exists_eq_left]

/-- Nothing mutable is kept of a detached value. -/
theorem Detached.not_reach (hv : Detached h v) {k : Val A} (hk : Kept h v k) : ¬ Reach h k x := by
  obtain ⟨a, rfl⟩ := hv k hk
  exact not_reach_atom h a x

/-- The copy of a detached value leads to new objects alone. -/
theorem Crossed.reach_new (hc : Crossed h h' v v') (hv : Detached h v) (hx : Reach h' v' x) :
    h.length ≤ x := by
  by_contra hlt
  obtain ⟨k, hk, hreach⟩ := (hc.shares x (not_le.1 hlt)).1 hx
  exact hv.not_reach hk hreach

/-- A value nothing of which is shared with another one is detached: what is kept of it, the copy
leads to. -/
theorem Crossed.detached (hc : Crossed h h' v v') (hclosed : Closed h) (hv : Good h v)
    (hnone : ∀ x, Reach h v x → ¬ Reach h' v' x) : Detached h v := by
  intro k hk
  cases k with
  | atom a => exact ⟨a, rfl⟩
  | ref r =>
    have hreach : Reach h v r := hk.reach (.here r)
    have hlt : r < h.length := hclosed.reach_lt hv hreach
    exact absurd ((hc.shares r hlt).2 ⟨_, hk, .here r⟩) (hnone r hreach)

end Values

variable {bag depth} {s s' : Site A}

/-- The Bag of the item is there. -/
theorem Sound.good_store (hs : Sound s) : Good s.heap (.ref s.store : Val A) := by
  rintro b ⟨⟩
  exact hs.store

/-- What a read finds, or its default, is good. -/
theorem good_read (hspec : bag.Spec) (hs : Sound s) {path : P} {default : Val A}
    (hd : Has s.names default) : Good s.heap ((bag.getItem s.heap s.store path).getD default) := by
  cases hget : bag.getItem s.heap s.store path with
  | none => exact hd.good hs.names
  | some v =>
    rintro r rfl
    have hreach := hspec.getItem _ _ _ _ r hget (.here r)
    exact hs.closed.reach_lt hs.good_store hreach

/-- The reading step keeps the two sides apart exactly when what it finds is detached. -/
theorem apart_getItem (hspec : bag.Spec) (hs : Sound s) (hapart : Apart s) {path : P}
    {default : Val A} (hd : Has s.names default) {h' : Heap (Obj A)} {v' : Val A}
    (hc : Crossed s.heap h' ((bag.getItem s.heap s.store path).getD default) v') :
    Apart { s with heap := h', names := v' :: s.names } ↔
      ∀ v, bag.getItem s.heap s.store path = some v → Detached s.heap v := by
  have hstore := hs.good_store
  constructor
  · intro hapart' v hget
    rw [hget, Option.getD_some] at hc
    have hv : Good s.heap v := by
      have hgood : Good s.heap ((bag.getItem s.heap s.store path).getD default) :=
        good_read hspec hs hd
      rwa [hget] at hgood
    refine hc.detached hs.closed hv fun x hx hcopy => ?_
    have hbag : Reach s.heap (.ref s.store) x := hspec.getItem _ _ _ _ x hget hx
    have hbag' : Reach h' (.ref s.store) x := (hc.grows.reach_iff hs.closed hstore).2 hbag
    exact hapart' x hbag' ⟨v', List.mem_cons_self, hcopy⟩
  · rintro hdetached x hx ⟨w, hw, hreach⟩
    have hbag : Reach s.heap (.ref s.store) x := (hc.grows.reach_iff hs.closed hstore).1 hx
    have hlt : x < s.heap.length := hs.closed.reach_lt hstore hbag
    rcases List.mem_cons.1 hw with rfl | hw
    · obtain ⟨k, hk, hkept⟩ := (hc.shares x hlt).1 hreach
      cases hget : bag.getItem s.heap s.store path with
      | none =>
        -- The default is the site's own.
        rw [hget] at hk
        exact hapart x hbag (hd.reach (hk.reach hkept))
      | some v =>
        rw [hget] at hk
        exact (hdetached v hget).not_reach hk hkept
    · exact hapart x hbag ⟨w, hw, (hc.grows.reach_iff hs.closed (hs.names w hw)).1 hreach⟩

/-- What a write finds: the names of the site's code lead to nothing that the Bag leads to, in the
heap in which the value has been copied. -/
theorem names_apart (hs : Sound s) (hapart : Apart s) {h' : Heap (Obj A)}
    (hg : Grows s.heap h') {v : Val A} (hv : v ∈ s.names) (x : ℕ) (hx : Reach h' v x) :
    ¬ ReachAny h' [.ref s.store] x := by
  rw [reachAny_singleton]
  intro hbag
  have hstore := hs.good_store
  exact hapart x ((hg.reach_iff hs.closed hstore).1 hbag)
    ⟨v, hv, (hg.reach_iff hs.closed (hs.names v hv)).1 hx⟩

/-- The writing step keeps the two sides apart exactly when what it is given is detached and its
attributes are immutable. -/
theorem apart_setItem (hspec : bag.Spec) (hs : Sound s) (hapart : Apart s) {path : P}
    {value : Val A} {kwargs : List (String × Val A)} (hvalue : Has s.names value)
    (hkwargs : ∀ w ∈ kwargs.map Prod.snd, Has s.names w) {h' : Heap (Obj A)} {v' : Val A}
    (hc : Crossed s.heap h' value v') :
    Apart { s with heap := bag.setItem h' s.store path v' kwargs } ↔
      Detached s.heap value ∧ ∀ w ∈ kwargs.map Prod.snd, ∃ a, w = .atom a := by
  have hb : s.store < h'.length := hs.store.trans_le hc.grows.length
  have hgood : ∀ w ∈ kwargs.map Prod.snd, Good h' w := fun w hw =>
    hc.grows.good ((hkwargs w hw).good hs.names)
  have hconf := hspec.setItem h' s.store path v' kwargs hc.closed hb hc.good hgood
  have hlands := hspec.setItem_lands h' s.store path v' kwargs hc.closed hb
  -- The write leaves what the names lead to alone.
  have hkeep : ∀ {n x}, n ∈ s.names → Reach s.heap n x →
      Reach (bag.setItem h' s.store path v' kwargs) n x := fun hn hx =>
    (hconf.reach_iff hc.closed (hc.grows.good (hs.names _ hn))
      (names_apart hs hapart hc.grows hn)).2 ((hc.grows.reach_iff hs.closed (hs.names _ hn)).2 hx)
  have hreachAny : ∀ {w x}, Has s.names w → Reach s.heap w x →
      ReachAny (bag.setItem h' s.store path v' kwargs) s.names x := fun hw hx => by
    obtain ⟨n, hn, hreach⟩ := hw.reach hx
    exact ⟨n, hn, hkeep hn hreach⟩
  constructor
  · intro hapart'
    constructor
    · refine hc.detached hs.closed (hvalue.good hs.names) fun x hx hcopy => ?_
      refine hapart' x (hlands v' List.mem_cons_self x hcopy fun y hy hbag => ?_)
        (hreachAny hvalue hx)
      -- The copy leads to new objects, or to some that the value leads to.
      have hstore := hs.good_store
      have hbag' : Reach s.heap (.ref s.store) y := (hc.grows.reach_iff hs.closed hstore).1 hbag
      obtain ⟨k, hk, hkept⟩ := (hc.shares y (hs.closed.reach_lt hstore hbag')).1 hy
      exact hapart y hbag' (hvalue.reach (hk.reach hkept))
    · intro w hw
      cases w with
      | atom a => exact ⟨a, rfl⟩
      | ref r =>
        have hname : Val.ref r ∈ s.names := hkwargs _ hw
        have hbag := hlands (.ref r) (List.mem_cons_of_mem _ hw) r (.here r) fun y hy hbag =>
          names_apart hs hapart hc.grows hname y hy (reachAny_singleton.2 hbag)
        exact absurd (hreachAny (hkwargs _ hw) (.here r)) (hapart' r hbag)
  · rintro ⟨hdetached, hatoms⟩ x hx hnames
    -- The names share nothing with the Bag, the copy or the attributes: all that it is made of now.
    refine hconf.apart hc.closed (fun y hy => ?_) _ [.ref s.store]
      (fun v hv => hc.grows.good (hs.names v hv)) (fun y hy hheld => ?_) (fun w hw r hr => ?_) x
      hnames (reachAny_singleton.2 hx)
    · exact ⟨_, List.mem_cons_self, reachAny_singleton.1 hy⟩
    · obtain ⟨n, hn, hreach⟩ := hy
      obtain ⟨w, hw, hreach'⟩ := hheld
      rcases List.mem_cons.1 hw with rfl | hw
      · exact names_apart hs hapart hc.grows hn y hreach (reachAny_singleton.2 hreach')
      · rcases List.mem_cons.1 hw with rfl | hw
        -- The copy leads to new objects alone, and the names to old ones.
        · have hold := (hc.grows.reach_iff hs.closed (hs.names n hn)).1 hreach
          exact absurd (hc.reach_new hdetached hreach')
            (not_le.2 (hs.closed.reach_lt (hs.names n hn) hold))
        · obtain ⟨a, rfl⟩ := hatoms w hw
          exact not_reach_atom _ _ _ hreach'
    · rw [List.mem_singleton] at hw
      subst hw
      cases hr
      exact Or.inr ⟨_, List.mem_cons_self, .here _⟩

/-- What an object that the site's code writes down refers to, its code has a name for. -/
theorem has_vals {o : Obj A} (ho : ∀ w ∈ vals o, Has s.names w) (r : ℕ)
    (hr : Val.ref r ∈ vals o) : Val.ref r ∈ s.names := ho _ hr

/-- A step of the site's code on its own objects. -/
theorem apart_own (hs : Sound s) (hapart : Apart s) {h' : Heap (Obj A)} {names : List (Val A)}
    (hconf : Confined s.heap s.names s.names h')
    (hnames : ∀ v ∈ names, ∀ r, v = .ref r → s.heap.length ≤ r ∨ ReachAny s.heap s.names r) :
    Apart { s with heap := h', names := names } := by
  intro x hx
  refine hconf.apart hs.closed (fun _ hy => hy) [.ref s.store] _ ?_ ?_ hnames x
    (reachAny_singleton.2 hx)
  · intro v hv
    rw [List.mem_singleton] at hv
    subst hv
    exact hs.good_store
  · intro y hy
    rw [reachAny_singleton] at hy
    exact hapart y hy

/-- Such a step leaves the item alone. -/
theorem undisturbed_own (hs : Sound s) (hapart : Apart s) {h' : Heap (Obj A)}
    (hconf : Confined s.heap s.names s.names h') (path : List ℕ) :
    observe h' (.ref s.store : Val A) path = observe s.heap (.ref s.store) path :=
  hconf.observe_eq hs.closed hs.good_store hapart path

/-- A delete leaves the names of the site's code alone, and puts nothing in the Bag. -/
theorem apart_delItem (hs : Sound s) (hapart : Apart s) {h' : Heap (Obj A)}
    (hconf : Confined s.heap [.ref s.store] [.ref s.store] h') : Apart { s with heap := h' } := by
  intro x hx hnames
  refine hconf.apart hs.closed (fun _ hy => hy) _ [.ref s.store] hs.names (fun y hy => ?_)
    (fun w hw r hr => ?_) x hnames (reachAny_singleton.2 hx)
  · rw [reachAny_singleton]
    exact fun hbag => hapart y hbag hy
  · subst hr
    exact Or.inr ⟨_, hw, .here r⟩

/-- Names stay good where the heap did not shrink. -/
theorem good_names {h h' : Heap (Obj A)} (hlength : h.length ≤ h'.length) {names : List (Val A)}
    (hnames : ∀ v ∈ names, Good h v) (v : Val A) (hv : v ∈ names) : Good h' v :=
  fun r hr => (hnames v hv r hr).trans_le hlength

section Steps

variable [DecidableEq A]

/-- What a step that is taken did. -/
def Did (bag : StoreBag A P) (depth : ℕ) (s : Site A) : SiteAct A P → Site A → Prop
  | .getItem path default, s' => Has s.names default ∧ ∃ h' v',
    copied depth s.heap ((bag.getItem s.heap s.store path).getD default) = some (h', v') ∧
      s' = { s with heap := h', names := v' :: s.names }
  | .setItem path value kwargs, s' => Has s.names value ∧
    (∀ w ∈ kwargs.map Prod.snd, Has s.names w) ∧
    ∃ h' v', copied depth s.heap value = some (h', v') ∧
      s' = { s with heap := bag.setItem h' s.store path v' kwargs }
  | .delItem path, s' => s' = { s with heap := bag.delItem s.heap s.store path }
  | .make o, s' => (∀ w ∈ vals o, Has s.names w) ∧
    s' = { s with heap := s.heap ++ [o], names := .ref s.heap.length :: s.names }
  | .look r _, s' => .ref r ∈ s.names ∧ ∃ o w, s.heap[r]? = some o ∧ w ∈ vals o ∧
    s' = { s with names := w :: s.names }
  | .put r o, s' => .ref r ∈ s.names ∧ (∀ w ∈ vals o, Has s.names w) ∧
    s' = { s with heap := s.heap.set r o }

/-- The inversion of a step. -/
theorem step_did {act : SiteAct A P} (h : step bag depth s act = some s') :
    Did bag depth s act s' := by
  cases act with
  | getItem path default =>
    obtain ⟨hd, heq⟩ := Option.ite_none_right_eq_some.1 h
    obtain ⟨⟨h', v'⟩, hcopy, hresult⟩ := Option.map_eq_some_iff.1 heq
    exact ⟨hd, h', v', hcopy, hresult.symm⟩
  | setItem path value kwargs =>
    obtain ⟨⟨hvalue, hkwargs⟩, heq⟩ := Option.ite_none_right_eq_some.1 h
    obtain ⟨⟨h', v'⟩, hcopy, hresult⟩ := Option.map_eq_some_iff.1 heq
    exact ⟨hvalue, hkwargs, h', v', hcopy, hresult.symm⟩
  | delItem path => exact (Option.some.inj h).symm
  | make o =>
    obtain ⟨ho, heq⟩ := Option.ite_none_right_eq_some.1 h
    exact ⟨ho, (Option.some.inj heq).symm⟩
  | look r i =>
    obtain ⟨hr, heq⟩ := Option.ite_none_right_eq_some.1 h
    obtain ⟨o, ho, heq⟩ := Option.bind_eq_some_iff.1 heq
    obtain ⟨w, hw, hresult⟩ := Option.map_eq_some_iff.1 heq
    exact ⟨hr, o, w, ho, List.mem_of_getElem? hw, hresult.symm⟩
  | put r o =>
    obtain ⟨⟨hr, ho⟩, heq⟩ := Option.ite_none_right_eq_some.1 h
    exact ⟨hr, ho, (Option.some.inj heq).symm⟩

/-- A step leaves nothing that refers beyond the heap. -/
theorem sound_step (hspec : bag.Spec) (hs : Sound s) {act : SiteAct A P}
    (h : step bag depth s act = some s') : Sound s' := by
  have hdid := step_did h
  cases act with
  | getItem path default =>
    obtain ⟨hd, h', v', hcopy, rfl⟩ := hdid
    have hc := copied_crossed depth _ _ _ _ hs.closed (good_read hspec hs hd) hcopy
    refine ⟨hc.closed, hs.store.trans_le hc.grows.length, fun w hw => ?_⟩
    rcases List.mem_cons.1 hw with rfl | hw
    · exact hc.good
    · exact hc.grows.good (hs.names w hw)
  | setItem path value kwargs =>
    obtain ⟨hvalue, hkwargs, h', v', hcopy, rfl⟩ := hdid
    have hc := copied_crossed depth _ _ _ _ hs.closed (hvalue.good hs.names) hcopy
    have hb : s.store < h'.length := hs.store.trans_le hc.grows.length
    have hconf := hspec.setItem h' s.store path v' kwargs hc.closed hb hc.good fun w hw =>
      hc.grows.good ((hkwargs w hw).good hs.names)
    have hlength := hc.grows.length.trans hconf.length
    exact ⟨hconf.closed hc.closed, hs.store.trans_le hlength, good_names hlength hs.names⟩
  | delItem path =>
    subst hdid
    have hconf := hspec.delItem s.heap s.store path hs.closed hs.store
    exact ⟨hconf.closed hs.closed, hs.store.trans_le hconf.length,
      good_names hconf.length hs.names⟩
  | make o =>
    obtain ⟨ho, rfl⟩ := hdid
    have hconf := Confined.alloc hs.closed (has_vals ho) hs.names
    refine ⟨hconf.closed hs.closed, hs.store.trans_le hconf.length, fun w hw => ?_⟩
    rcases List.mem_cons.1 hw with rfl | hw
    · rintro r ⟨⟩
      simp
    · exact good_names hconf.length hs.names w hw
  | look r i =>
    obtain ⟨_, o, w, ho, hw, rfl⟩ := hdid
    refine ⟨hs.closed, hs.store, fun u hu => ?_⟩
    rcases List.mem_cons.1 hu with rfl | hu
    · exact hs.closed r o ho _ hw
    · exact hs.names u hu
  | put r o =>
    obtain ⟨hr, ho, rfl⟩ := hdid
    have hconf := Confined.set hs.closed hr (has_vals ho) hs.names
    exact ⟨hconf.closed hs.closed, hs.store.trans_le hconf.length,
      good_names hconf.length hs.names⟩

/-- The step lemma: a step from a state whose sides are apart keeps them apart exactly when what
crosses is detached. -/
theorem apart_step (hspec : bag.Spec) (hs : Sound s) (hapart : Apart s) {act : SiteAct A P}
    (h : step bag depth s act = some s') : Apart s' ↔ DetachedStep bag depth s act := by
  have hdid := step_did h
  have hne : step bag depth s act ≠ none := by
    rw [h]
    exact Option.some_ne_none s'
  -- Where nothing crosses the sides stay apart.
  have hown : ∀ {P Q : Prop}, P → Q → (P ↔ (step bag depth s act ≠ none → Q)) := fun hp hq =>
    ⟨fun _ _ => hq, fun _ => hp⟩
  cases act with
  | getItem path default =>
    obtain ⟨hd, h', v', hcopy, rfl⟩ := hdid
    have hc := copied_crossed depth _ _ _ _ hs.closed (good_read hspec hs hd) hcopy
    exact (apart_getItem hspec hs hapart hd hc).trans ⟨fun hx _ => hx, fun hx => hx hne⟩
  | setItem path value kwargs =>
    obtain ⟨hvalue, hkwargs, h', v', hcopy, rfl⟩ := hdid
    have hc := copied_crossed depth _ _ _ _ hs.closed (hvalue.good hs.names) hcopy
    exact (apart_setItem hspec hs hapart hvalue hkwargs hc).trans ⟨fun hx _ => hx, fun hx => hx hne⟩
  | delItem path =>
    subst hdid
    exact hown (apart_delItem hs hapart (hspec.delItem _ _ path hs.closed hs.store)) trivial
  | make o =>
    obtain ⟨ho, rfl⟩ := hdid
    refine hown (apart_own hs hapart (.alloc hs.closed (has_vals ho) hs.names) ?_) trivial
    intro v hv r hr
    subst hr
    rcases List.mem_cons.1 hv with heq | hv
    · cases heq
      exact Or.inl (le_refl _)
    · exact Or.inr ⟨_, hv, .here r⟩
  | look r i =>
    obtain ⟨hr, o, w, ho, hw, rfl⟩ := hdid
    refine hown (apart_own hs hapart (.refl hs.closed s.names) ?_) trivial
    intro v hv x hx
    subst hx
    rcases List.mem_cons.1 hv with rfl | hv
    · exact Or.inr ⟨_, hr, .inside ho hw (.here x)⟩
    · exact Or.inr ⟨_, hv, .here x⟩
  | put r o =>
    obtain ⟨hr, ho, rfl⟩ := hdid
    refine hown (apart_own hs hapart (.set hs.closed hr (has_vals ho) hs.names) ?_) trivial
    intro v hv x hx
    subst hx
    exact Or.inr ⟨_, hv, .here x⟩

/-- A step from a state whose sides are apart disturbs neither. -/
theorem undisturbed_step (hspec : bag.Spec) (hs : Sound s) (hapart : Apart s)
    (act : SiteAct A P) : Undisturbed bag depth s act := by
  intro s' h
  have hdid := step_did h
  cases act with
  | getItem path default =>
    obtain ⟨hd, h', v', hcopy, rfl⟩ := hdid
    have hc := copied_crossed depth _ _ _ _ hs.closed (good_read hspec hs hd) hcopy
    exact ⟨hc.grows.observe_eq hs.closed hs.good_store, fun v hv =>
      hc.grows.observe_eq hs.closed (hs.names v hv)⟩
  | setItem path value kwargs =>
    obtain ⟨hvalue, hkwargs, h', v', hcopy, rfl⟩ := hdid
    have hc := copied_crossed depth _ _ _ _ hs.closed (hvalue.good hs.names) hcopy
    have hb : s.store < h'.length := hs.store.trans_le hc.grows.length
    have hconf := hspec.setItem h' s.store path v' kwargs hc.closed hb hc.good fun w hw =>
      hc.grows.good ((hkwargs w hw).good hs.names)
    intro v hv p
    calc observe (bag.setItem h' s.store path v' kwargs) v p
        = observe h' v p := hconf.observe_eq hc.closed (hc.grows.good (hs.names v hv))
            (names_apart hs hapart hc.grows hv) p
      _ = observe s.heap v p := hc.grows.observe_eq hs.closed (hs.names v hv) p
  | delItem path =>
    subst hdid
    have hconf := hspec.delItem s.heap s.store path hs.closed hs.store
    exact fun v hv p => hconf.observe_eq hs.closed (hs.names v hv)
      (names_apart hs hapart (.refl _) hv) p
  | make o =>
    obtain ⟨ho, rfl⟩ := hdid
    exact undisturbed_own hs hapart (.alloc hs.closed (has_vals ho) hs.names)
  | look r i =>
    obtain ⟨_, _, _, _, _, rfl⟩ := hdid
    exact fun _ => rfl
  | put r o =>
    obtain ⟨hr, ho, rfl⟩ := hdid
    exact undisturbed_own hs hapart (.set hs.closed hr (has_vals ho) hs.names)

end Steps

/-! ## A Bag of one level -/

/-- The nodes of the Bag at a place. -/
def nodesAt (h : Heap (Obj A)) (b : ℕ) : List (BagNode A) :=
  match h[b]? with
  | some (.bag nodes) => nodes
  | _ => []

/-- A Bag whose paths are single labels. -/
def flatBag : StoreBag A String where
  getItem h b label := ((nodesAt h b).find? fun node => node.label = label).map BagNode.value
  setItem h b label v kwargs :=
    h.set b (.bag ((nodesAt h b).filter (fun node => node.label ≠ label) ++ [⟨label, v, kwargs⟩]))
  delItem h b label := h.set b (.bag ((nodesAt h b).filter fun node => node.label ≠ label))

/-- A Bag leads to what the values of its nodes lead to. -/
theorem reach_nodesAt {h : Heap (Obj A)} {b x : ℕ} {w : Val A} (hw : w ∈ nodeVals (nodesAt h b))
    (hx : Reach h w x) : Reach h (.ref b) x := by
  unfold nodesAt at hw
  split at hw
  · next nodes hb => exact .inside hb hw hx
  · cases hw

/-- A Bag written with nodes that it has, and one that holds what it is given. -/
theorem confined_set {h : Heap (Obj A)} (hclosed : Closed h) {b : ℕ} (hb : b < h.length)
    {given : List (Val A)} (hgiven : ∀ w ∈ given, Good h w) {nodes : List (BagNode A)}
    (hnodes : ∀ w ∈ nodeVals nodes, w ∈ nodeVals (nodesAt h b) ∨ w ∈ given) :
    Confined h [.ref b] (.ref b :: given) (h.set b (.bag nodes)) where
  length := by rw [List.length_set]
  outside r _ hr := by
    have hne : b ≠ r := by
      rintro rfl
      exact hr (reachAny_singleton.2 (.here b))
    exact List.getElem?_set_ne hne
  inside r o hr hin x hx := by
    rw [List.length_set]
    by_cases hne : b = r
    · subst hne
      rw [List.getElem?_set_self hb] at hr
      cases hr
      rcases hnodes _ hx with hold | hnew
      · have hreach : Reach h (.ref b) x := reach_nodesAt hold (.here x)
        have hstore : Good h (.ref b : Val A) := by
          rintro s ⟨⟩
          exact hb
        exact ⟨hclosed.reach_lt hstore hreach, Or.inr ⟨_, List.mem_cons_self, hreach⟩⟩
      · exact ⟨hgiven _ hnew x rfl, Or.inr ⟨_, List.mem_cons_of_mem _ hnew, .here x⟩⟩
    · rw [List.getElem?_set_ne hne] at hr
      have hlt : r < h.length := (List.getElem?_eq_some_iff.1 hr).1
      have hreach := reachAny_singleton.1 (hin.resolve_left (not_le.2 hlt))
      exact ⟨hclosed r o hr _ hx x rfl,
        Or.inr ⟨_, List.mem_cons_self, hreach.step hr hx (.here x)⟩⟩

/-- The values of some of the nodes are values of the nodes. -/
theorem nodeVals_filter {nodes : List (BagNode A)} {p : BagNode A → Bool} {w : Val A}
    (hw : w ∈ nodeVals (nodes.filter p)) : w ∈ nodeVals nodes := by
  obtain ⟨node, hnode, hplace⟩ := mem_nodeVals.1 hw
  exact mem_nodeVals.2 ⟨node, (List.mem_filter.1 hnode).1, hplace⟩

/-- The Bag of one level meets the contract. -/
theorem flatBag_spec : (flatBag : StoreBag A String).Spec where
  getItem h b label v x hget hx := by
    obtain ⟨node, hfind, rfl⟩ := Option.map_eq_some_iff.1 hget
    exact reach_nodesAt (mem_nodeVals.2 ⟨node, List.mem_of_find?_eq_some hfind, Or.inl rfl⟩) hx
  setItem h b label v kwargs hclosed hb hv hkwargs := by
    refine confined_set hclosed hb (fun w hw => ?_) fun w hw => ?_
    · rcases List.mem_cons.1 hw with rfl | hw
      · exact hv
      · exact hkwargs w hw
    · obtain ⟨node, hnode, hplace⟩ := mem_nodeVals.1 hw
      rcases List.mem_append.1 hnode with hold | hnew
      · exact Or.inl (nodeVals_filter (mem_nodeVals.2 ⟨node, hold, hplace⟩))
      · rw [List.mem_singleton] at hnew
        subst hnew
        exact Or.inr (List.mem_cons.2 hplace)
  setItem_lands h b label v kwargs hclosed hb w hw x hx happart := by
    have hagree : ∀ r, Reach h w r →
        ((flatBag : StoreBag A String).setItem h b label v kwargs)[r]? = h[r]? := by
      intro r hr
      have hne : b ≠ r := by
        rintro rfl
        exact happart b hr (.here b)
      exact List.getElem?_set_ne hne
    refine .inside (List.getElem?_set_self hb) ?_ (hx.congr hagree)
    refine mem_nodeVals.2 ⟨⟨label, v, kwargs⟩, by simp, List.mem_cons.1 hw⟩
  delItem h b label hclosed hb := by
    have hgiven : ∀ w ∈ ([] : List (Val A)), Good h w := nofun
    exact confined_set hclosed hb hgiven fun w hw => Or.inl (nodeVals_filter hw)

/-- A site that holds nothing yet, with a store in which a dict is kept. -/
def freshSite : Site ℕ := ⟨[.bag [⟨"avatar", .ref 1, []⟩], .dict [(0, .atom 5)]], 0, []⟩

/-- The dict is read and emptied, and what is left of it is written under another label. -/
def popAvatar : List (SiteAct ℕ String) :=
  [.getItem "avatar" (.atom 0), .put 2 (.dict []), .setItem "spare" (.ref 2) [("tag", .atom 1)]]

example : (run (step flatBag 2) freshSite popAvatar).isSome := by decide

end GenropyAsgi.Copies
