import GenropyAsgi.Library.DeepCopy

/-!
# What a store hands out and keeps

`ServerStore.getItem` answers a copy of what it read and `setItem` keeps a copy of what it was
given, both made by `_copied` of `siteregister_client.py`. A Bag is rebuilt node by node, its
attributes taken over as they are; a dict, a list or a set is copied deeply; anything else is handed
over itself. What `_copied` hands over itself is `Kept`, and a copy shares with the original what
the kept values lead to, and nothing else (`copied_shares_kept`).
-/

namespace GenropyAsgi.Copies

open Library Cell

/-- A node of a Bag. -/
structure BagNode (A : Type) where
  /-- The label. -/
  label : String
  /-- The static value. -/
  value : Val A
  /-- The attributes. -/
  attr : List (String × Val A)
deriving DecidableEq

/-- The mutable objects, and the tuples that hold some of them: every other immutable value is one
value, with what it is made of. -/
inductive Obj (A : Type) where
  /-- A Bag. -/
  | bag (nodes : List (BagNode A))
  /-- A dict. -/
  | dict (entries : List (A × Val A))
  /-- A list. -/
  | list (items : List (Val A))
  /-- A set. -/
  | set (items : List (Val A))
  /-- A tuple that holds an object. -/
  | tuple (items : List (Val A))
  /-- An object of any other class. -/
  | other (fields : List (String × Val A))
deriving DecidableEq

variable {A K : Type}

/-- Entries with other values under their keys. -/
def refillEntries (entries : List (K × Val A)) (vs : List (Val A)) : List (K × Val A) :=
  entries.zipWith (fun entry v => (entry.1, v)) vs

/-- The values that the nodes of a Bag hold: of each node its value and its attributes. -/
def nodeVals : List (BagNode A) → List (Val A)
  | [] => []
  | node :: nodes => node.value :: (node.attr.map Prod.snd ++ nodeVals nodes)

/-- The nodes with other values in their places. -/
def refillNodes : List (BagNode A) → List (Val A) → List (BagNode A)
  | node :: nodes, v :: vs =>
    ⟨node.label, v, refillEntries node.attr (vs.take node.attr.length)⟩ ::
      refillNodes nodes (vs.drop node.attr.length)
  | _, _ => []

theorem refillEntries_vals {entries : List (K × Val A)} {vs : List (Val A)}
    (h : vs.length = entries.length) : (refillEntries entries vs).map Prod.snd = vs := by
  unfold refillEntries
  induction entries generalizing vs with
  | nil =>
    rw [List.length_eq_zero_iff.1 h]
    rfl
  | cons entry entries ih =>
    cases vs with
    | nil => cases h
    | cons v vs =>
      rw [List.zipWith_cons_cons, List.map_cons, ih (Nat.succ.inj h)]

theorem refillEntries_self (entries : List (K × Val A)) :
    refillEntries entries (entries.map Prod.snd) = entries := by
  unfold refillEntries
  induction entries with
  | nil => rfl
  | cons entry entries ih => rw [List.map_cons, List.zipWith_cons_cons, ih]

theorem refillEntries_twice {entries : List (K × Val A)} {vs ws : List (Val A)}
    (h : vs.length = entries.length) :
    refillEntries (refillEntries entries vs) ws = refillEntries entries ws := by
  unfold refillEntries
  induction entries generalizing vs ws with
  | nil => rfl
  | cons entry entries ih =>
    cases vs with
    | nil => cases h
    | cons v vs =>
      cases ws with
      | nil => rfl
      | cons w ws =>
        rw [List.zipWith_cons_cons, List.zipWith_cons_cons, List.zipWith_cons_cons,
          ih (Nat.succ.inj h)]

theorem length_refillEntries {entries : List (K × Val A)} {vs : List (Val A)}
    (h : vs.length = entries.length) : (refillEntries entries vs).length = entries.length := by
  unfold refillEntries
  rw [List.length_zipWith, h, min_self]

theorem refillNodes_vals {nodes : List (BagNode A)} {vs : List (Val A)}
    (h : vs.length = (nodeVals nodes).length) : nodeVals (refillNodes nodes vs) = vs := by
  induction nodes generalizing vs with
  | nil =>
    rw [List.length_eq_zero_iff.1 h]
    rfl
  | cons node nodes ih =>
    cases vs with
    | nil => cases h
    | cons v vs =>
      simp only [nodeVals, List.length_cons, List.length_append, List.length_map] at h
      have htake : (vs.take node.attr.length).length = node.attr.length := by
        rw [List.length_take]
        omega
      have hdrop : (vs.drop node.attr.length).length = (nodeVals nodes).length := by
        rw [List.length_drop]
        omega
      rw [refillNodes, nodeVals, refillEntries_vals htake, ih hdrop, List.take_append_drop]

theorem refillNodes_self (nodes : List (BagNode A)) :
    refillNodes nodes (nodeVals nodes) = nodes := by
  induction nodes with
  | nil => rfl
  | cons node nodes ih =>
    have htake : (node.attr.map Prod.snd ++ nodeVals nodes).take node.attr.length =
        node.attr.map Prod.snd := List.take_left' (List.length_map _)
    have hdrop : (node.attr.map Prod.snd ++ nodeVals nodes).drop node.attr.length =
        nodeVals nodes := List.drop_left' (List.length_map _)
    rw [nodeVals, refillNodes, htake, hdrop, refillEntries_self, ih]

theorem refillNodes_twice {nodes : List (BagNode A)} {vs ws : List (Val A)}
    (h : vs.length = (nodeVals nodes).length) :
    refillNodes (refillNodes nodes vs) ws = refillNodes nodes ws := by
  induction nodes generalizing vs ws with
  | nil => rfl
  | cons node nodes ih =>
    cases vs with
    | nil => cases h
    | cons v vs =>
      simp only [nodeVals, List.length_cons, List.length_append, List.length_map] at h
      have htake : (vs.take node.attr.length).length = node.attr.length := by
        rw [List.length_take]
        omega
      have hdrop : (vs.drop node.attr.length).length = (nodeVals nodes).length := by
        rw [List.length_drop]
        omega
      cases ws with
      | nil => rfl
      | cons w ws =>
        simp only [refillNodes, length_refillEntries htake, refillEntries_twice htake, ih hdrop]

namespace Obj

/-- The values that an object holds. -/
def vals : Obj A → List (Val A)
  | bag nodes => nodeVals nodes
  | dict entries => entries.map Prod.snd
  | list items => items
  | set items => items
  | tuple items => items
  | other fields => fields.map Prod.snd

/-- The object with other values in their places. -/
def refill : Obj A → List (Val A) → Obj A
  | bag nodes, vs => bag (refillNodes nodes vs)
  | dict entries, vs => dict (refillEntries entries vs)
  | list _, vs => list vs
  | set _, vs => set vs
  | tuple _, vs => tuple vs
  | other fields, vs => other (refillEntries fields vs)

end Obj

instance : Cell A (Obj A) where
  vals := Obj.vals
  refill := Obj.refill
  vals_refill o vs h := by
    cases o with
    | bag nodes => exact refillNodes_vals h
    | dict entries => exact refillEntries_vals (h.trans (List.length_map _))
    | other fields => exact refillEntries_vals (h.trans (List.length_map _))
    | list items => rfl
    | set items => rfl
    | tuple items => rfl
  refill_vals o := by
    cases o with
    | bag nodes => exact congrArg Obj.bag (refillNodes_self nodes)
    | dict entries => exact congrArg Obj.dict (refillEntries_self entries)
    | other fields => exact congrArg Obj.other (refillEntries_self fields)
    | list items => rfl
    | set items => rfl
    | tuple items => rfl
  refill_refill o vs ws h _ := by
    cases o with
    | bag nodes => exact congrArg Obj.bag (refillNodes_twice h)
    | dict entries =>
      exact congrArg Obj.dict (refillEntries_twice (h.trans (List.length_map _)))
    | other fields =>
      exact congrArg Obj.other (refillEntries_twice (h.trans (List.length_map _)))
    | list items => rfl
    | set items => rfl
    | tuple items => rfl

/-- A value that the nodes hold is the value or an attribute of one of them. -/
theorem mem_nodeVals {nodes : List (BagNode A)} {w : Val A} :
    w ∈ nodeVals nodes ↔ ∃ node ∈ nodes, w = node.value ∨ w ∈ node.attr.map Prod.snd := by
  induction nodes with
  | nil => simp [nodeVals]
  | cons node nodes ih => simp only [nodeVals, List.mem_cons, List.mem_append, ih, exists_eq_or_imp,
      or_assoc]

/-! ## `_copied` -/

/-- The loop of `_copied` over the nodes of a Bag: `addItem` with the label, the copied value and
the attributes taken over. -/
def copiedNodes (copied : Heap (Obj A) → Val A → Option (Heap (Obj A) × Val A)) :
    Heap (Obj A) → List (BagNode A) → Option (Heap (Obj A) × List (BagNode A))
  | h, [] => some (h, [])
  | h, node :: nodes =>
    (copied h node.value).bind fun one =>
      (copiedNodes copied one.1 nodes).map fun more =>
        (more.1, ⟨node.label, one.2, node.attr⟩ :: more.2)

/-- `_copied`, with the depth to which Bags may be nested. -/
def copied : ℕ → Heap (Obj A) → Val A → Option (Heap (Obj A) × Val A)
  | 0, _, _ => none
  | _ + 1, h, .atom a => some (h, .atom a)
  | depth + 1, h, .ref r =>
    match h[r]? with
    | some (.bag nodes) =>
      (copiedNodes (copied depth) h nodes).map fun done =>
        (done.1 ++ [.bag done.2], .ref done.1.length)
    | some (.dict _) => (deepcopy h.length h [] (.ref r)).map fun done => (done.1, done.2.2)
    | some (.list _) => (deepcopy h.length h [] (.ref r)).map fun done => (done.1, done.2.2)
    | some (.set _) => (deepcopy h.length h [] (.ref r)).map fun done => (done.1, done.2.2)
    | _ => some (h, .ref r)

/-- The values that `_copied` hands over themselves: the attributes of the nodes, and what is
neither a Bag nor copied deeply. -/
inductive Kept (h : Heap (Obj A)) : Val A → Val A → Prop where
  /-- An attribute of a node of a Bag. -/
  | attr {r : ℕ} {nodes : List (BagNode A)} {node : BagNode A} {name : String} {k : Val A}
      (hr : h[r]? = some (.bag nodes)) (hnode : node ∈ nodes) (hk : (name, k) ∈ node.attr) :
      Kept h (.ref r) k
  /-- What is handed over of the value of a node. -/
  | node {r : ℕ} {nodes : List (BagNode A)} {node : BagNode A} {k : Val A}
      (hr : h[r]? = some (.bag nodes)) (hnode : node ∈ nodes) (hk : Kept h node.value k) :
      Kept h (.ref r) k
  /-- A tuple. -/
  | tuple {r : ℕ} {items : List (Val A)} (hr : h[r]? = some (.tuple items)) :
      Kept h (.ref r) (.ref r)
  /-- An object of another class. -/
  | other {r : ℕ} {fields : List (String × Val A)} (hr : h[r]? = some (.other fields)) :
      Kept h (.ref r) (.ref r)

variable {h h' h₁ h₂ : Heap (Obj A)} {v v' : Val A}

/-- What is kept of a value is something that the value leads to. -/
theorem Kept.reach {k : Val A} {x : ℕ} (hk : Kept h v k) (hx : Reach h k x) : Reach h v x := by
  induction hk with
  | attr hr hnode hmem =>
    have hval := mem_nodeVals.2 ⟨_, hnode, Or.inr (List.mem_map.2 ⟨_, hmem, rfl⟩)⟩
    exact .inside hr hval hx
  | node hr hnode _ ih =>
    have hval := mem_nodeVals.2 ⟨_, hnode, Or.inl rfl⟩
    exact .inside hr hval (ih hx)
  | tuple hr => exact hx
  | other hr => exact hx

/-- The values of the nodes of a Bag are good in a closed heap. -/
theorem good_node (hclosed : Closed h) {r : ℕ} {nodes : List (BagNode A)} {node : BagNode A}
    (hr : h[r]? = some (.bag nodes)) (hnode : node ∈ nodes) :
    Good h node.value ∧ ∀ name k, (name, k) ∈ node.attr → Good h k :=
  ⟨hclosed r _ hr _ (mem_nodeVals.2 ⟨node, hnode, Or.inl rfl⟩), fun _ k hk =>
    hclosed r _ hr k (mem_nodeVals.2 ⟨node, hnode, Or.inr (List.mem_map.2 ⟨_, hk, rfl⟩)⟩)⟩

/-- Nothing is kept of an object that is no Bag, no tuple and of no other class. -/
theorem not_kept {r : ℕ} {o : Obj A} (hr : h[r]? = some o) (hbag : ∀ nodes, o ≠ .bag nodes)
    (htuple : ∀ items, o ≠ .tuple items) (hother : ∀ fields, o ≠ .other fields) (k : Val A) :
    ¬ Kept h (.ref r) k := by
  rintro (⟨hr', _, _⟩ | ⟨hr', _, _⟩ | hr' | hr')
  all_goals rw [hr] at hr'
  · exact hbag _ (Option.some.inj hr')
  · exact hbag _ (Option.some.inj hr')
  · exact htuple _ (Option.some.inj hr')
  · exact hother _ (Option.some.inj hr')

/-- Of an object that is no Bag nothing is kept but the object. -/
theorem kept_whole {r : ℕ} {o : Obj A} (hr : h[r]? = some o) (hbag : ∀ nodes, o ≠ .bag nodes)
    {k : Val A} (hk : Kept h (.ref r) k) : k = .ref r := by
  cases hk with
  | attr hr' _ _ => exact absurd (Option.some.inj (hr.symm.trans hr')) (hbag _)
  | node hr' _ _ => exact absurd (Option.some.inj (hr.symm.trans hr')) (hbag _)
  | tuple _ => rfl
  | other _ => rfl

/-- What is kept of a good value is good. -/
theorem Kept.good {k : Val A} (hclosed : Closed h) (hv : Good h v) (hk : Kept h v k) :
    Good h k := by
  induction hk with
  | attr hr hnode hmem => exact (good_node hclosed hr hnode).2 _ _ hmem
  | node hr hnode _ ih => exact ih (good_node hclosed hr hnode).1
  | tuple hr => exact hv
  | other hr => exact hv

/-- A heap that grew keeps the same of a good value. -/
theorem kept_grows (hg : Grows h h₁) (hclosed : Closed h) (hv : Good h v) {k : Val A} :
    Kept h₁ v k ↔ Kept h v k := by
  constructor
  · intro hk
    induction hk with
    | attr hr hnode hmem =>
      rw [hg.kept _ (hv _ rfl)] at hr
      exact .attr hr hnode hmem
    | node hr hnode _ ih =>
      rw [hg.kept _ (hv _ rfl)] at hr
      exact .node hr hnode (ih (good_node hclosed hr hnode).1)
    | tuple hr => exact .tuple ((hg.kept _ (hv _ rfl)).symm.trans hr)
    | other hr => exact .other ((hg.kept _ (hv _ rfl)).symm.trans hr)
  · intro hk
    induction hk with
    | attr hr hnode hmem => exact .attr ((hg.kept _ (hv _ rfl)).trans hr) hnode hmem
    | node hr hnode _ ih =>
      exact .node ((hg.kept _ (hv _ rfl)).trans hr) hnode (ih (good_node hclosed hr hnode).1)
    | tuple hr => exact .tuple ((hg.kept _ (hv _ rfl)).trans hr)
    | other hr => exact .other ((hg.kept _ (hv _ rfl)).trans hr)

/-- A copy that `_copied` made: the heap grew, the copy shows what the value shows, and the old
objects that it leads to are those that the kept values lead to. -/
structure Crossed (h h' : Heap (Obj A)) (v v' : Val A) : Prop where
  /-- The objects that were there are as they were. -/
  grows : Grows h h'
  /-- Nothing refers beyond the heap. -/
  closed : Closed h'
  /-- The copy does not either. -/
  good : Good h' v'
  /-- The copy shows what the value shows. -/
  same : ∀ path, observe h' v' path = observe h v path
  /-- What it shares with the heap before. -/
  shares : ∀ x < h.length, Reach h' v' x ↔ ∃ k, Kept h v k ∧ Reach h k x

namespace Crossed

/-- A value that is handed over itself. -/
theorem itself (hclosed : Closed h) (hv : Good h v) (hkept : ∀ k, Kept h v k ↔ k = v) :
    Crossed h h v v where
  grows := .refl h
  closed := hclosed
  good := hv
  same _ := rfl
  shares x _ := by
    constructor
    · exact fun hx => ⟨v, (hkept v).2 rfl, hx⟩
    · rintro ⟨k, hk, hx⟩
      exact hk.reach hx

/-- A value that is copied deeply. -/
theorem deep (hclosed : Closed h) (hv : Good h v) {f : ℕ → ℕ} (hr : Replica h h' v v' f)
    (hkept : ∀ k, ¬ Kept h v k) : Crossed h h' v v' where
  grows := hr.grows
  closed := hr.closed
  good := by
    rw [hr.value]
    cases v with
    | atom a => exact good_atom _ a
    | ref r =>
      rintro s ⟨⟩
      exact (hr.fresh r (.here r)).2
  same path := hr.observe_eq hclosed path hv
  shares x hx := by
    constructor
    · intro hreach
      obtain ⟨r, hr', rfl⟩ := hr.reach_new hclosed hv hreach
      exact absurd hx (not_lt.2 (hr.fresh r hr').1)
    · rintro ⟨k, hk, _⟩
      exact absurd hk (hkept k)

/-- The heap grows further. -/
theorem later (hc : Crossed h h₁ v v') (hg : Grows h₁ h₂) (hclosed : Closed h₂) :
    Crossed h h₂ v v' where
  grows := hc.grows.trans hg
  closed := hclosed
  good := hg.good hc.good
  same path := (hg.observe_eq hc.closed hc.good path).trans (hc.same path)
  shares x hx := (hg.reach_iff hc.closed hc.good).trans (hc.shares x hx)

/-- The heap had grown before. -/
theorem earlier (hc : Crossed h₁ h₂ v v') (hg : Grows h h₁) (hclosed : Closed h) (hv : Good h v) :
    Crossed h h₂ v v' where
  grows := hg.trans hc.grows
  closed := hc.closed
  good := hc.good
  same path := (hc.same path).trans (hg.observe_eq hclosed hv path)
  shares x hx := by
    rw [hc.shares x (hx.trans_le hg.length)]
    refine exists_congr fun k => ?_
    rw [kept_grows hg hclosed hv]
    refine and_congr_right fun hk => ?_
    exact hg.reach_iff hclosed (hk.good hclosed hv)

end Crossed

/-- A node of the copy of a Bag: the label and the attributes of the node, and a copy of its
value. -/
def NodeCrossed (h h' : Heap (Obj A)) (node node' : BagNode A) : Prop :=
  node'.label = node.label ∧ node'.attr = node.attr ∧ Crossed h h' node.value node'.value

/-- The loop over the nodes copies each of them. -/
theorem copiedNodes_crossed {copied : Heap (Obj A) → Val A → Option (Heap (Obj A) × Val A)}
    (hcopied : ∀ h v h' v', Closed h → Good h v → copied h v = some (h', v') →
      Crossed h h' v v') (hclosed : Closed h) :
    ∀ {nodes nodes' : List (BagNode A)} {h₁ h₂ : Heap (Obj A)}, Grows h h₁ → Closed h₁ →
      (∀ node ∈ nodes, Good h node.value) → copiedNodes copied h₁ nodes = some (h₂, nodes') →
        Grows h₁ h₂ ∧ Closed h₂ ∧ List.Forall₂ (NodeCrossed h h₂) nodes nodes'
  | [], _, h₁, _, _, hc₁, _, heq => by
    cases heq
    exact ⟨.refl _, hc₁, .nil⟩
  | node :: nodes, nodes', h₁, _, hg, hc₁, hgood, heq => by
    obtain ⟨⟨h₂, w⟩, hone, hrest⟩ := Option.bind_eq_some_iff.1 heq
    obtain ⟨⟨h₃, ws⟩, hmore, hresult⟩ := Option.map_eq_some_iff.1 hrest
    cases hresult
    have hv : Good h node.value := hgood node List.mem_cons_self
    have hcrossed : Crossed h₁ h₂ node.value w := hcopied h₁ _ h₂ w hc₁ (hg.good hv) hone
    obtain ⟨hgrows, hclosed', hnodes⟩ := copiedNodes_crossed hcopied hclosed
      (hg.trans hcrossed.grows) hcrossed.closed
      (fun n hn => hgood n (List.mem_cons_of_mem _ hn)) hmore
    have hnode : Crossed h h₃ node.value w :=
      (hcrossed.earlier hg hclosed hv).later hgrows hclosed'
    exact ⟨hcrossed.grows.trans hgrows, hclosed', .cons ⟨rfl, rfl, hnode⟩ hnodes⟩

/-- Nodes of the same labels and attributes: the one list is the other one refilled. -/
theorem eq_refillNodes {nodes nodes' : List (BagNode A)}
    (hnodes : List.Forall₂ (NodeCrossed h h') nodes nodes') :
    (nodeVals nodes').length = (nodeVals nodes).length ∧
      nodes' = refillNodes nodes (nodeVals nodes') := by
  induction hnodes with
  | nil => exact ⟨rfl, rfl⟩
  | @cons node node' nodes nodes' hnode _ ih =>
    obtain ⟨hlabel, hattr, _⟩ := hnode
    obtain ⟨hlength, heq⟩ := ih
    constructor
    · simp only [nodeVals, List.length_cons, List.length_append, List.length_map, hattr, hlength]
    · have htake : (node'.attr.map Prod.snd ++ nodeVals nodes').take node.attr.length =
          node.attr.map Prod.snd := by
        rw [hattr]
        exact List.take_left' (List.length_map _)
      have hdrop : (node'.attr.map Prod.snd ++ nodeVals nodes').drop node.attr.length =
          nodeVals nodes' := by
        rw [hattr]
        exact List.drop_left' (List.length_map _)
      rw [nodeVals, refillNodes, htake, hdrop, refillEntries_self, ← heq, ← hlabel, ← hattr]

/-- The values of the copied nodes show, place by place, what those of the nodes show. -/
theorem nodeVals_same (hgrows : Grows h h') (hclosed : Closed h) {nodes nodes' : List (BagNode A)}
    (hnodes : List.Forall₂ (NodeCrossed h h') nodes nodes')
    (hgood : ∀ w ∈ nodeVals nodes, Good h w) :
    List.Forall₂ (fun w w' => Good h' w' ∧ ∀ path, observe h' w' path = observe h w path)
      (nodeVals nodes) (nodeVals nodes') := by
  induction hnodes with
  | nil => exact .nil
  | @cons node node' nodes nodes' hnode _ ih =>
    obtain ⟨_, hattr, hvalue⟩ := hnode
    have hrest := ih fun w hw => hgood w (List.mem_cons_of_mem _ (List.mem_append_right _ hw))
    have hattrs : ∀ w ∈ node.attr.map Prod.snd, Good h w := fun w hw =>
      hgood w (List.mem_cons_of_mem _ (List.mem_append_left _ hw))
    refine .cons ⟨hvalue.good, hvalue.same⟩ ?_
    rw [hattr]
    refine List.rel_append (List.forall₂_same.2 fun w hw => ?_) hrest
    exact ⟨hgrows.good (hattrs w hw), hgrows.observe_eq hclosed (hattrs w hw)⟩

/-- The values of the copied nodes are good. -/
theorem good_of_forall₂ {ws ws' : List (Val A)} {P : Val A → Val A → Prop}
    (hvals : List.Forall₂ (fun w w' => Good h' w' ∧ P w w') ws ws') : ∀ w' ∈ ws', Good h' w' := by
  induction hvals with
  | nil => exact nofun
  | cons hw _ ih =>
    intro w' hw'
    rcases List.mem_cons.1 hw' with rfl | hmem
    · exact hw.1
    · exact ih w' hmem

/-- The node that a copied node is the copy of. -/
theorem exists_original {nodes nodes' : List (BagNode A)}
    (hnodes : List.Forall₂ (NodeCrossed h h') nodes nodes') :
    (∀ node' ∈ nodes', ∃ node ∈ nodes, NodeCrossed h h' node node') ∧
      ∀ node ∈ nodes, ∃ node' ∈ nodes', NodeCrossed h h' node node' := by
  induction hnodes with
  | nil => exact ⟨nofun, nofun⟩
  | cons hnode _ ih =>
    constructor
    · intro node' hnode'
      rcases List.mem_cons.1 hnode' with rfl | hmem
      · exact ⟨_, List.mem_cons_self, hnode⟩
      · obtain ⟨node, hmem', h'⟩ := ih.1 node' hmem
        exact ⟨node, List.mem_cons_of_mem _ hmem', h'⟩
    · intro node hmem
      rcases List.mem_cons.1 hmem with rfl | hmem
      · exact ⟨_, List.mem_cons_self, hnode⟩
      · obtain ⟨node', hmem', h'⟩ := ih.2 node hmem
        exact ⟨node', List.mem_cons_of_mem _ hmem', h'⟩

/-- What the values of the copied nodes lead to, of the heap before, is what the kept values of the
Bag lead to. -/
theorem shares_nodeVals (hclosed : Closed h) {r : ℕ} {nodes nodes' : List (BagNode A)}
    (hr : h[r]? = some (.bag nodes)) (hgrows : Grows h h₁)
    (hnodes : List.Forall₂ (NodeCrossed h h₁) nodes nodes') {x : ℕ} (hx : x < h.length) :
    (∃ w ∈ nodeVals nodes', Reach h₁ w x) ↔ ∃ k, Kept h (.ref r) k ∧ Reach h k x := by
  obtain ⟨hback, hforth⟩ := exists_original hnodes
  constructor
  · rintro ⟨w, hw, hreach⟩
    obtain ⟨node', hnode', hplace⟩ := mem_nodeVals.1 hw
    obtain ⟨node, hnode, _, hattr, hvalue⟩ := hback node' hnode'
    rcases hplace with rfl | hmem
    · -- The value of a node is a copy, and shares what is kept of the original.
      obtain ⟨k, hk, hreach₀⟩ := (hvalue.shares x hx).1 hreach
      exact ⟨k, .node hr hnode hk, hreach₀⟩
    · -- An attribute is handed over itself.
      obtain ⟨⟨name, _⟩, hmem', rfl⟩ := List.mem_map.1 hmem
      rw [hattr] at hmem'
      have hk : Good h _ := (good_node hclosed hr hnode).2 name _ hmem'
      exact ⟨_, .attr hr hnode hmem', (hgrows.reach_iff hclosed hk).1 hreach⟩
  · rintro ⟨k, hk, hreach⟩
    cases hk with
    | attr hr' hnode hmem =>
      rw [hr] at hr'
      cases hr'
      obtain ⟨node', hnode', _, hattr, _⟩ := hforth _ hnode
      have hk : Good h k := (good_node hclosed hr hnode).2 _ _ hmem
      refine ⟨k, mem_nodeVals.2 ⟨node', hnode', Or.inr ?_⟩,
        (hgrows.reach_iff hclosed hk).2 hreach⟩
      rw [hattr]
      exact List.mem_map.2 ⟨_, hmem, rfl⟩
    | node hr' hnode hk =>
      rw [hr] at hr'
      cases hr'
      obtain ⟨node', hnode', _, _, hvalue⟩ := hforth _ hnode
      refine ⟨node'.value, mem_nodeVals.2 ⟨node', hnode', Or.inl rfl⟩, ?_⟩
      exact (hvalue.shares x hx).2 ⟨k, hk, hreach⟩
    | tuple hr' =>
      rw [hr] at hr'
      cases hr'
    | other hr' =>
      rw [hr] at hr'
      cases hr'

/-- A Bag rebuilt from copied nodes is a copy of the Bag. -/
theorem Crossed.bag (hclosed : Closed h) {r : ℕ} {nodes nodes' : List (BagNode A)}
    (hr : h[r]? = some (.bag nodes)) (hgrows : Grows h h₁) (hclosed₁ : Closed h₁)
    (hnodes : List.Forall₂ (NodeCrossed h h₁) nodes nodes') :
    Crossed h (h₁ ++ [.bag nodes']) (.ref r) (.ref h₁.length) := by
  have hvals := nodeVals_same hgrows hclosed hnodes (hclosed r _ hr)
  have hgood : ∀ w' ∈ nodeVals nodes', Good h₁ w' := good_of_forall₂ hvals
  have halloc : Grows h₁ (h₁ ++ [.bag nodes']) := .alloc h₁ _
  have hnew : (h₁ ++ [Obj.bag nodes'])[h₁.length]? = some (.bag nodes') := by simp
  refine ⟨hgrows.trans halloc, hclosed₁.alloc hgood, ?_, ?_, ?_⟩
  · rintro s ⟨⟩
    simp
  · intro path
    obtain ⟨hlength, heq⟩ := eq_refillNodes hnodes
    have houtline : outline (Obj.bag nodes') = outline (Obj.bag nodes) := by
      rw [heq]
      exact outline_refill (o := Obj.bag nodes) hlength
    refine observe_of_vals hr hnew houtline (hvals.imp fun w w' hw path => ?_) path
    exact (halloc.observe_eq hclosed₁ hw.1 path).trans (hw.2 path)
  · intro x hx
    have hne : x ≠ h₁.length := (hx.trans_le hgrows.length).ne
    rw [← shares_nodeVals hclosed hr hgrows hnodes hx]
    constructor
    · intro hreach
      obtain ⟨o, ho, w, hw, hreach'⟩ := (reach_ref_iff.1 hreach).resolve_left hne
      rw [hnew] at ho
      cases ho
      exact ⟨w, hw, (halloc.reach_iff hclosed₁ (hgood w hw)).1 hreach'⟩
    · rintro ⟨w, hw, hreach₁⟩
      exact .inside hnew hw ((halloc.reach_iff hclosed₁ (hgood w hw)).2 hreach₁)

/-- What `_copied` answers is a copy. -/
theorem copied_crossed : ∀ (depth : ℕ) (h : Heap (Obj A)) (v : Val A) (h' : Heap (Obj A))
    (v' : Val A), Closed h → Good h v → copied depth h v = some (h', v') → Crossed h h' v v'
  | 0, _, _, _, _, _, _, heq => by cases heq
  | depth + 1, h, .atom a, _, _, hclosed, hv, heq => by
    cases heq
    exact ⟨.refl h, hclosed, hv, fun _ => rfl, fun x _ => ⟨nofun, nofun⟩⟩
  | depth + 1, h, .ref r, h', v', hclosed, hv, heq => by
    have hlt : r < h.length := hv r rfl
    have hr : h[r]? = some h[r] := List.getElem?_eq_getElem hlt
    rw [copied, hr] at heq
    generalize h[r] = o at hr heq
    have hdeep : (∀ k, ¬ Kept h (.ref r) k) →
        ((deepcopy h.length h [] (.ref r)).map fun done => (done.1, done.2.2)) = some (h', v') →
          Crossed h h' (.ref r) v' := by
      intro hkept hdeep
      obtain ⟨⟨h'', m, v''⟩, hcopy, hresult⟩ := Option.map_eq_some_iff.1 hdeep
      cases hresult
      exact .deep hclosed hv (deepcopy_replica hclosed hv hcopy) hkept
    cases o with
    | bag nodes =>
      obtain ⟨⟨h₁, nodes'⟩, hall, hresult⟩ := Option.map_eq_some_iff.1 heq
      cases hresult
      obtain ⟨hgrows, hclosed₁, hnodes⟩ := copiedNodes_crossed (copied_crossed depth) hclosed
        (.refl h) hclosed (fun node hnode => (good_node hclosed hr hnode).1) hall
      exact .bag hclosed hr hgrows hclosed₁ hnodes
    | dict entries => exact hdeep (not_kept hr nofun nofun nofun) heq
    | list items => exact hdeep (not_kept hr nofun nofun nofun) heq
    | set items => exact hdeep (not_kept hr nofun nofun nofun) heq
    | tuple items =>
      cases heq
      refine .itself hclosed hv fun k => ⟨fun hk => ?_, fun hk => hk ▸ .tuple hr⟩
      exact kept_whole hr nofun hk
    | other fields =>
      cases heq
      refine .itself hclosed hv fun k => ⟨fun hk => ?_, fun hk => hk ▸ .other hr⟩
      exact kept_whole hr nofun hk

/-! ## A copy is made -/

/-- A value whose Bags are nested to a finite depth: no Bag holds itself as the value of a node. -/
inductive Unfolds (h : Heap (Obj A)) : Val A → Prop where
  /-- An immutable value. -/
  | atom (a : A) : Unfolds h (.atom a)
  /-- An object, if it is a Bag one whose nodes hold such values. -/
  | ref (r : ℕ) (hnodes : ∀ nodes, h[r]? = some (.bag nodes) → ∀ node ∈ nodes,
      Unfolds h node.value) : Unfolds h (.ref r)

/-- From some depth on, what holds of every element from a depth of its own on holds of all. -/
theorem exists_depth {α : Type} {P : ℕ → α → Prop} {xs : List α}
    (h : ∀ x ∈ xs, ∃ d, ∀ depth ≥ d, P depth x) : ∃ d, ∀ depth ≥ d, ∀ x ∈ xs, P depth x := by
  induction xs with
  | nil => exact ⟨0, fun _ _ => nofun⟩
  | cons x xs ih =>
    obtain ⟨d, hd⟩ := h x List.mem_cons_self
    obtain ⟨d', hd'⟩ := ih fun y hy => h y (List.mem_cons_of_mem x hy)
    refine ⟨max d d', fun depth hdepth y hy => ?_⟩
    rcases List.mem_cons.1 hy with rfl | hy
    · exact hd depth ((le_max_left d d').trans hdepth)
    · exact hd' depth ((le_max_right d d').trans hdepth) y hy

/-- The loop over the nodes ends where the copy of each value is made in every grown heap. -/
theorem copiedNodes_isSome {copied : Heap (Obj A) → Val A → Option (Heap (Obj A) × Val A)}
    (hcopied : ∀ h v h' v', Closed h → Good h v → copied h v = some (h', v') →
      Crossed h h' v v') :
    ∀ {nodes : List (BagNode A)} {h₁ : Heap (Obj A)}, Grows h h₁ → Closed h₁ →
      (∀ node ∈ nodes, Good h node.value) →
      (∀ node ∈ nodes, ∀ h₂, Grows h h₂ → Closed h₂ → (copied h₂ node.value).isSome) →
        (copiedNodes copied h₁ nodes).isSome
  | [], _, _, _, _, _ => rfl
  | node :: nodes, h₁, hg, hc₁, hgood, hsome => by
    obtain ⟨⟨h₂, w⟩, hone⟩ := Option.isSome_iff_exists.1 (hsome node List.mem_cons_self h₁ hg hc₁)
    have hcrossed := hcopied h₁ _ h₂ w hc₁ (hg.good (hgood node List.mem_cons_self)) hone
    obtain ⟨more, hmore⟩ := Option.isSome_iff_exists.1 (copiedNodes_isSome hcopied
      (hg.trans hcrossed.grows) hcrossed.closed
      (fun n hn => hgood n (List.mem_cons_of_mem _ hn))
      fun n hn => hsome n (List.mem_cons_of_mem _ hn))
    simp only [copiedNodes, hone, Option.bind_some, hmore, Option.map_some, Option.isSome_some]

/-- From some depth on the copy is made, also in a heap that grew. -/
theorem copied_isSome (hclosed : Closed h) (hunfolds : Unfolds h v) (hv : Good h v) :
    ∃ d, ∀ depth ≥ d, ∀ h₁, Grows h h₁ → Closed h₁ → (copied depth h₁ v).isSome := by
  induction hunfolds with
  | atom a =>
    refine ⟨1, fun depth hdepth h₁ _ _ => ?_⟩
    obtain ⟨depth, rfl⟩ : ∃ d, depth = d + 1 := ⟨depth - 1, by omega⟩
    rfl
  | ref r hnodes ih =>
    have hlt : r < h.length := hv r rfl
    have hr : h[r]? = some h[r] := List.getElem?_eq_getElem hlt
    generalize h[r] = o at hr
    have hdeep : ∀ h₁, Grows h h₁ → Closed h₁ →
        ((deepcopy h₁.length h₁ [] (.ref r)).map fun done => (done.1, done.2.2)).isSome := by
      intro h₁ hg hc₁
      rw [Option.isSome_map]
      exact deepcopy_isSome hc₁ _ h₁ [] _ (.start h₁) (hg.good hv) (by simp)
    have hplain : (∀ nodes, o ≠ .bag nodes) → ∀ depth ≥ 1, ∀ h₁, Grows h h₁ → Closed h₁ →
        (copied depth h₁ (.ref r)).isSome := by
      intro hbag depth hdepth h₁ hg hc₁
      obtain ⟨depth, rfl⟩ : ∃ d, depth = d + 1 := ⟨depth - 1, by omega⟩
      rw [copied, hg.kept r hlt, hr]
      cases o with
      | bag nodes => exact absurd rfl (hbag nodes)
      | dict entries => exact hdeep h₁ hg hc₁
      | list items => exact hdeep h₁ hg hc₁
      | set items => exact hdeep h₁ hg hc₁
      | tuple items => rfl
      | other fields => rfl
    cases o with
    | bag nodes =>
      -- The nodes are copied from some depth on, and the Bag from the next one.
      obtain ⟨d, hd⟩ := exists_depth fun node hnode =>
        ih nodes hr node hnode (good_node hclosed hr hnode).1
      refine ⟨d + 1, fun depth hdepth h₁ hg hc₁ => ?_⟩
      obtain ⟨depth, rfl⟩ : ∃ d, depth = d + 1 := ⟨depth - 1, by omega⟩
      rw [copied, hg.kept r hlt, hr]
      simp only [Option.isSome_map]
      exact copiedNodes_isSome (copied_crossed depth) hg hc₁
        (fun node hnode => (good_node hclosed hr hnode).1)
        (hd depth (by omega))
    | dict entries => exact ⟨1, hplain nofun⟩
    | list items => exact ⟨1, hplain nofun⟩
    | set items => exact ⟨1, hplain nofun⟩
    | tuple items => exact ⟨1, hplain nofun⟩
    | other fields => exact ⟨1, hplain nofun⟩

/-- A value whose Bags are nested to a finite depth is copied from some depth on, and every copy
made shows what the value shows, leaves the old objects as they were, and shares with them what the
kept values lead to and nothing else. -/
theorem copied_shares_kept (hclosed : Closed h) (hgood : Good h v) (hunfolds : Unfolds h v) :
    (∃ d, ∀ depth ≥ d, (copied depth h v).isSome) ∧
      ∀ depth h' v', copied depth h v = some (h', v') →
        Grows h h' ∧ (∀ path, observe h' v' path = observe h v path) ∧
          ∀ x < h.length, Reach h' v' x ↔ ∃ k, Kept h v k ∧ Reach h k x := by
  constructor
  · obtain ⟨d, hd⟩ := copied_isSome hclosed hunfolds hgood
    exact ⟨d, fun depth hdepth => hd depth hdepth h (.refl h) hclosed⟩
  · intro depth h' v' heq
    have hcrossed := copied_crossed depth h v h' v' hclosed hgood heq
    exact ⟨hcrossed.grows, hcrossed.same, hcrossed.shares⟩

/-- A Bag that holds a dict, which a list in the dict holds too, under an attribute that is a
list. -/
def avatarStore : Heap (Obj ℕ) :=
  [.bag [⟨"avatar", .ref 1, [("tags", .ref 2)]⟩], .dict [(0, .ref 3)], .list [.atom 7],
    .list [.ref 1]]

/-- The copy of that Bag. -/
theorem copied_shares_kept_avatar :
    (∃ d, ∀ depth ≥ d, (copied depth avatarStore (.ref 0)).isSome) ∧
      ∀ depth h' v', copied depth avatarStore (.ref 0) = some (h', v') →
        Grows avatarStore h' ∧ (∀ path, observe h' v' path = observe avatarStore (.ref 0) path) ∧
          ∀ x < avatarStore.length, Reach h' v' x ↔
            ∃ k, Kept avatarStore (.ref 0) k ∧ Reach avatarStore k x := by
  have hdict : Unfolds avatarStore (.ref 1) := .ref 1 fun nodes hr => by cases hr
  have hbag : Unfolds avatarStore (.ref 0) := .ref 0 fun nodes hr node hnode => by
    cases hr
    rw [List.mem_singleton] at hnode
    rw [hnode]
    exact hdict
  exact copied_shares_kept (by decide) (by decide) hbag

end GenropyAsgi.Copies
