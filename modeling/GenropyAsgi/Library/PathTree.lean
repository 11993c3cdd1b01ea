import Mathlib.Data.List.Infix
import GenropyAsgi.Library.Listing

/-!
# Trees addressed by paths

Values some of which are nodes: a node holds a listing of labelled values. A path is a list of
labels. `lookup` follows it down, `write` puts a value at its end, making a node of every step that
is none, and `remove` takes the last label out of its node, or does nothing where the path leads
nowhere.

Each law compares the path `p` of an edit with the path `q` of a lookup. Either `q` leads to `p`
(`p = q ++ r`), and the value looked up is edited at `r`; or `p` leads to `q`, and the lookup is one
in what was written; or the two are `Apart`, and the lookup does not change. Together they say that
one edit made to two trees keeps every lookup on which they agree (`lookup_write_congr`,
`lookup_remove_congr`).
-/

namespace GenropyAsgi.Library

/-- Values some of which are nodes. -/
class Branching (K : outParam Type) (V : Type) where
  /-- The node that holds a listing. -/
  node : List (K × V) → V
  /-- The listing of a node, `none` for any other value. -/
  nodes : V → Option (List (K × V))
  /-- A node holds its listing. -/
  nodes_node : ∀ items, nodes (node items) = some items
  /-- A value that holds a listing is the node of it. -/
  node_of_nodes : ∀ v items, nodes v = some items → node items = v

/-- Two paths that part at some label: neither leads to the other. -/
def Apart {K : Type} (p q : List K) : Prop := ¬ p <+: q ∧ ¬ q <+: p

/-- Paths part from one another. -/
theorem Apart.symm {K : Type} {p q : List K} (h : Apart p q) : Apart q p := ⟨h.2, h.1⟩

/-- Of two paths, one leads to the other or they part. -/
theorem prefix_or_apart {K : Type} (p q : List K) : q <+: p ∨ p <+: q ∨ Apart p q := by
  by_cases hqp : q <+: p
  · exact Or.inl hqp
  · by_cases hpq : p <+: q
    · exact Or.inr (Or.inl hpq)
    · exact Or.inr (Or.inr ⟨hpq, hqp⟩)

namespace PathTree

open Branching

variable {K V : Type} [DecidableEq K] [Branching K V]

/-- The value at a path. -/
def lookup (v : V) : List K → Option V
  | [] => some v
  | k :: rest => (nodes v).bind fun items => (Listing.get items k).bind fun child =>
      lookup child rest

/-- A value put at a path. -/
def write (v : V) : List K → V → V
  | [], w => w
  | k :: rest, w =>
    let items := (nodes v).getD []
    node (Listing.set items k (write ((Listing.get items k).getD (node [])) rest w))

/-- The node at the end of a path taken out. -/
def remove (v : V) : List K → V
  | [] => v
  | k :: rest =>
    match nodes v with
    | none => v
    | some items =>
      match rest with
      | [] => node (Listing.pop items k)
      | _ :: _ =>
        match Listing.get items k with
        | none => v
        | some child => node (Listing.set items k (remove child rest))

/-- The listing that a write finds at a value. -/
def itemsOf (v : V) : List (K × V) := (nodes v).getD []

omit [DecidableEq K] in
@[simp]
theorem itemsOf_node (items : List (K × V)) : itemsOf (node items : V) = items := by
  unfold itemsOf
  rw [nodes_node]
  rfl

/-- One step down a path. -/
theorem lookup_cons (v : V) (k : K) (rest : List K) :
    lookup v (k :: rest) = (Listing.get (itemsOf v) k).bind fun child => lookup child rest := by
  unfold itemsOf
  rw [lookup]
  cases nodes v with
  | none => rfl
  | some items => rfl

/-- A path that goes on leads nowhere in an empty node. -/
theorem lookup_node_nil (k : K) (rest : List K) :
    lookup (node [] : V) (k :: rest) = none := by
  rw [lookup_cons, itemsOf_node]
  rfl

/-- A path in two parts. -/
theorem lookup_append (v : V) (p q : List K) :
    lookup v (p ++ q) = (lookup v p).bind fun child => lookup child q := by
  induction p generalizing v with
  | nil => rfl
  | cons k rest ih =>
    rw [List.cons_append, lookup_cons, lookup_cons]
    cases Listing.get (itemsOf v) k with
    | none => rfl
    | some child => exact ih child

/-! ## Writes -/

@[simp]
theorem write_nil (v w : V) : write v ([] : List K) w = w := rfl

/-- One step of a write. -/
theorem write_cons (v : V) (k : K) (rest : List K) (w : V) :
    write v (k :: rest) w = node (Listing.set (itemsOf v) k
      (write ((Listing.get (itemsOf v) k).getD (node [])) rest w)) := rfl

/-- What a path leads to, in the child that a write goes down to. -/
theorem lookup_child (v : V) (k : K) (rest : List K) :
    (lookup ((Listing.get (itemsOf v) k).getD (node [])) rest).getD (node []) =
      (lookup v (k :: rest)).getD (node []) := by
  rw [lookup_cons]
  cases Listing.get (itemsOf v) k with
  | some child => rfl
  | none =>
    cases rest with
    | nil => rfl
    | cons j rest =>
      rw [Option.getD_none, lookup_node_nil]
      rfl

/-- A path that leads to the place written leads to what it led to, written below. -/
theorem lookup_write_above (v : V) (q r : List K) (w : V) :
    lookup (write v (q ++ r) w) q = some (write ((lookup v q).getD (node [])) r w) := by
  induction q generalizing v with
  | nil => rfl
  | cons k rest ih =>
    rw [List.cons_append, write_cons, lookup_cons, itemsOf_node, Listing.get_set, if_pos rfl,
      Option.bind_some, ih, lookup_child]

/-- What was written is there. -/
theorem lookup_write_self (v : V) (p : List K) (w : V) : lookup (write v p w) p = some w := by
  have h := lookup_write_above v p [] w
  rw [List.append_nil] at h
  exact h

/-- Below the place written there is what the value written has there. -/
theorem lookup_write_below (v : V) (p r : List K) (w : V) :
    lookup (write v p w) (p ++ r) = lookup w r := by
  rw [lookup_append, lookup_write_self, Option.bind_some]

/-- A write changes nothing at a path that parts from its own. -/
theorem lookup_write_apart {p q : List K} (h : Apart p q) (v w : V) :
    lookup (write v p w) q = lookup v q := by
  induction p generalizing v q with
  | nil => exact absurd List.nil_prefix h.1
  | cons k rest ih =>
    cases q with
    | nil => exact absurd List.nil_prefix h.2
    | cons j q =>
      rw [write_cons, lookup_cons, itemsOf_node, Listing.get_set, lookup_cons]
      by_cases hjk : j = k
      · subst hjk
        have hrest : Apart rest q := by
          constructor
          · exact fun hpre => h.1 (List.cons_prefix_cons.2 ⟨rfl, hpre⟩)
          · exact fun hpre => h.2 (List.cons_prefix_cons.2 ⟨rfl, hpre⟩)
        rw [if_pos rfl, Option.bind_some, ih hrest]
        cases Listing.get (itemsOf v) j with
        | some child => rfl
        | none =>
          -- The child is new, and the rest of the path parts from what is written into it.
          cases q with
          | nil => exact absurd List.nil_prefix hrest.2
          | cons i q =>
            rw [Option.getD_none, lookup_node_nil]
            rfl
      · rw [if_neg hjk]

/-- One write made to two trees keeps the lookups on which they agree. -/
theorem lookup_write_congr {v v' : V} {q : List K} (h : lookup v q = lookup v' q) (p : List K)
    (w : V) : lookup (write v p w) q = lookup (write v' p w) q := by
  rcases prefix_or_apart p q with ⟨r, rfl⟩ | ⟨r, rfl⟩ | hapart
  · rw [lookup_write_above, lookup_write_above, h]
  · rw [lookup_write_below, lookup_write_below]
  · rw [lookup_write_apart hapart, lookup_write_apart hapart, h]

/-- Values put at paths, one after another. -/
def writeEach (v : V) (writes : List (List K × V)) : V :=
  writes.foldl (fun v put => write v put.1 put.2) v

/-- Writes in two parts. -/
theorem writeEach_append (v : V) (writes later : List (List K × V)) :
    writeEach v (writes ++ later) = writeEach (writeEach v writes) later := List.foldl_append

/-- Writes at paths that part from a path change nothing there. -/
theorem lookup_writeEach_apart {q : List K} :
    ∀ {writes : List (List K × V)} (v : V), (∀ put ∈ writes, Apart put.1 q) →
      lookup (writeEach v writes) q = lookup v q
  | [], _, _ => rfl
  | put :: writes, v, h => by
    have hrest := lookup_writeEach_apart (write v put.1 put.2) fun later hlater =>
      h later (List.mem_cons_of_mem put hlater)
    rw [lookup_write_apart (h put List.mem_cons_self)] at hrest
    exact hrest

/-- What was put at paths that part from one another is all there. -/
theorem lookup_writeEach_of_mem :
    ∀ {writes : List (List K × V)} (v : V), writes.Pairwise (fun a b => Apart a.1 b.1) →
      ∀ put ∈ writes, lookup (writeEach v writes) put.1 = some put.2
  | [], _, _ => fun put hput => absurd hput List.not_mem_nil
  | first :: writes, v, h => by
    obtain ⟨hfirst, hrest⟩ := List.pairwise_cons.1 h
    intro put hput
    rcases List.mem_cons.1 hput with rfl | hlater
    · have hkept := lookup_writeEach_apart (write v put.1 put.2) fun later hlater =>
        (hfirst later hlater).symm
      rw [lookup_write_self] at hkept
      exact hkept
    · exact lookup_writeEach_of_mem (write v first.1 first.2) hrest put hlater

/-! ## Removals -/

/-- The last step of a removal. -/
theorem remove_last (v : V) (k : K) :
    remove v [k] = if (nodes v).isSome then node (Listing.pop (itemsOf v) k) else v := by
  unfold itemsOf
  rw [remove]
  cases nodes v with
  | none => rfl
  | some items => rfl

/-- A step of a removal before the last. -/
theorem remove_cons (v : V) (k : K) {rest : List K} (hrest : rest ≠ []) :
    remove v (k :: rest) =
      match Listing.get (itemsOf v) k with
      | none => v
      | some child => node (Listing.set (itemsOf v) k (remove child rest)) := by
  unfold itemsOf
  rw [remove]
  cases nodes v with
  | none => rfl
  | some items =>
    cases rest with
    | nil => exact absurd rfl hrest
    | cons j rest => rfl

omit [DecidableEq K] in
/-- A value that is no node has no listing. -/
theorem itemsOf_of_isNone {v : V} (h : ¬ (nodes v).isSome) : itemsOf v = [] := by
  unfold itemsOf
  rw [Option.not_isSome_iff_eq_none.1 h]
  rfl

/-- A path that leads to the place removed leads to what it led to, with the removal below. -/
theorem lookup_remove_above (v : V) (q : List K) {r : List K} (hr : r ≠ []) :
    lookup (remove v (q ++ r)) q = (lookup v q).map fun child => remove child r := by
  induction q generalizing v with
  | nil => rfl
  | cons k rest ih =>
    have hne : rest ++ r ≠ [] := by
      intro h
      exact hr (List.append_eq_nil_iff.1 h).2
    rw [List.cons_append, remove_cons v k hne, lookup_cons v]
    cases hget : Listing.get (itemsOf v) k with
    | none =>
      rw [lookup_cons, hget]
      rfl
    | some child =>
      dsimp only
      rw [lookup_cons, itemsOf_node, Listing.get_set, if_pos rfl, Option.bind_some, ih child]
      rfl

/-- What was removed is not there. -/
theorem lookup_remove_self (v : V) {p : List K} (hp : p ≠ []) : lookup (remove v p) p = none := by
  induction p generalizing v with
  | nil => exact absurd rfl hp
  | cons k rest ih =>
    cases rest with
    | nil =>
      rw [remove_last, lookup_cons]
      split_ifs with hnode
      · rw [itemsOf_node, Listing.get_pop, if_pos rfl]
        rfl
      · rw [itemsOf_of_isNone hnode]
        rfl
    | cons j rest =>
      have hne : j :: rest ≠ [] := List.cons_ne_nil j rest
      rw [remove_cons v k hne, lookup_cons]
      cases hget : Listing.get (itemsOf v) k with
      | none =>
        dsimp only
        rw [hget]
        rfl
      | some child =>
        dsimp only
        rw [itemsOf_node, Listing.get_set, if_pos rfl, Option.bind_some]
        exact ih child hne

/-- Nothing is below what was removed. -/
theorem lookup_remove_below (v : V) {p : List K} (hp : p ≠ []) (r : List K) :
    lookup (remove v p) (p ++ r) = none := by
  rw [lookup_append, lookup_remove_self v hp]
  rfl

/-- A removal changes nothing at a path that parts from its own. -/
theorem lookup_remove_apart {p q : List K} (h : Apart p q) (v : V) :
    lookup (remove v p) q = lookup v q := by
  induction p generalizing v q with
  | nil => rfl
  | cons k rest ih =>
    cases q with
    | nil => exact absurd List.nil_prefix h.2
    | cons j q =>
      rw [lookup_cons, lookup_cons]
      cases rest with
      | nil =>
        have hjk : j ≠ k := by
          rintro rfl
          exact h.1 (List.cons_prefix_cons.2 ⟨rfl, List.nil_prefix⟩)
        rw [remove_last]
        split_ifs
        · rw [itemsOf_node, Listing.get_pop, if_neg hjk]
        · rfl
      | cons i rest =>
        rw [remove_cons v k (List.cons_ne_nil i rest)]
        cases hget : Listing.get (itemsOf v) k with
        | none => rfl
        | some child =>
          dsimp only
          rw [itemsOf_node, Listing.get_set]
          by_cases hjk : j = k
          · subst hjk
            have hrest : Apart (i :: rest) q := by
              constructor
              · exact fun hpre => h.1 (List.cons_prefix_cons.2 ⟨rfl, hpre⟩)
              · exact fun hpre => h.2 (List.cons_prefix_cons.2 ⟨rfl, hpre⟩)
            rw [if_pos rfl, hget, Option.bind_some, Option.bind_some, ih hrest]
          · rw [if_neg hjk]

/-- One removal made to two trees keeps the lookups on which they agree. -/
theorem lookup_remove_congr {v v' : V} {q : List K} (h : lookup v q = lookup v' q) {p : List K}
    (hp : p ≠ []) : lookup (remove v p) q = lookup (remove v' p) q := by
  rcases prefix_or_apart p q with ⟨r, rfl⟩ | ⟨r, rfl⟩ | hapart
  · by_cases hr : r = []
    · subst hr
      rw [List.append_nil] at hp ⊢
      rw [lookup_remove_self v hp, lookup_remove_self v' hp]
    · rw [lookup_remove_above v q hr, lookup_remove_above v' q hr, h]
  · rw [lookup_remove_below v hp, lookup_remove_below v' hp]
  · rw [lookup_remove_apart hapart, lookup_remove_apart hapart, h]

/-- A removal where the path leads nowhere changes nothing. -/
theorem remove_of_lookup_none {v : V} {p : List K} (h : lookup v p = none) : remove v p = v := by
  induction p generalizing v with
  | nil => rfl
  | cons k rest ih =>
    rw [lookup_cons] at h
    cases rest with
    | nil =>
      rw [remove_last]
      split_ifs with hnode
      · obtain ⟨items, hitems⟩ := Option.isSome_iff_exists.1 hnode
        have hof : itemsOf v = items := by
          unfold itemsOf
          rw [hitems]
          rfl
        rw [hof] at h ⊢
        have hget : Listing.get items k = none := by
          cases hget : Listing.get items k with
          | none => rfl
          | some child =>
            rw [hget] at h
            cases h
        rw [Listing.pop_of_get hget]
        exact node_of_nodes v items hitems
      · rfl
    | cons j rest =>
      rw [remove_cons v k (List.cons_ne_nil j rest)]
      cases hget : Listing.get (itemsOf v) k with
      | none => rfl
      | some child =>
        dsimp only
        rw [hget, Option.bind_some] at h
        rw [ih h, Listing.set_of_get hget]
        -- A listing with a child is that of a node.
        cases hnodes : nodes v with
        | none =>
          have hnone : ¬ (nodes v).isSome := by
            rw [hnodes]
            exact Bool.false_ne_true
          rw [itemsOf_of_isNone hnone] at hget
          cases hget
        | some items =>
          have hof : itemsOf v = items := by
            unfold itemsOf
            rw [hnodes]
            rfl
          rw [hof]
          exact node_of_nodes v items hnodes

/-! ## Properties that a node has when its values have them -/

/-- A property that a node has exactly when the values that it holds have it. -/
def Hereditary (P : V → Prop) : Prop :=
  ∀ items : List (K × V), P (node items) ↔ ∀ item ∈ items, P item.2

omit [DecidableEq K] in
/-- The listing that a write finds holds values with the property. -/
theorem Hereditary.itemsOf {P : V → Prop} (hP : Hereditary P) {v : V} (hv : P v) :
    ∀ item ∈ itemsOf v, P item.2 := by
  unfold PathTree.itemsOf
  cases hnodes : nodes v with
  | none => exact fun item hitem => absurd hitem List.not_mem_nil
  | some items =>
    rw [← node_of_nodes v items hnodes] at hv
    exact (hP items).1 hv

/-- What stands under a label has the property. -/
theorem Hereditary.get {P : V → Prop} (hP : Hereditary P) {v child : V} (hv : P v) {k : K}
    (h : Listing.get (PathTree.itemsOf v) k = some child) : P child :=
  hP.itemsOf hv (k, child) (Listing.mem_of_get h)

/-- What a path leads to has the property. -/
theorem Hereditary.lookup {P : V → Prop} (hP : Hereditary P) {v w : V} (hv : P v) {p : List K}
    (h : lookup v p = some w) : P w := by
  induction p generalizing v with
  | nil =>
    cases h
    exact hv
  | cons k rest ih =>
    rw [lookup_cons] at h
    obtain ⟨child, hchild, hrest⟩ := Option.bind_eq_some_iff.1 h
    exact ih (hP.get hv hchild) hrest

/-- A write of a value with the property keeps it. -/
theorem Hereditary.write {P : V → Prop} (hP : Hereditary P) {v w : V} (hv : P v) (hw : P w)
    (p : List K) : P (write v p w) := by
  induction p generalizing v with
  | nil => exact hw
  | cons k rest ih =>
    rw [write_cons]
    refine (hP _).2 fun item hitem => ?_
    rcases Listing.mem_set hitem with hold | rfl
    · exact hP.itemsOf hv item hold
    · refine ih ?_
      cases hget : Listing.get (PathTree.itemsOf v) k with
      | none => exact (hP []).2 fun item hitem => absurd hitem List.not_mem_nil
      | some child => exact hP.get hv hget

/-- A removal keeps the property. -/
theorem Hereditary.remove {P : V → Prop} (hP : Hereditary P) {v : V} (hv : P v) (p : List K) :
    P (remove v p) := by
  induction p generalizing v with
  | nil => exact hv
  | cons k rest ih =>
    cases rest with
    | nil =>
      rw [remove_last]
      split_ifs
      · refine (hP _).2 fun item hitem => ?_
        exact hP.itemsOf hv item ((Listing.pop_sublist _ k).subset hitem)
      · exact hv
    | cons j rest =>
      rw [remove_cons v k (List.cons_ne_nil j rest)]
      cases hget : Listing.get (PathTree.itemsOf v) k with
      | none => exact hv
      | some child =>
        refine (hP _).2 fun item hitem => ?_
        rcases Listing.mem_set hitem with hold | rfl
        · exact hP.itemsOf hv item hold
        · exact ih (hP.get hv hget)

/-! ## Maps that go through nodes -/

/-- A map `f` of trees that makes of a node the node of the images under `g`, and no node of
anything else: below the root it is `g`. -/
structure Through (g f : V → V) : Prop where
  /-- The image of a node. -/
  node : ∀ items : List (K × V), f (node items) = Branching.node (Listing.mapVals g items)
  /-- The listing of an image. -/
  itemsOf : ∀ v, itemsOf (f v) = Listing.mapVals g (itemsOf v)

/-- A path leads to the image of what it led to. -/
theorem Through.lookup {g f : V → V} (hg : Through g g) (hf : Through g f) (v : V) {p : List K}
    (hp : p ≠ []) : lookup (f v) p = (lookup v p).map g := by
  induction p generalizing v f with
  | nil => exact absurd rfl hp
  | cons k rest ih =>
    rw [lookup_cons, lookup_cons, hf.itemsOf, Listing.get_mapVals]
    cases Listing.get (PathTree.itemsOf v) k with
    | none => rfl
    | some child =>
      rw [Option.map_some, Option.bind_some, Option.bind_some]
      by_cases hrest : rest = []
      · subst hrest
        rfl
      · exact ih hg child hrest

/-- The image of a write is the write of the image. -/
theorem Through.write {g f : V → V} (hg : Through g g) (hf : Through g f) (v w : V) {p : List K}
    (hp : p ≠ []) : f (write v p w) = write (f v) p (g w) := by
  induction p generalizing v f with
  | nil => exact absurd rfl hp
  | cons k rest ih =>
    rw [write_cons, write_cons, hf.node, hf.itemsOf, Listing.mapVals_set, Listing.get_mapVals]
    by_cases hrest : rest = []
    · subst hrest
      rfl
    · have hchild : ((Listing.get (PathTree.itemsOf v) k).map g).getD (Branching.node []) =
          g ((Listing.get (PathTree.itemsOf v) k).getD (Branching.node [])) := by
        cases Listing.get (PathTree.itemsOf v) k with
        | none =>
          rw [Option.getD_none, hg.node]
          rfl
        | some child => rfl
      rw [ih hg _ hrest, hchild]

end PathTree

end GenropyAsgi.Library
