import GenropyAsgi.Change

/-!
# The legacy Bag and its capture

The `gnr` Bag is code outside the repository. `LegacyBag` is what the bridge calls on one: each
write gives the new Bag and the events that it sent to its subscribers, in order, each with what a
subscriber reads off the node at that moment.

`LegacyBagCollector` is the capture of `legacy_bag.py`. A store is referred to by an object
identity, a `BagId`, since the code compares stores with `is`.
-/

namespace GenropyAsgi

open Library

/-- The identity of a Bag object. -/
abbrev BagId := ℕ

/-- The `evt` of a Bag event. -/
inductive BagEvt where
  /-- A node was inserted. -/
  | ins
  /-- A node was removed. -/
  | del
  /-- One of the update events. -/
  | upd (name : String)
deriving DecidableEq

/-- An event of a Bag, with what its subscribers read off the node. -/
structure BagEvent (V : Type) where
  /-- The label of the node. -/
  label : String
  /-- The attributes of the node. -/
  attr : Attributes V
  /-- The static value of the node. -/
  staticvalue : V
  /-- The path: the parent's on `ins` and `del`, the node's own on an update. -/
  pathlist : List String
  /-- What happened. -/
  evt : BagEvt
  /-- The reason of the write. -/
  reason : Option String

/-- What the bridge calls on a legacy Bag. -/
class LegacyBag (B V : Type) where
  /-- `setItem(path, value, _attributes=..., _reason=...)`. -/
  setItem : B → String → V → Attributes V → Option String → B × List (BagEvent V)
  /-- `pop(path, _reason=...)`. -/
  pop : B → String → Option String → B × List (BagEvent V)
  /-- The node at a path with its attributes and static value edited in place, which sends no
  event. -/
  editNode : B → String → (Attributes V × V → Attributes V × V) → B

variable {V : Type}

namespace BagEvent

/-- The path that the captures rebuild: `ins` and `del` need the node's label. -/
def path (event : BagEvent V) : String :=
  match event.evt with
  | .ins => ".".intercalate (event.pathlist ++ [event.label])
  | .del => ".".intercalate (event.pathlist ++ [event.label])
  | .upd _ => ".".intercalate event.pathlist

variable [PyValue V]

/-- The transient `_fired` attribute, as the captures pop it from their copy. -/
def fired (event : BagEvent V) : Bool :=
  match event.attr.get "_fired" with
  | some value => PyValue.truthy value
  | none => false

/-- The attributes left in the copy, `None` for an empty one. -/
def attributes (event : BagEvent V) : Option (Attributes V) :=
  if (event.attr.pop "_fired").keys = ∅ then none else some (event.attr.pop "_fired")

/-- The change that a capture builds from an event. -/
def change (event : BagEvent V) (reason : Option String) (change_ts : Instant) : Change V where
  key := ⟨event.path, reason, event.fired⟩
  value := if event.evt = .del then PyValue.none else event.staticvalue
  attributes := event.attributes
  delete := decide (event.evt = .del)
  change_ts := change_ts
  change_idx := 0
  arrival_ts := none

end BagEvent

/-- Whether a path falls under one of the prefixes. -/
def underAny (paths : Finset String) (path : String) : Bool :=
  decide (∃ top ∈ paths, under path top = true)

/-- A collector on a Bag. -/
structure LegacyBagCollector (V : Type) where
  /-- The Bag observed. -/
  bag : BagId
  /-- The captured prefixes, `None` for every write. -/
  paths : Option (Finset String)
  /-- The pending changes. -/
  changes : List (Change V)
  /-- `_change_idx`, the index given to the last deposit. -/
  change_idx : ℕ
  /-- Whether the subscription on the Bag is there. -/
  attached : Bool

namespace LegacyBagCollector

/-- The constructor, which attaches the collector. -/
def new (bag : BagId) (paths : Option (Finset String)) : LegacyBagCollector V :=
  ⟨bag, paths, [], 0, true⟩

/-- `_captures`. -/
def captures (collector : LegacyBagCollector V) (path : String) : Bool :=
  match collector.paths with
  | none => true
  | some paths => underAny paths path

/-- `_deposit`: the change joins the pending list under the next index. -/
def deposit (collector : LegacyBagCollector V) (change : Change V) : LegacyBagCollector V :=
  { collector with
    change_idx := collector.change_idx + 1
    changes := collector.changes ++ [{ change with change_idx := collector.change_idx + 1 }] }

/-- `_on_event`, with the instant that `_build_change` reads. -/
def onEvent [PyValue V] (collector : LegacyBagCollector V) (event : BagEvent V)
    (now : Instant) : LegacyBagCollector V :=
  if collector.captures event.path then collector.deposit (event.change event.reason now)
  else collector

/-- `drain`, with `reset`: the pending changes by index, and the collector without them. -/
def drain (collector : LegacyBagCollector V) : LegacyBagCollector V × List (Change V) :=
  ({ collector with changes := [] },
    collector.changes.mergeSort fun c d => decide (c.change_idx ≤ d.change_idx))

/-- `append`. -/
def append (collector : LegacyBagCollector V) (change : Change V) (replace : Bool) :
    LegacyBagCollector V :=
  deposit
    (if replace then
      { collector with
        changes := collector.changes.filter fun pending => decide (pending.key ≠ change.key) }
    else collector)
    change

/-- `subscribe_path`. -/
def subscribePath (collector : LegacyBagCollector V) (top : String) : LegacyBagCollector V :=
  { collector with paths := some (insert top (collector.paths.getD ∅)) }

/-- `unsubscribe_path`. -/
def unsubscribePath (collector : LegacyBagCollector V) (top : String) : LegacyBagCollector V :=
  { collector with paths := collector.paths.map fun paths => paths.erase top }

/-- `detach`. -/
def detach (collector : LegacyBagCollector V) : LegacyBagCollector V :=
  { collector with attached := false }

/-- No pending change carries an `arrival_ts`: the collector stamps none. -/
def Unstamped (collector : LegacyBagCollector V) : Prop :=
  ∀ change ∈ collector.changes, change.arrival_ts = none

/-- A newborn collector holds no change. -/
theorem unstamped_new (bag : BagId) (paths : Option (Finset String)) :
    (new bag paths : LegacyBagCollector V).Unstamped := by
  intro change hchange
  cases hchange

/-- The deposit of a change without a stamp leaves the collector without stamps. -/
theorem Unstamped.deposit {collector : LegacyBagCollector V} (h : collector.Unstamped)
    {change : Change V} (hchange : change.arrival_ts = none) :
    (collector.deposit change).Unstamped := by
  intro pending hpending
  rcases List.mem_append.1 hpending with hold | hnew
  · exact h pending hold
  · rw [List.mem_singleton] at hnew
    rw [hnew]
    exact hchange

/-- The capture stamps none. -/
theorem Unstamped.onEvent [PyValue V] {collector : LegacyBagCollector V} (h : collector.Unstamped)
    (event : BagEvent V) (now : Instant) : (collector.onEvent event now).Unstamped := by
  unfold LegacyBagCollector.onEvent
  split_ifs
  · exact h.deposit rfl
  · exact h

/-- `drain` leaves nothing behind. -/
theorem unstamped_drain (collector : LegacyBagCollector V) : collector.drain.1.Unstamped := by
  intro change hchange
  cases hchange

/-- `drain` answers the pending changes, in some order. -/
theorem drain_perm (collector : LegacyBagCollector V) :
    collector.drain.2.Perm collector.changes := List.mergeSort_perm _ _

end LegacyBagCollector
end GenropyAsgi
