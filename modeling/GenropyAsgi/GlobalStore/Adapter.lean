import GenropyAsgi.GlobalStore.Value

/-!
# The global store adapter

`global_store_adapter.py`: the legacy dotted path on the commander's one dictionary. `Master` is the
dictionary, which holds what came off the wire; a `for_update` turn works on a private copy, of one
key (`KeyedTurn`) or of the whole dictionary (a `Content`). `Site` has what one operation of a
thread resolves: the core's store, which is not there before the worker attaches, the thread's
active turn, and the local Bag.
-/

namespace GenropyAsgi.GlobalStore

open Library

variable {A : Type}

/-! ## The legacy Bag -/

/-- `getItem(path, default)` of a Bag. -/
def getItem (bag : Value A) (path : String) (default : Value A) : Value A :=
  (PathTree.lookup bag (labels path)).getD default

/-- `setItem(path, value)` of a Bag. -/
def setItem (bag : Value A) (path : String) (value : Value A) : Value A :=
  PathTree.write bag (labels path) value

/-- `delItem(path)` of a Bag. -/
def delItem (bag : Value A) (path : String) : Value A := PathTree.remove bag (labels path)

/-- The value if it is a Bag, else a new Bag. -/
def asBag (value : Value A) : Value A :=
  match value.nodes? with
  | some nodes => .bag nodes
  | none => .bag []

/-! ## The dictionaries -/

/-- A dictionary in the hands of a thread. -/
abbrev Content (A : Type) := OrderedDict String (Value A)

/-- The commander's dictionary. -/
structure Master (A : Type) where
  /-- The values under their keys. -/
  content : Content A
  /-- They came off the wire. -/
  aware : ∀ key value, content.get key = some value → value.IsAware

namespace Master

/-- Two dictionaries with the same content are equal. -/
@[ext]
theorem ext {master master' : Master A} (h : master.content = master'.content) :
    master = master' := by
  cases master
  cases master'
  cases h
  rfl

/-- The dictionary of a commander that just started. -/
def empty : Master A := ⟨OrderedDict.empty, fun _ _ h => by cases h⟩

variable (zone : ℤ)

/-- `get(key)`, `none` for an absent key. -/
def get (master : Master A) (key : String) : Option (Value A) :=
  (master.content.get key).map (wired zone)

/-- `set(key, value)`. -/
def set (master : Master A) (key : String) (value : Value A) : Master A where
  content := master.content.set key (wired zone value)
  aware := by
    intro j v h
    rw [OrderedDict.get_set] at h
    split_ifs at h
    · cases h
      exact isAware_cross zone 0 value
    · exact master.aware j v h

/-- `delete(key)`. -/
def delete (master : Master A) (key : String) : Master A where
  content := master.content.pop key
  aware := by
    intro j v h
    rw [OrderedDict.get_pop] at h
    split_ifs at h
    exact master.aware j v h

/-- The private copy of a `for_update()` without a key. -/
def forUpdate (master : Master A) : Content A := master.content.mapVals (wired zone)

end Master

/-- What the exit of a turn on the whole dictionary publishes. -/
def publish (zone : ℤ) (content : Content A) : Master A where
  content := content.mapVals (wired zone)
  aware := by
    intro key value h
    rw [OrderedDict.get_mapVals] at h
    obtain ⟨v, -, rfl⟩ := Option.map_eq_some_iff.1 h
    exact isAware_cross zone 0 v

/-- A `for_update(key)` turn. -/
structure KeyedTurn (A : Type) where
  /-- The key. -/
  key : String
  /-- `exists`. -/
  isThere : Bool
  /-- The private copy of the value, `None` for an absent key. -/
  value : Value A

namespace KeyedTurn

/-- The turn on one key. -/
def enter (zone : ℤ) (master : Master A) (key : String) : KeyedTurn A :=
  match master.get zone key with
  | some value => ⟨key, true, value⟩
  | none => ⟨key, false, .none⟩

/-- The normal exit, which publishes the value. -/
def exit (zone : ℤ) (master : Master A) (keyed : KeyedTurn A) : Master A :=
  master.set zone keyed.key keyed.value

/-- The body of a write: `bag = keyed.value if keyed.exists and isinstance(keyed.value, Bag) else
Bag()`, the write into it, and the assignment. -/
def write (keyed : KeyedTurn A) (rest : String) (value : Value A) : KeyedTurn A :=
  { keyed with value := setItem (if keyed.isThere then asBag keyed.value else .bag []) rest value }

/-- The body of a delete, `none` where it aborts the turn. -/
def delete (keyed : KeyedTurn A) (rest : String) : Option (KeyedTurn A) :=
  if keyed.isThere ∧ keyed.value.nodes?.isSome then
    some { keyed with value := delItem keyed.value rest }
  else none

end KeyedTurn

/-! ## The legacy boundary -/

section

variable (zone : ℤ)

/-- `_legacy_read`. -/
def legacyRead (value : Value A) (rest : String) (default : Value A) : Value A :=
  if rest ≠ "" then
    match value.nodes? with
    | none => default
    | some _ => legacyValue zone (getItem value rest default)
  else legacyValue zone value

/-- `_write_into`. -/
def writeInto (content : Content A) (key rest : String) (value : Value A) : Content A :=
  if rest = "" then content.set key (wireValue zone (legacyValue zone value))
  else
    -- A key that holds no Bag is given one.
    let bag := ((content.get key).map asBag).getD (.bag [])
    content.set key (setItem bag rest (legacyValue zone value))

/-- `_delete_from`. -/
def deleteFrom (content : Content A) (key rest : String) : Content A :=
  if rest = "" then content.pop key
  else
    match (content.get key).bind Value.nodes? with
    | some nodes => content.set key (delItem (.bag nodes) rest)
    -- A path under a key that is absent, or is no Bag, removes nothing.
    | none => content

/-- `_as_legacy_bag`. -/
def asLegacyBag (content : Content A) : Value A :=
  content.items.foldl (fun bag item => setItem bag item.1 (legacyValue zone item.2)) (.bag [])

end

/-! ## The operations of one thread -/

/-- What an operation of the global store raises. -/
inductive GlobalError where
  /-- `ValueError`, with its text. -/
  | valueError (text : String)
  /-- `GnrDaemonLocked`, with its text. -/
  | gnrDaemonLocked (text : String)
  /-- The core's `RuntimeError` for a nested turn. -/
  | runtimeError
deriving DecidableEq

/-- The refusal of a write without a path. -/
def writeNeedsPath : GlobalError :=
  .valueError "the global store has no value of its own: a write needs a path"

/-- The refusal of a delete without a path. -/
def deleteNeedsPath : GlobalError :=
  .valueError "the global store has no value of its own: a delete needs a path"

/-- What one operation of a thread resolves. -/
structure Site (A : Type) where
  /-- The dictionary behind `core_store`, `none` while no worker is attached. -/
  master : Option (Master A)
  /-- The private dictionary of `active_turn`. -/
  turn : Option (Content A)
  /-- `local_bag`. -/
  local_bag : Value A

namespace Site

variable (zone : ℤ)

/-- `store_bag`. The turn that it takes outside a block is aborted: the dictionary stays. -/
def storeBag (site : Site A) : Value A :=
  match site.turn with
  | some content => asLegacyBag zone content
  | none =>
    match site.master with
    | none => legacyValue zone site.local_bag
    | some master => asLegacyBag zone (master.forUpdate zone)

/-- `get_global_item`. -/
def getGlobalItem (site : Site A) (path : Option String) (default : Value A) : Value A :=
  match splitGlobalPath path with
  | (none, _) => site.storeBag zone
  | (some key, rest) =>
    match site.turn with
    | some content =>
      match content.get key with
      | none => default
      | some value => legacyRead zone value rest default
    | none =>
      match site.master with
      | none => legacyValue zone (getItem site.local_bag (path.getD "") default)
      | some master =>
        match master.get zone key with
        | none => default
        | some value => legacyRead zone value rest default

/-- `set_global_item`. -/
def setGlobalItem (site : Site A) (path : String) (value : Value A) :
    Except GlobalError (Site A) :=
  match splitGlobalPath (some path) with
  | (none, _) => .error writeNeedsPath
  | (some key, rest) =>
    match site.turn with
    | some content => .ok { site with turn := some (writeInto zone content key rest value) }
    | none =>
      match site.master with
      | none => .ok { site with
          local_bag := setItem site.local_bag path (legacyValue zone value) }
      | some master =>
        if rest = "" then
          .ok { site with master := some (master.set zone key (wireValue zone value)) }
        else
          -- The keyed turn; the Bag goes into it as it is, and its dates cross with it.
          let keyed := (KeyedTurn.enter zone master key).write rest value
          .ok { site with master := some (keyed.exit zone master) }

/-- `delete_global_item`. -/
def deleteGlobalItem (site : Site A) (path : String) : Except GlobalError (Site A) :=
  match splitGlobalPath (some path) with
  | (none, _) => .error deleteNeedsPath
  | (some key, rest) =>
    match site.turn with
    | some content => .ok { site with turn := some (deleteFrom content key rest) }
    | none =>
      match site.master with
      | none => .ok { site with local_bag := delItem site.local_bag path }
      | some master =>
        if rest = "" then .ok { site with master := some (master.delete key) }
        else
          match (KeyedTurn.enter zone master key).delete rest with
          -- The turn aborts: a normal exit would leave the key stored as `None`.
          | none => .ok site
          | some keyed => .ok { site with master := some (keyed.exit zone master) }

/-- `open_turn`. -/
def openTurn (site : Site A) : Except GlobalError (Site A) :=
  match site.master with
  | none => .error (.gnrDaemonLocked "global store turn: no worker attached")
  | some master =>
    match site.turn with
    -- A nested block is refused by the core.
    | some _ => .error .runtimeError
    | none => .ok { site with turn := some (master.forUpdate zone) }

/-- `close_turn`, with whether the body raised. -/
def closeTurn (site : Site A) (raised : Bool) : Site A :=
  match site.turn with
  | none => site
  | some content =>
    if raised then { site with turn := none }
    else { site with
      master := some (publish zone (content.mapVals (wireValue zone)))
      turn := none }

end Site

/-- An operation of the surface. -/
inductive Call (A : Type) where
  /-- `get_global_item`. -/
  | get (path : Option String) (default : Value A)
  /-- `set_global_item`. -/
  | set (path : String) (value : Value A)
  /-- `delete_global_item`. -/
  | delete (path : String)
  /-- `store_bag`. -/
  | storeBag

/-- What an operation gives its caller. -/
inductive Answer (A : Type) where
  /-- A value. -/
  | value (v : Value A)
  /-- Nothing. -/
  | done
  /-- An exception. -/
  | raised (error : GlobalError)

/-- An operation that changes the store, with its answer: one that raises leaves it as it is. -/
def Site.settle (site : Site A) : Except GlobalError (Site A) → Site A × Answer A
  | .ok site' => (site', .done)
  | .error error => (site, .raised error)

/-- An operation of a thread, and what it answers. -/
def Site.call (zone : ℤ) (site : Site A) : Call A → Site A × Answer A
  | .get path default => (site, .value (site.getGlobalItem zone path default))
  | .set path value => site.settle (site.setGlobalItem zone path value)
  | .delete path => site.settle (site.deleteGlobalItem zone path)
  | .storeBag => (site, .value (site.storeBag zone))

end GenropyAsgi.GlobalStore
