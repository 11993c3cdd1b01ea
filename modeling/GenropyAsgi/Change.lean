import Mathlib.Data.String.Basic
import GenropyAsgi.Library.Dict

/-!
# What travels: changes, addressed writes, table events

The plain dictionaries of `legacy_bag.py` and `delivery_desk.py`, as structures under the same field
names. A value is an opaque Python value `V`; what the code itself needs of one is `PyValue`. Texts
that only name things (pages, connections, users, tables, workers) are strings.

A TYTX text is known by what `from_tytx` answers on it: a `Parcel` is the change that it decodes to,
or nothing when it does not decode. Every change that crosses the wire a second time, on the reply
of an exchange, came off it once already, so it crosses it as it is.
-/

namespace GenropyAsgi

open Library

/-- An instant of the wall clock. Only the order of two instants is ever read. -/
abbrev Instant := ℤ

/-- The id of a page, its `register_item_id`. -/
abbrev PageId := String

/-- The id of a connection. -/
abbrev ConnectionId := String

/-- The name of a user, a guest's included. -/
abbrev User := String

/-- The name of a database table. -/
abbrev Table := String

/-- The name of a worker. -/
abbrev WorkerName := String

/-- `sorted`, on a set of names. -/
def sorted (names : Finset String) : List String := names.sort (· ≤ ·)

/-- The sorted list has the names of the set. -/
@[simp]
theorem mem_sorted {names : Finset String} {name : String} :
    name ∈ sorted names ↔ name ∈ names := Finset.mem_sort _

/-- The set of a sorted list is the set that was sorted. -/
@[simp]
theorem toFinset_sorted (names : Finset String) : (sorted names).toFinset = names :=
  Finset.sort_toFinset names _

/-- What the code needs of a Python value: the constants that it writes itself, a datetime as a
value, and the truth test. -/
class PyValue (V : Type) where
  /-- `None`. -/
  none : V
  /-- `True`. -/
  true : V
  /-- A datetime, as a value. -/
  ofInstant : Instant → V
  /-- The truth value of `bool(v)`. -/
  truthy : V → Bool

/-- The attributes of a node. -/
abbrev Attributes (V : Type) := Dict String V

/-- The `key` of a change: what `replace` coalesces on. -/
structure ChangeKey where
  /-- The dotted path written. -/
  path : String
  /-- The reason the writer gave. -/
  reason : Option String
  /-- Whether the write is a one-shot event. -/
  fired : Bool
deriving DecidableEq

/-- A datachange. -/
structure Change (V : Type) where
  /-- Path, reason, and fired flag. -/
  key : ChangeKey
  /-- The value written, `None` on a delete. -/
  value : V
  /-- The node's attributes, when it has any. -/
  attributes : Option (Attributes V)
  /-- Whether the change removes the node. -/
  delete : Bool
  /-- The writer's own clock. -/
  change_ts : Instant
  /-- The number stamped by the list that the change sits in. -/
  change_idx : ℕ
  /-- The instant at which the change joined its queue; a `user_view` stamps none. -/
  arrival_ts : Option Instant

/-- A TYTX-encoded change, as `from_tytx` answers on it. -/
abbrev Parcel (V : Type) := Option (Change V)

/-- What `kind` names in an addressed write. -/
inductive Kind where
  /-- `"page"`, the `SIGNAL_KIND`. -/
  | page
  /-- `"page_store"`. -/
  | page_store
  /-- `"user_store"`. -/
  | user_store
  /-- `"connection_store"`. -/
  | connection_store
  /-- Any other text. -/
  | other (name : String)
deriving DecidableEq

/-- Membership in `STATE_KINDS`: the target is a store. -/
def Kind.isState : Kind → Bool
  | .page_store => true
  | .user_store => true
  | .connection_store => true
  | .page => false
  | .other _ => false

/-- The operation of an addressed write, with what each adds to the message. -/
inductive Op (V : Type) where
  /-- `set_datachange`, with its encoded change and the `replace` flag. -/
  | setDatachange (change : Parcel V) (replace : Bool)
  /-- `reset_datachanges`. -/
  | resetDatachanges
  /-- `drop_datachanges`, with the path whose pending changes go. -/
  | dropDatachanges (path : String)

/-- An addressed write, as the worker's CALL carries it to the desk. -/
structure Message (V : Type) where
  /-- The operation. -/
  op : Op V
  /-- What `target` names. -/
  kind : Kind
  /-- The addressed page or user. -/
  target : Option String
  /-- The broadcast address. -/
  filters : Option String

/-- The deposit of one table's events. -/
structure DbEvent (V : Type) where
  /-- The table the batch belongs to. -/
  table : Table
  /-- The events as the commit produced them. -/
  batch : List V
  /-- The origin page. -/
  from_page_id : Option PageId
  /-- What the commit was. -/
  reason : Option String
  /-- The instant of the commit. -/
  ts : Instant
  /-- The instant at which the desk filed the deposit. -/
  arrival_ts : Option Instant
deriving DecidableEq

/-- The exceptions of the modelled code, each with the fixed text of its message and the value that
the message quotes. -/
inductive PyError where
  /-- `KeyError`. -/
  | keyError (text argument : String)
  /-- `TypeError`: a `None` subscripted. -/
  | typeError (text : String)
  /-- `NotImplementedError`. -/
  | notImplementedError (text argument : String)
  /-- `from_tytx` on a text that does not decode. -/
  | decodeError
  /-- `CommanderCallFailed`: the CALL was answered with an error. -/
  | commanderCallFailed
deriving DecidableEq

/-- Whether a path falls under a dropped or captured one, on a segment boundary: `_under` of the
desk and of the collector, and the tests written out in the row's capture and in the row's
`drop_datachanges`. -/
def under (path top : String) : Bool := path == top || path.startsWith (top ++ ".")

/-- `_arrival_order`: the instant at which a change joined its queue, or the write's own clock for a
change without one. -/
def Change.arrivalOrder {V : Type} (change : Change V) : Instant :=
  match change.arrival_ts with
  | some arrival_ts => arrival_ts
  | none => change.change_ts

/-- The change without the number that its list gave it: what stays the same when a collect numbers
the merged list anew. -/
def Change.unnumbered {V : Type} (change : Change V) : Change V := { change with change_idx := 0 }

/-- The change as it joins a queue at an instant, without the number that the queue gives it. -/
def Change.arriving {V : Type} (change : Change V) (now : Instant) : Change V :=
  { change with change_idx := 0, arrival_ts := some now }

/-- The change that an addressed write adds to the page that it is addressed at, with that page. -/
def Message.addressed {V : Type} (message : Message V) (now : Instant) :
    List (PageId × Change V) :=
  match message.kind.isState, message.target, message.op with
  | false, some target, .setDatachange (some change) _ => [(target, change.arriving now)]
  | _, _, _ => []

/-- The change that an addressed write adds to the store queue of a user, with that user. -/
def Message.filed {V : Type} (message : Message V) (now : Instant) : List (User × Change V) :=
  match message.kind.isState, message.target, message.op with
  | true, some target, .setDatachange (some change) _ =>
    [(target, { change with arrival_ts := some now })]
  | _, _, _ => []

/-- A message that, where it is addressed at a page, is a `set_datachange` without `replace`. -/
def Message.PlainFor {V : Type} (message : Message V) (page_id : PageId) : Prop :=
  message.kind.isState = false → message.target = some page_id →
    ∃ change, message.op = .setDatachange change false

/-- A message that, where it is addressed at the store of a user, is a `set_datachange` without
`replace`. -/
def Message.PlainForStore {V : Type} (message : Message V) (user : User) : Prop :=
  message.kind.isState = true → message.target = some user →
    ∃ change, message.op = .setDatachange change false

/-- A message that, where it is addressed at the store of a user, is a `set_datachange`. -/
def Message.SetsStore {V : Type} (message : Message V) (user : User) : Prop :=
  message.kind.isState = true → message.target = some user →
    ∃ change replace, message.op = .setDatachange change replace

/-- The entries of a history that are about one key. -/
def about {K α : Type} [DecidableEq K] (k : K) (history : List (K × α)) : List α :=
  (history.filter fun entry => decide (entry.1 = k)).map Prod.snd

/-- The history of nothing. -/
@[simp]
theorem about_nil {K α : Type} [DecidableEq K] (k : K) : about k ([] : List (K × α)) = [] := rfl

/-- The entries of two histories, one after the other. -/
@[simp]
theorem about_append {K α : Type} [DecidableEq K] (k : K) (history history' : List (K × α)) :
    about k (history ++ history') = about k history ++ about k history' := by
  simp [about]

/-- One entry. -/
@[simp]
theorem about_singleton {K α : Type} [DecidableEq K] (k j : K) (a : α) :
    about k [(j, a)] = if j = k then [a] else [] := by
  by_cases h : j = k
  · simp [about, h]
  · simp [about, h]

/-- Entries that are made under a condition. -/
@[simp]
theorem about_ite {K α : Type} [DecidableEq K] (k : K) (c : Prop) [Decidable c]
    (history : List (K × α)) :
    about k (if c then history else []) = if c then about k history else [] := by
  split_ifs <;> rfl

/-- Entries about one key. -/
theorem about_map_pair {K α : Type} [DecidableEq K] (k j : K) (entries : List α) :
    about k (entries.map fun a => (j, a)) = if j = k then entries else [] := by
  induction entries with
  | nil => simp
  | cons a entries ih =>
    rw [List.map_cons, ← List.singleton_append, about_append, ih, about_singleton]
    split_ifs <;> rfl

/-- A write addressed elsewhere is no entry about a page. -/
theorem Message.about_addressed_of_ne {V : Type} {message : Message V} {target : String}
    (htarget : message.target = some target) {p : PageId} (hp : p ≠ target) (now : Instant) :
    about p (message.addressed now) = [] := by
  unfold addressed
  split
  · next heq _ =>
    rw [htarget] at heq
    cases heq
    simp [Ne.symm hp]
  · rfl

/-- A write addressed elsewhere is no entry about a user. -/
theorem Message.about_filed_of_ne {V : Type} {message : Message V} {target : String}
    (htarget : message.target = some target) {u : User} (hu : u ≠ target) (now : Instant) :
    about u (message.filed now) = [] := by
  unfold filed
  split
  · next heq _ =>
    rw [htarget] at heq
    cases heq
    simp [Ne.symm hu]
  · rfl

end GenropyAsgi
