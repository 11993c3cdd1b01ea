import GenropyAsgi.Library.PathTree
import GenropyAsgi.DottedPath

/-!
# The values of the global store

What the legacy site writes into the global store: scalars, datetimes, lists, dictionaries and
nested Bags. `legacyValue` and `wireValue` are the two normalisers of `global_store_adapter.py`;
`cross` is what one crossing of the wire does to a value.

A datetime is naive, and shows a clock, or aware, and names an instant: the code only ever asks an
aware one for its local clock, and two aware datetimes of one instant are equal. The local zone is a
constant offset `zone` from UTC.
-/

namespace GenropyAsgi.GlobalStore

open Library

/-- A datetime. -/
inductive DateTime where
  /-- Without a zone: the clock that it shows. -/
  | naive (clock : ℤ)
  /-- With a zone: the instant that it names. -/
  | aware (instant : ℤ)
deriving DecidableEq

/-- A value that the site writes. `A` has the scalars. -/
inductive Value (A : Type) where
  /-- `None`. -/
  | none
  /-- A number, a text, a truth value. -/
  | scalar (a : A)
  /-- A datetime. -/
  | datetime (d : DateTime)
  /-- A list. -/
  | list (items : List (Value A))
  /-- A plain dictionary. -/
  | dict (items : List (A × Value A))
  /-- A legacy Bag: its nodes in order, each with its label. -/
  | bag (nodes : List (String × Value A))

/-- The nodes of a Bag. -/
abbrev Nodes (A : Type) := List (String × Value A)

variable {A : Type}

namespace Value

/-- The nodes of a Bag, `none` for any other value: what `isinstance(value, Bag)` tells. -/
def nodes? : Value A → Option (Nodes A)
  | bag nodes => some nodes
  | none => Option.none
  | scalar _ => Option.none
  | datetime _ => Option.none
  | list _ => Option.none
  | dict _ => Option.none

/-- A Bag is a tree addressed by the labels of a path. -/
instance : Branching String (Value A) where
  node := bag
  nodes := nodes?
  nodes_node _ := rfl
  node_of_nodes v items h := by
    cases v with
    | bag nodes =>
      have hnodes : nodes = items := Option.some.inj h
      rw [hnodes]
    | none => cases h
    | scalar a => cases h
    | datetime d => cases h
    | list items => cases h
    | dict items => cases h

/-- A property of values is proved from the parts of a container. -/
theorem induction {motive : Value A → Prop} (hnone : motive none)
    (hscalar : ∀ a, motive (scalar a)) (hdatetime : ∀ d, motive (datetime d))
    (hlist : ∀ items, (∀ v ∈ items, motive v) → motive (list items))
    (hdict : ∀ items, (∀ item ∈ items, motive item.2) → motive (dict items))
    (hbag : ∀ nodes, (∀ node ∈ nodes, motive node.2) → motive (bag nodes)) (v : Value A) :
    motive v := by
  -- The parts of a container are a list of values, of entries or of nodes.
  refine @Value.rec A motive (fun items => ∀ v ∈ items, motive v)
    (fun items => ∀ item ∈ items, motive item.2) (fun nodes => ∀ node ∈ nodes, motive node.2)
    (fun item => motive item.2) (fun node => motive node.2)
    hnone hscalar hdatetime hlist hdict hbag ?_ ?_ ?_ ?_ ?_ ?_ (fun _ _ h => h) (fun _ _ h => h) v
  · exact fun v hv => absurd hv List.not_mem_nil
  · exact fun _ _ hhead htail => List.forall_mem_cons.2 ⟨hhead, htail⟩
  · exact fun v hv => absurd hv List.not_mem_nil
  · exact fun _ _ hhead htail => List.forall_mem_cons.2 ⟨hhead, htail⟩
  · exact fun v hv => absurd hv List.not_mem_nil
  · exact fun _ _ hhead htail => List.forall_mem_cons.2 ⟨hhead, htail⟩

/-! ## The datetimes of a value -/

mutual

/-- The datetimes in a value, in order. -/
def dates : Value A → List DateTime
  | none => []
  | scalar _ => []
  | datetime d => [d]
  | list items => datesOfItems items
  | dict items => datesOfEntries items
  | bag nodes => datesOfNodes nodes

/-- The datetimes in the values of a list. -/
def datesOfItems : List (Value A) → List DateTime
  | [] => []
  | v :: rest => dates v ++ datesOfItems rest

/-- The datetimes in the values of a dictionary. -/
def datesOfEntries : List (A × Value A) → List DateTime
  | [] => []
  | (_, v) :: rest => dates v ++ datesOfEntries rest

/-- The datetimes in the values of the nodes of a Bag. -/
def datesOfNodes : Nodes A → List DateTime
  | [] => []
  | (_, v) :: rest => dates v ++ datesOfNodes rest

end

mutual

/-- The datetimes in a value that sit below a list or a dictionary. -/
def boxed : Value A → List DateTime
  | none => []
  | scalar _ => []
  | datetime _ => []
  | list items => dates (list items)
  | dict items => dates (dict items)
  | bag nodes => boxedOfNodes nodes

/-- The datetimes below a list or a dictionary in the values of the nodes of a Bag. -/
def boxedOfNodes : Nodes A → List DateTime
  | [] => []
  | (_, v) :: rest => boxed v ++ boxedOfNodes rest

end

/-- A datetime of a list is one of an item. -/
theorem mem_dates_list {items : List (Value A)} {d : DateTime} :
    d ∈ dates (list items) ↔ ∃ v ∈ items, d ∈ dates v := by
  rw [dates]
  induction items with
  | nil => simp [datesOfItems]
  | cons v rest ih => simp [datesOfItems, ih]

/-- A datetime of a dictionary is one of a value of it. -/
theorem mem_dates_dict {items : List (A × Value A)} {d : DateTime} :
    d ∈ dates (dict items) ↔ ∃ item ∈ items, d ∈ dates item.2 := by
  rw [dates]
  induction items with
  | nil => simp [datesOfEntries]
  | cons item rest ih =>
    obtain ⟨k, v⟩ := item
    simp [datesOfEntries, ih]

/-- A datetime of a Bag is one of the value of a node. -/
theorem mem_dates_bag {nodes : Nodes A} {d : DateTime} :
    d ∈ dates (bag nodes) ↔ ∃ node ∈ nodes, d ∈ dates node.2 := by
  rw [dates]
  induction nodes with
  | nil => simp [datesOfNodes]
  | cons node rest ih =>
    obtain ⟨label, v⟩ := node
    simp [datesOfNodes, ih]

/-- A Bag has no datetime below a list or a dictionary when none of its values has one. -/
theorem boxed_bag_eq_nil {nodes : Nodes A} :
    boxed (bag nodes) = [] ↔ ∀ node ∈ nodes, boxed node.2 = [] := by
  rw [boxed]
  induction nodes with
  | nil => simp [boxedOfNodes]
  | cons node rest ih =>
    obtain ⟨label, v⟩ := node
    simp [boxedOfNodes, ih]

/-- Every datetime of the value is naive. -/
def IsNaive (v : Value A) : Prop := ∀ d ∈ v.dates, ∃ clock, d = .naive clock

/-- Every datetime of the value is aware. -/
def IsAware (v : Value A) : Prop := ∀ d ∈ v.dates, ∃ instant, d = .aware instant

/-- A value all of whose datetimes are naive and all of whose datetimes are aware has none. -/
theorem dates_eq_nil {v : Value A} (hnaive : v.IsNaive) (haware : v.IsAware) : v.dates = [] := by
  rw [List.eq_nil_iff_forall_not_mem]
  intro d hd
  obtain ⟨clock, rfl⟩ := hnaive d hd
  obtain ⟨instant, h⟩ := haware _ hd
  cases h

/-- A value without datetimes has none of either kind. -/
theorem isNaive_of_dates {v : Value A} (h : v.dates = []) : v.IsNaive := by
  intro d hd
  rw [h] at hd
  cases hd

/-- A value without datetimes has none of either kind. -/
theorem isAware_of_dates {v : Value A} (h : v.dates = []) : v.IsAware := by
  intro d hd
  rw [h] at hd
  cases hd

/-- The datetimes of a Bag satisfy a property when those of its values do. -/
theorem hereditary_forall (P : DateTime → Prop) :
    PathTree.Hereditary (K := String) fun v : Value A => ∀ d ∈ v.dates, P d := by
  intro nodes
  constructor
  · intro h node hnode d hd
    exact h d (mem_dates_bag.2 ⟨node, hnode, hd⟩)
  · intro h d hd
    obtain ⟨node, hnode, hd⟩ := mem_dates_bag.1 hd
    exact h node hnode d hd

/-- A Bag has aware datetimes only when its values do. -/
theorem hereditary_isAware : PathTree.Hereditary (K := String) (IsAware : Value A → Prop) :=
  hereditary_forall _

/-- A Bag has no datetime when its values have none. -/
theorem hereditary_dates : PathTree.Hereditary (K := String) fun v : Value A => v.dates = [] := by
  intro nodes
  simp only [List.eq_nil_iff_forall_not_mem]
  exact hereditary_forall (fun _ => False) nodes

end Value

open Value

/-! ## The wire -/

mutual

/-- One crossing of the wire. A naive datetime is read as an `offset` clock: as UTC outside a Bag,
and as the local zone inside one, whose typed XML carries the local offset. An aware one is the same
instant on the other side. -/
def cross (zone offset : ℤ) : Value A → Value A
  | .none => .none
  | .scalar a => .scalar a
  | .datetime (.naive clock) => .datetime (.aware (clock - offset))
  | .datetime (.aware instant) => .datetime (.aware instant)
  | .list items => .list (crossItems zone offset items)
  | .dict items => .dict (crossEntries zone offset items)
  | .bag nodes => .bag (crossNodes zone nodes)

/-- `cross`, on the items of a list. -/
def crossItems (zone offset : ℤ) : List (Value A) → List (Value A)
  | [] => []
  | v :: rest => cross zone offset v :: crossItems zone offset rest

/-- `cross`, on the values of a dictionary. -/
def crossEntries (zone offset : ℤ) : List (A × Value A) → List (A × Value A)
  | [] => []
  | (k, v) :: rest => (k, cross zone offset v) :: crossEntries zone offset rest

/-- `cross`, on the values inside a Bag. -/
def crossNodes (zone : ℤ) : Nodes A → Nodes A
  | [] => []
  | (label, v) :: rest => (label, cross zone zone v) :: crossNodes zone rest

end

/-- What the other side of the wire reads of a value. -/
def wired (zone : ℤ) (v : Value A) : Value A := cross zone 0 v

theorem crossItems_eq (zone offset : ℤ) (items : List (Value A)) :
    crossItems zone offset items = items.map (cross zone offset) := by
  induction items with
  | nil => rfl
  | cons v rest ih => rw [crossItems, ih, List.map_cons]

theorem crossEntries_eq (zone offset : ℤ) (items : List (A × Value A)) :
    crossEntries zone offset items = Listing.mapVals (cross zone offset) items := by
  induction items with
  | nil => rfl
  | cons item rest ih =>
    obtain ⟨k, v⟩ := item
    rw [crossEntries, ih]
    rfl

theorem crossNodes_eq (zone : ℤ) (nodes : Nodes A) :
    crossNodes zone nodes = Listing.mapVals (cross zone zone) nodes := by
  induction nodes with
  | nil => rfl
  | cons node rest ih =>
    obtain ⟨label, v⟩ := node
    rw [crossNodes, ih]
    rfl

/-- The wire goes through Bags: below the root it is the wire inside a Bag. -/
theorem through_cross (zone offset : ℤ) :
    PathTree.Through (cross zone zone) (cross zone offset : Value A → Value A) where
  node nodes := by
    show cross zone offset (.bag nodes) = .bag _
    rw [cross, crossNodes_eq]
  itemsOf v := by
    -- Only a Bag has a listing, and only a Bag crosses as one.
    cases v with
    | bag nodes =>
      rw [cross, crossNodes_eq]
      rfl
    | none => rfl
    | scalar a => rfl
    | datetime d =>
      cases d with
      | naive clock => rfl
      | aware instant => rfl
    | list items => rfl
    | dict items => rfl

/-- What comes off the wire has aware datetimes only. -/
theorem isAware_cross (zone offset : ℤ) (v : Value A) : (cross zone offset v).IsAware := by
  induction v using Value.induction generalizing offset with
  | hnone => exact isAware_of_dates rfl
  | hscalar a => exact isAware_of_dates rfl
  | hdatetime d =>
    intro d' hd'
    cases d with
    | naive clock => exact ⟨_, List.mem_singleton.1 hd'⟩
    | aware instant => exact ⟨_, List.mem_singleton.1 hd'⟩
  | hlist items ih =>
    intro d hd
    rw [cross, crossItems_eq, mem_dates_list] at hd
    obtain ⟨v, hv, hd⟩ := hd
    obtain ⟨w, hw, rfl⟩ := List.mem_map.1 hv
    exact ih w hw offset d hd
  | hdict items ih =>
    intro d hd
    rw [cross, crossEntries_eq, mem_dates_dict] at hd
    obtain ⟨item, hitem, hd⟩ := hd
    obtain ⟨item', hitem', rfl⟩ := List.mem_map.1 hitem
    exact ih item' hitem' offset d hd
  | hbag nodes ih =>
    intro d hd
    rw [cross, crossNodes_eq, mem_dates_bag] at hd
    obtain ⟨node, hnode, hd⟩ := hd
    obtain ⟨node', hnode', rfl⟩ := List.mem_map.1 hnode
    exact ih node' hnode' zone d hd

/-- Images that are the values themselves leave a listing as it is. -/
theorem mapVals_of_forall {K : Type} {f : Value A → Value A} {items : List (K × Value A)}
    (h : ∀ item ∈ items, f item.2 = item.2) : Listing.mapVals f items = items := by
  unfold Listing.mapVals
  conv_rhs => rw [← List.map_id items]
  apply List.map_congr_left
  intro item hitem
  rw [h item hitem]
  rfl

/-- A value with aware datetimes only crosses the wire as it is. -/
theorem cross_of_isAware (zone offset : ℤ) {v : Value A} (h : v.IsAware) :
    cross zone offset v = v := by
  induction v using Value.induction generalizing offset with
  | hnone => rfl
  | hscalar a => rfl
  | hdatetime d =>
    obtain ⟨instant, rfl⟩ := h d (List.mem_singleton.2 rfl)
    rfl
  | hlist items ih =>
    have hitems : ∀ v ∈ items, cross zone offset v = v := by
      intro v hv
      exact ih v hv offset fun d hd => h d (mem_dates_list.2 ⟨v, hv, hd⟩)
    rw [cross, crossItems_eq, List.map_congr_left (g := id) hitems, List.map_id]
  | hdict items ih =>
    have hitems : ∀ item ∈ items, cross zone offset item.2 = item.2 := by
      intro item hitem
      exact ih item hitem offset fun d hd => h d (mem_dates_dict.2 ⟨item, hitem, hd⟩)
    rw [cross, crossEntries_eq, mapVals_of_forall hitems]
  | hbag nodes ih =>
    have hnodes : ∀ node ∈ nodes, cross zone zone node.2 = node.2 := by
      intro node hnode
      exact ih node hnode zone fun d hd => h d (mem_dates_bag.2 ⟨node, hnode, hd⟩)
    rw [cross, crossNodes_eq, mapVals_of_forall hnodes]

/-! ## The two normalisers -/

mutual

/-- `legacy_value`. Lists and dictionaries are deep copies: their datetimes stay as they are. -/
def legacyValue (zone : ℤ) : Value A → Value A
  | .bag nodes => .bag (legacyNodes zone nodes)
  | .datetime (.aware instant) => .datetime (.naive (instant + zone))
  | .datetime (.naive clock) => .datetime (.naive clock)
  | .list items => .list items
  | .dict items => .dict items
  | .none => .none
  | .scalar a => .scalar a

/-- The loop of `legacy_value` over the nodes of a Bag. -/
def legacyNodes (zone : ℤ) : Nodes A → Nodes A
  | [] => []
  | (label, v) :: rest => (label, legacyValue zone v) :: legacyNodes zone rest

end

/-- `wire_value`. -/
def wireValue (zone : ℤ) : Value A → Value A
  | .datetime (.naive clock) => .datetime (.aware (clock - zone))
  | v => v

theorem legacyNodes_eq (zone : ℤ) (nodes : Nodes A) :
    legacyNodes zone nodes = Listing.mapVals (legacyValue zone) nodes := by
  induction nodes with
  | nil => rfl
  | cons node rest ih =>
    obtain ⟨label, v⟩ := node
    rw [legacyNodes, ih]
    rfl

/-- A value with naive datetimes only is what the legacy side sees of it. -/
theorem legacyValue_of_isNaive (zone : ℤ) {v : Value A} (h : v.IsNaive) :
    legacyValue zone v = v := by
  induction v using Value.induction with
  | hnone => rfl
  | hscalar a => rfl
  | hdatetime d =>
    obtain ⟨clock, rfl⟩ := h d (List.mem_singleton.2 rfl)
    rfl
  | hlist items ih => rfl
  | hdict items ih => rfl
  | hbag nodes ih =>
    have hnodes : ∀ node ∈ nodes, legacyValue zone node.2 = node.2 := by
      intro node hnode
      exact ih node hnode fun d hd => h d (mem_dates_bag.2 ⟨node, hnode, hd⟩)
    rw [legacyValue, legacyNodes_eq, mapVals_of_forall hnodes]

/-- A value with aware datetimes only is left alone on its way in. -/
theorem wireValue_of_isAware (zone : ℤ) {v : Value A} (h : v.IsAware) : wireValue zone v = v := by
  cases v with
  | datetime d =>
    obtain ⟨instant, rfl⟩ := h d (List.mem_singleton.2 rfl)
    rfl
  | none => rfl
  | scalar a => rfl
  | list items => rfl
  | dict items => rfl
  | bag nodes => rfl

/-- Crossing the wire inside a Bag and the walk on the way out cancel, on naive datetimes none of
which sits below a list or a dictionary. -/
theorem legacyValue_cross (zone : ℤ) {v : Value A} (h : v.IsNaive) (hboxed : v.boxed = []) :
    legacyValue zone (cross zone zone v) = v := by
  induction v using Value.induction with
  | hnone => rfl
  | hscalar a => rfl
  | hdatetime d =>
    obtain ⟨clock, rfl⟩ := h d (List.mem_singleton.2 rfl)
    rw [cross, legacyValue, sub_add_cancel]
  | hlist items ih =>
    rw [cross_of_isAware zone zone (isAware_of_dates hboxed)]
    rfl
  | hdict items ih =>
    rw [cross_of_isAware zone zone (isAware_of_dates hboxed)]
    rfl
  | hbag nodes ih =>
    rw [boxed_bag_eq_nil] at hboxed
    rw [cross, crossNodes_eq, legacyValue, legacyNodes_eq]
    have hcomp : Listing.mapVals (legacyValue zone) (Listing.mapVals (cross zone zone) nodes) =
        Listing.mapVals (fun v => legacyValue zone (cross zone zone v)) nodes := by
      unfold Listing.mapVals
      rw [List.map_map]
      rfl
    have hnodes : ∀ node ∈ nodes, legacyValue zone (cross zone zone node.2) = node.2 := by
      intro node hnode
      exact ih node hnode (fun d hd => h d (mem_dates_bag.2 ⟨node, hnode, hd⟩)) (hboxed node hnode)
    rw [hcomp, mapVals_of_forall hnodes]

/-- The same on the way of a whole key, whose naive datetime is given its zone first. -/
theorem legacyValue_wired (zone : ℤ) {v : Value A} (h : v.IsNaive) (hboxed : v.boxed = []) :
    legacyValue zone (wired zone (wireValue zone v)) = v := by
  cases v with
  | none => rfl
  | scalar a => rfl
  | datetime d =>
    obtain ⟨clock, rfl⟩ := h d (List.mem_singleton.2 rfl)
    unfold wired
    rw [wireValue, cross, legacyValue, sub_add_cancel]
  | list items =>
    unfold wired
    rw [wireValue, cross_of_isAware zone 0 (isAware_of_dates hboxed)]
    · rfl
    · exact fun clock hclock => by cases hclock
  | dict items =>
    unfold wired
    rw [wireValue, cross_of_isAware zone 0 (isAware_of_dates hboxed)]
    · rfl
    · exact fun clock hclock => by cases hclock
  | bag nodes =>
    have hbag := legacyValue_cross zone h hboxed
    rw [cross] at hbag
    exact hbag

/-- A value that came off the wire and is seen with naive datetimes only has none of them below a
list or a dictionary: the walk on the way out does not go there. -/
theorem boxed_of_legacyValue (zone : ℤ) {w : Value A} (hw : w.IsAware)
    (hv : (legacyValue zone w).IsNaive) : (legacyValue zone w).boxed = [] := by
  induction w using Value.induction with
  | hnone => rfl
  | hscalar a => rfl
  | hdatetime d =>
    cases d with
    | naive clock => rfl
    | aware instant => rfl
  | hlist items ih => exact dates_eq_nil hv hw
  | hdict items ih => exact dates_eq_nil hv hw
  | hbag nodes ih =>
    rw [legacyValue, legacyNodes_eq] at hv ⊢
    rw [boxed_bag_eq_nil]
    intro node hnode
    obtain ⟨node', hnode', rfl⟩ := List.mem_map.1 hnode
    exact ih node' hnode' (fun d hd => hw d (mem_dates_bag.2 ⟨node', hnode', hd⟩))
      fun d hd => hv d (mem_dates_bag.2 ⟨_, hnode, hd⟩)

end GenropyAsgi.GlobalStore
