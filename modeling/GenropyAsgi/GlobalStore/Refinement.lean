import GenropyAsgi.Library.Run
import GenropyAsgi.GlobalStore.Adapter

/-!
# The dictionary of Bags is one Bag

A dictionary with a Bag under each key is read and written, through `split_global_path`, as the one
Bag would be whose nodes are the items of the dictionary. `Site.bag` is that Bag, for whichever
place a thread's operations go to: the local Bag, the master, or the private dictionary of a turn.
On values without datetimes each operation answers what the Bag answers, and leaves the dictionary
as the operation leaves the Bag (`Plain.call_refines`); the run of a sequence follows by induction,
and the exit of a turn changes nothing (`Plain.closeTurn_refines`).
-/

namespace GenropyAsgi.GlobalStore

open Library

variable {A : Type}

/-! ## One path in two parts -/

/-- A write that goes on makes a Bag of what it finds. -/
theorem write_asBag (v w : Value A) {p : List String} (hp : p ≠ []) :
    PathTree.write (asBag v) p w = PathTree.write v p w := by
  cases p with
  | nil => exact absurd rfl hp
  | cons k rest =>
    rw [PathTree.write_cons, PathTree.write_cons]
    unfold asBag
    cases v with
    | bag nodes => rfl
    | none => rfl
    | scalar a => rfl
    | datetime d => rfl
    | list items => rfl
    | dict items => rfl

/-- A path that goes on leads nowhere in a value that is no Bag. -/
theorem lookup_of_nodes_none {v : Value A} (h : v.nodes? = none) {p : List String} (hp : p ≠ []) :
    PathTree.lookup v p = none := by
  cases p with
  | nil => exact absurd rfl hp
  | cons k rest =>
    have hitems : PathTree.itemsOf v = [] :=
      PathTree.itemsOf_of_isNone (by rw [show Branching.nodes v = v.nodes? from rfl, h]; simp)
    rw [PathTree.lookup_cons, hitems]
    rfl

section

variable {path key rest : String} (h : Parts path key rest) (nodes : Nodes A)

include h

/-- A write into the Bag of a dictionary. -/
theorem setItem_bag (v : Value A) :
    setItem (.bag nodes) path v = .bag (Listing.set nodes key
      (if rest = "" then v
      else setItem (((Listing.get nodes key).map asBag).getD (.bag [])) rest v)) := by
  unfold setItem
  rcases h.cut with ⟨hrest, hlabels⟩ | ⟨-, hrest, hlabels⟩
  · rw [if_pos hrest, hlabels]
    rfl
  · rw [if_neg hrest, hlabels, PathTree.write_cons]
    have hitems : PathTree.itemsOf (Value.bag nodes) = nodes := rfl
    rw [hitems]
    cases Listing.get nodes key with
    | none => rfl
    | some child =>
      rw [Option.map_some, Option.getD_some, Option.getD_some,
        write_asBag child v (labels_ne_nil rest)]
      rfl

/-- A delete in the Bag of a dictionary. -/
theorem delItem_bag :
    delItem (.bag nodes) path = .bag
      (if rest = "" then Listing.pop nodes key
      else
        match (Listing.get nodes key).bind Value.nodes? with
        | some inner => Listing.set nodes key (delItem (.bag inner) rest)
        | none => nodes) := by
  unfold delItem
  rcases h.cut with ⟨hrest, hlabels⟩ | ⟨-, hrest, hlabels⟩
  · rw [if_pos hrest, hlabels]
    rfl
  · rw [if_neg hrest, hlabels, PathTree.remove_cons _ _ (labels_ne_nil rest)]
    have hitems : PathTree.itemsOf (Value.bag nodes) = nodes := rfl
    rw [hitems]
    cases hget : Listing.get nodes key with
    | none => rfl
    | some child =>
      dsimp only
      rw [Option.bind_some]
      cases hnodes : child.nodes? with
      | some inner =>
        have hchild : child = .bag inner := (Branching.node_of_nodes child inner hnodes).symm
        rw [hchild]
        rfl
      | none =>
        have hnone : PathTree.remove child (labels rest) = child :=
          PathTree.remove_of_lookup_none (lookup_of_nodes_none hnodes (labels_ne_nil rest))
        rw [hnone, Listing.set_of_get hget]
        rfl

/-- A read of the Bag of a dictionary. -/
theorem getItem_bag (default : Value A) :
    getItem (.bag nodes) path default =
      match Listing.get nodes key with
      | none => default
      | some value =>
        if rest = "" then value
        else
          match value.nodes? with
          | none => default
          | some _ => getItem value rest default := by
  unfold getItem
  rcases h.cut with ⟨hrest, hlabels⟩ | ⟨-, hrest, hlabels⟩
  · rw [hlabels, PathTree.lookup_cons]
    have hitems : PathTree.itemsOf (Value.bag nodes) = nodes := rfl
    rw [hitems]
    cases Listing.get nodes key with
    | none => rfl
    | some value =>
      dsimp only
      rw [if_pos hrest]
      rfl
  · rw [hlabels, PathTree.lookup_cons]
    have hitems : PathTree.itemsOf (Value.bag nodes) = nodes := rfl
    rw [hitems]
    cases Listing.get nodes key with
    | none => rfl
    | some value =>
      dsimp only
      rw [if_neg hrest, Option.bind_some]
      cases hnodes : value.nodes? with
      | some inner => rfl
      | none =>
        rw [lookup_of_nodes_none hnodes (labels_ne_nil rest)]
        rfl

end

/-! ## The private copies -/

/-- The dictionary answers what it holds: an aware datetime is the same instant on both sides. -/
@[simp]
theorem Master.get_eq (zone : ℤ) (master : Master A) (key : String) :
    master.get zone key = master.content.get key := by
  unfold Master.get
  cases hget : master.content.get key with
  | none => rfl
  | some value =>
    rw [Option.map_some]
    unfold wired
    rw [cross_of_isAware zone 0 (master.aware key value hget)]

/-- The private copy of the whole dictionary is what it holds. -/
@[simp]
theorem Master.forUpdate_eq (zone : ℤ) (master : Master A) :
    master.forUpdate zone = master.content := by
  apply OrderedDict.ext
  refine mapVals_of_forall fun item hitem => ?_
  unfold wired
  exact cross_of_isAware zone 0 (master.aware item.1 item.2 (OrderedDict.get_of_mem hitem))

/-- A write into a private dictionary is a write into its Bag. -/
theorem items_writeInto (zone : ℤ) {path key rest : String} (h : Parts path key rest)
    (content : Content A) (value : Value A) :
    Value.bag (writeInto zone content key rest value).items = setItem (.bag content.items) path
      (if rest = "" then wireValue zone (legacyValue zone value) else legacyValue zone value) := by
  rw [setItem_bag h]
  unfold writeInto
  split_ifs
  · rfl
  · rfl

/-- A delete from a private dictionary is a delete from its Bag. -/
theorem items_deleteFrom {path key rest : String} (h : Parts path key rest) (content : Content A) :
    Value.bag (deleteFrom content key rest).items = delItem (.bag content.items) path := by
  rw [delItem_bag h]
  unfold deleteFrom
  split_ifs
  · rfl
  · unfold OrderedDict.get
    cases (Listing.get content.items key).bind Value.nodes? with
    | none => rfl
    | some nodes => rfl

/-- What a normal exit leaves of a keyed write: the Bag of the dictionary written, as it is after
crossing the wire. -/
theorem items_keyedWrite (zone : ℤ) (master : Master A) (key rest : String) (value : Value A) :
    (((KeyedTurn.enter zone master key).write rest value).exit zone master).content =
      master.content.set key
        (wired zone (setItem (((master.content.get key).map asBag).getD (.bag [])) rest value)) := by
  unfold KeyedTurn.enter
  rw [Master.get_eq]
  cases master.content.get key with
  | none => rfl
  | some v => rfl

/-- A keyed turn is on its key. -/
theorem KeyedTurn.key_enter (zone : ℤ) (master : Master A) (key : String) :
    (enter zone master key).key = key := by
  unfold enter
  cases master.get zone key with
  | none => rfl
  | some value => rfl

/-- The body of a delete keeps the key of its turn. -/
theorem KeyedTurn.key_of_delete {keyed keyed' : KeyedTurn A} {rest : String}
    (h : keyed.delete rest = some keyed') : keyed'.key = keyed.key := by
  unfold delete at h
  split_ifs at h
  cases h
  rfl

/-- A delete outside a turn is a delete from the Bag of the dictionary. -/
theorem items_keyedDelete (zone : ℤ) {path key rest : String} (h : Parts path key rest)
    (hrest : rest ≠ "") (master : Master A) :
    Value.bag ((((KeyedTurn.enter zone master key).delete rest).map
      (KeyedTurn.exit zone master)).getD master).content.items =
        delItem (.bag master.content.items) path := by
  rw [delItem_bag h, if_neg hrest]
  unfold KeyedTurn.enter
  rw [Master.get_eq]
  cases hget : master.content.get key with
  | none =>
    have hget' : Listing.get master.content.items key = none := hget
    rw [hget']
    rfl
  | some v =>
    have hget' : Listing.get master.content.items key = some v := hget
    rw [hget', Option.bind_some]
    unfold KeyedTurn.delete
    cases hnodes : v.nodes? with
    | none =>
      dsimp only
      rw [if_neg (by simp)]
      rfl
    | some inner =>
      dsimp only
      rw [if_pos ⟨rfl, rfl⟩]
      have hv : v = .bag inner := (Branching.node_of_nodes v inner hnodes).symm
      -- What is left of a value that came off the wire crosses it as it is.
      have haware : (delItem v rest).IsAware :=
        Value.hereditary_isAware.remove (master.aware key v hget) (labels rest)
      have hwired : wired zone (delItem v rest) = delItem v rest := cross_of_isAware zone 0 haware
      rw [← hv]
      show Value.bag (Listing.set master.content.items key (wired zone (delItem v rest))) = _
      rw [hwired]

/-- What the dictionary holds of a value written at a path: a whole key is given its zone and
crosses the wire, a value inside a Bag crosses it there. -/
def stored (zone : ℤ) (rest : String) (value : Value A) : Value A :=
  if rest = "" then wired zone (wireValue zone value) else cross zone zone value

/-- It came off the wire. -/
theorem isAware_stored (zone : ℤ) (rest : String) (value : Value A) :
    (stored zone rest value).IsAware := by
  unfold stored
  split_ifs
  · exact isAware_cross zone 0 _
  · exact isAware_cross zone zone value

/-- A value that came off the wire is held as it is. -/
theorem stored_of_isAware (zone : ℤ) (rest : String) {value : Value A} (h : value.IsAware) :
    stored zone rest value = value := by
  unfold stored wired
  rw [wireValue_of_isAware zone h, cross_of_isAware zone 0 h, cross_of_isAware zone zone h,
    ite_self]

/-- A Bag taken from a value that came off the wire came off it too. -/
theorem isAware_asBag {value : Value A} (h : value.IsAware) : (asBag value).IsAware := by
  unfold asBag
  cases hnodes : value.nodes? with
  | none => exact Value.isAware_of_dates rfl
  | some nodes =>
    have hbag : Value.bag nodes = value := Branching.node_of_nodes value nodes hnodes
    dsimp only
    rw [hbag]
    exact h

/-- A write outside a turn, on the whole key or in a keyed turn, writes the Bag of the dictionary at
the path. -/
theorem items_write (zone : ℤ) {path key rest : String} (hparts : Parts path key rest)
    (master : Master A) (value : Value A) :
    Value.bag (if rest = "" then master.set zone key (wireValue zone value)
      else ((KeyedTurn.enter zone master key).write rest value).exit zone master).content.items =
        setItem (.bag master.content.items) path (stored zone rest value) := by
  rw [setItem_bag hparts]
  unfold stored
  by_cases hrest : rest = ""
  · rw [if_pos hrest, if_pos hrest, if_pos hrest]
    rfl
  · rw [if_neg hrest, if_neg hrest, if_neg hrest, items_keyedWrite]
    -- The Bag written into came off the wire: of the publication only the new value is crossing it.
    have haware : (((master.content.get key).map asBag).getD (.bag [])).IsAware := by
      cases hget : master.content.get key with
      | none => exact Value.isAware_of_dates rfl
      | some v => exact isAware_asBag (master.aware key v hget)
    have hwired : wired zone
        (setItem (((master.content.get key).map asBag).getD (.bag [])) rest value) =
          setItem (((master.content.get key).map asBag).getD (.bag [])) rest
            (cross zone zone value) := by
      unfold wired setItem
      rw [(through_cross zone zone).write (through_cross zone 0) _ value (labels_ne_nil rest),
        cross_of_isAware zone 0 haware]
    rw [hwired]
    rfl

/-! ## What an operation does to its site -/

section

variable (zone : ℤ) {path key rest : String} (hparts : Parts path key rest) {site : Site A}

include hparts

/-- A write inside a turn goes into the private dictionary. -/
theorem setGlobalItem_of_turn {content : Content A} (hturn : site.turn = some content)
    (value : Value A) :
    site.setGlobalItem zone path value =
      .ok { site with turn := some (writeInto zone content key rest value) } := by
  unfold Site.setGlobalItem
  rw [hparts.split, hturn]

/-- A write outside a turn is a plain call or a keyed turn. -/
theorem setGlobalItem_of_master (hturn : site.turn = none) {master : Master A}
    (hmaster : site.master = some master) (value : Value A) :
    site.setGlobalItem zone path value =
      .ok { site with master := some (if rest = "" then master.set zone key (wireValue zone value)
        else ((KeyedTurn.enter zone master key).write rest value).exit zone master) } := by
  unfold Site.setGlobalItem
  rw [hparts.split, hturn, hmaster]
  dsimp only
  split_ifs
  · rfl
  · rfl

/-- A delete inside a turn goes into the private dictionary. -/
theorem deleteGlobalItem_of_turn {content : Content A} (hturn : site.turn = some content) :
    site.deleteGlobalItem zone path =
      .ok { site with turn := some (deleteFrom content key rest) } := by
  unfold Site.deleteGlobalItem
  rw [hparts.split, hturn]

/-- A delete outside a turn is a plain call, or a keyed turn that aborts where there is nothing to
delete. -/
theorem deleteGlobalItem_of_master (hturn : site.turn = none) {master : Master A}
    (hmaster : site.master = some master) :
    site.deleteGlobalItem zone path =
      .ok { site with master := some (if rest = "" then master.delete key
        else (((KeyedTurn.enter zone master key).delete rest).map
          (KeyedTurn.exit zone master)).getD master) } := by
  unfold Site.deleteGlobalItem
  rw [hparts.split, hturn, hmaster]
  dsimp only
  split_ifs
  · rfl
  · cases (KeyedTurn.enter zone master key).delete rest with
    | none =>
      rw [Option.map_none, Option.getD_none, ← hmaster, ← hturn]
    | some keyed => rfl

end

/-- A delete outside a turn deletes from the Bag of the dictionary at the path. -/
theorem items_delete (zone : ℤ) {path key rest : String} (hparts : Parts path key rest)
    (master : Master A) :
    Value.bag (if rest = "" then master.delete key
      else (((KeyedTurn.enter zone master key).delete rest).map
        (KeyedTurn.exit zone master)).getD master).content.items =
      delItem (.bag master.content.items) path := by
  by_cases hrest : rest = ""
  · rw [delItem_bag hparts, if_pos hrest, if_pos hrest]
    rfl
  · rw [if_neg hrest]
    exact items_keyedDelete zone hparts hrest master

/-! ## Dictionaries without datetimes -/

/-- The keys of a dictionary are labels: what `split_global_path` makes keys of. -/
def OneLabel (content : Content A) : Prop := ∀ item ∈ content.items, labels item.1 = [item.1]

/-- Writes at a path keep the keys labels. -/
theorem OneLabel.set {content : Content A} (h : OneLabel content) {key : String}
    (hkey : labels key = [key]) (value : Value A) : OneLabel (content.set key value) := by
  intro item hitem
  rcases Listing.mem_set hitem with hold | rfl
  · exact h item hold
  · exact hkey

/-- Deletes keep the keys labels. -/
theorem OneLabel.pop {content : Content A} (h : OneLabel content) (key : String) :
    OneLabel (content.pop key) :=
  fun item hitem => h item ((Listing.pop_sublist _ key).subset hitem)

/-- Setting new labels one after another appends their nodes. -/
theorem foldl_setItem (zone : ℤ) (items : Nodes A) :
    ∀ built : Nodes A, ((built ++ items).map Prod.fst).Nodup →
      (∀ item ∈ items, labels item.1 = [item.1] ∧ item.2.dates = []) →
      items.foldl (fun bag item => setItem bag item.1 (legacyValue zone item.2)) (.bag built) =
        .bag (built ++ items) := by
  induction items with
  | nil =>
    intro built _ _
    rw [List.append_nil]
    rfl
  | cons item items ih =>
    intro built hnodup hitems
    obtain ⟨hlabel, hdates⟩ := hitems item List.mem_cons_self
    have hnew : item.1 ∉ built.map Prod.fst := by
      intro hmem
      rw [List.map_append, List.map_cons] at hnodup
      exact (List.disjoint_of_nodup_append hnodup) hmem List.mem_cons_self
    have hset : setItem (.bag built) item.1 (legacyValue zone item.2) = .bag (built ++ [item]) := by
      unfold setItem
      rw [hlabel, legacyValue_of_isNaive zone (Value.isNaive_of_dates hdates),
        PathTree.write_cons, PathTree.write_nil]
      have hbuilt : PathTree.itemsOf (Value.bag built) = built := rfl
      rw [hbuilt, Listing.set_of_not_mem hnew]
      rfl
    have happend : built ++ item :: items = (built ++ [item]) ++ items := by
      rw [List.append_assoc, List.singleton_append]
    rw [happend] at hnodup
    rw [List.foldl_cons, hset, happend]
    exact ih (built ++ [item]) hnodup fun item' h => hitems item' (List.mem_cons_of_mem _ h)

/-- A dictionary without datetimes is, as one legacy Bag, the Bag of its items. -/
theorem asLegacyBag_eq (zone : ℤ) {content : Content A} (hkeys : OneLabel content)
    (hdates : (Value.bag content.items).dates = []) :
    asLegacyBag zone content = .bag content.items := by
  have hall : ∀ item ∈ content.items, labels item.1 = [item.1] ∧ item.2.dates = [] :=
    fun item hitem => ⟨hkeys item hitem, (Value.hereditary_dates content.items).1 hdates item hitem⟩
  exact foldl_setItem zone content.items [] content.nodup hall

/-- A value without datetimes crosses the wire as it is. -/
theorem wired_of_dates (zone : ℤ) {value : Value A} (h : value.dates = []) :
    wired zone value = value := cross_of_isAware zone 0 (Value.isAware_of_dates h)

/-! ## The single Bag -/

/-- What one legacy Bag answers, addressed by the full paths, and what it becomes. An empty path
reads the Bag as a whole. -/
def bagCall (bag : Value A) : Call A → Value A × Answer A
  | .get none _ => (bag, .value bag)
  | .get (some path) default => (bag, .value (if path = "" then bag else getItem bag path default))
  | .set path value => (setItem bag path value, .done)
  | .delete path => (delItem bag path, .done)
  | .storeBag => (bag, .value bag)

/-- The operations addressed by paths of non-empty labels, on values without datetimes. -/
def Call.Plain : Call A → Prop
  | .get none default => default.dates = []
  | .get (some path) default => (path = "" ∨ Dotted path) ∧ default.dates = []
  | .set path value => Dotted path ∧ value.dates = []
  | .delete path => Dotted path
  | .storeBag => True

/-- The Bag that the operations of a thread go to: that of its turn, that of the master, or the
local one. -/
def Site.bag (site : Site A) : Value A :=
  match site.turn with
  | some content => .bag content.items
  | none =>
    match site.master with
    | some master => .bag master.content.items
    | none => site.local_bag

/-- A site whose values have no datetimes and whose keys are labels. -/
structure Site.Plain (site : Site A) : Prop where
  /-- The values in force have no datetimes. -/
  dates : site.bag.dates = []
  /-- The local Bag is one. -/
  local_bag : ∃ nodes, site.local_bag = .bag nodes
  /-- The keys of a turn are labels. -/
  turn : ∀ content, site.turn = some content → OneLabel content
  /-- The keys of the master are labels. -/
  master : ∀ master, site.master = some master → OneLabel master.content

namespace Site

variable {zone : ℤ} {site : Site A}

/-- `store_bag` answers the Bag. -/
theorem Plain.storeBag_eq (h : site.Plain) : site.storeBag zone = site.bag := by
  have hdates := h.dates
  unfold Site.storeBag
  unfold Site.bag at hdates ⊢
  cases hturn : site.turn with
  | some content =>
    rw [hturn] at hdates
    exact asLegacyBag_eq zone (h.turn content hturn) hdates
  | none =>
    rw [hturn] at hdates
    cases hmaster : site.master with
    | some master =>
      rw [hmaster] at hdates
      dsimp only
      rw [Master.forUpdate_eq]
      exact asLegacyBag_eq zone (h.master master hmaster) hdates
    | none =>
      rw [hmaster] at hdates
      exact legacyValue_of_isNaive zone (Value.isNaive_of_dates hdates)

/-- What a read of a value without datetimes answers crosses as it is. -/
theorem legacyValue_getItem (zone : ℤ) {value default : Value A} (hvalue : value.dates = [])
    (hdefault : default.dates = []) (path : String) :
    legacyValue zone (getItem value path default) = getItem value path default := by
  apply legacyValue_of_isNaive
  apply Value.isNaive_of_dates
  unfold getItem
  cases hlookup : PathTree.lookup value (labels path) with
  | none => exact hdefault
  | some w => exact Value.hereditary_dates.lookup hvalue hlookup

/-- What a read finds under a key, answered as the Bag answers it. -/
theorem legacyRead_eq (zone : ℤ) {value default : Value A} (hvalue : value.dates = [])
    (hdefault : default.dates = []) (rest : String) :
    legacyRead zone value rest default =
      if rest = "" then value
      else
        match value.nodes? with
        | none => default
        | some _ => getItem value rest default := by
  unfold legacyRead
  by_cases hrest : rest = ""
  · rw [if_neg (not_not.2 hrest), if_pos hrest]
    exact legacyValue_of_isNaive zone (Value.isNaive_of_dates hvalue)
  · rw [if_pos hrest, if_neg hrest]
    cases hnodes : value.nodes? with
    | none => rfl
    | some nodes =>
      exact legacyValue_getItem zone hvalue hdefault rest

/-- A read at a path answers what the Bag has there. -/
theorem Plain.getGlobalItem_eq (h : site.Plain) {path : String} (hpath : Dotted path)
    {default : Value A} (hdefault : default.dates = []) :
    site.getGlobalItem zone (some path) default = getItem site.bag path default := by
  obtain ⟨key, rest, hparts⟩ := hpath.parts
  have hdates := h.dates
  -- The two dictionaries are read alike.
  have hread : ∀ content : Content A, (Value.bag content.items).dates = [] →
      (match content.get key with
        | none => default
        | some value => legacyRead zone value rest default) =
          getItem (.bag content.items) path default := by
    intro content hcontent
    rw [getItem_bag hparts]
    have hget : content.get key = Listing.get content.items key := rfl
    rw [hget]
    cases hvalue : Listing.get content.items key with
    | none => rfl
    | some value =>
      dsimp only
      have hmem := Listing.mem_of_get hvalue
      exact legacyRead_eq zone ((Value.hereditary_dates content.items).1 hcontent _ hmem) hdefault
        rest
  unfold Site.getGlobalItem
  rw [hparts.split]
  unfold Site.bag at hdates ⊢
  dsimp only
  cases hturn : site.turn with
  | some content =>
    rw [hturn] at hdates
    exact hread content hdates
  | none =>
    rw [hturn] at hdates
    cases hmaster : site.master with
    | some master =>
      rw [hmaster] at hdates
      dsimp only
      rw [Master.get_eq]
      exact hread master.content hdates
    | none =>
      rw [hmaster] at hdates
      exact legacyValue_getItem zone hdates hdefault path

/-- A site whose turn is in force is plain when the private dictionary is. -/
theorem Plain.of_turn {master : Option (Master A)} {turn : Option (Content A)} {bag : Value A}
    (h : Plain ⟨master, turn, bag⟩) {content : Content A}
    (hdates : (Value.bag content.items).dates = []) (hkeys : OneLabel content) :
    Plain ⟨master, some content, bag⟩ where
  dates := hdates
  local_bag := h.local_bag
  turn := by
    intro content' hcontent'
    rw [← Option.some.inj hcontent']
    exact hkeys
  master := h.master

/-- A site whose master is in force is plain when the master is. -/
theorem Plain.of_master {master : Option (Master A)} {turn : Option (Content A)} {bag : Value A}
    (h : Plain ⟨master, turn, bag⟩) {master' : Master A}
    (hdates : (Value.bag master'.content.items).dates = []) (hkeys : OneLabel master'.content) :
    Plain ⟨some master', none, bag⟩ where
  dates := hdates
  local_bag := h.local_bag
  turn := by
    intro content hcontent
    cases hcontent
  master := by
    intro master'' hmaster''
    rw [← Option.some.inj hmaster'']
    exact hkeys

/-- A site before the attach is plain when its local Bag is. -/
theorem Plain.of_local {nodes : Nodes A} (hdates : (Value.bag nodes).dates = []) :
    Plain ⟨none, none, .bag nodes⟩ where
  dates := hdates
  local_bag := ⟨nodes, rfl⟩
  turn := by
    intro content hcontent
    cases hcontent
  master := by
    intro master hmaster
    cases hmaster

end Site

namespace Site

variable (zone : ℤ)

/-- A write at a path writes the Bag there. -/
theorem Plain.setGlobalItem_eq {site : Site A} (h : site.Plain) {path : String}
    (hpath : Dotted path) {value : Value A} (hvalue : value.dates = []) :
    ∃ site', site.setGlobalItem zone path value = .ok site' ∧
      site'.bag = setItem site.bag path value ∧ site'.Plain := by
  obtain ⟨key, rest, hparts⟩ := hpath.parts
  have hdates := h.dates
  have hlegacy : legacyValue zone value = value :=
    legacyValue_of_isNaive zone (Value.isNaive_of_dates hvalue)
  have hsetdates : ∀ bag : Value A, bag.dates = [] → (setItem bag path value).dates = [] :=
    fun bag hbag => Value.hereditary_dates.write hbag hvalue (labels path)
  obtain ⟨master, turn, bag⟩ := site
  cases turn with
  | some content =>
    -- Inside a turn: the private dictionary.
    have hwire : wireValue zone value = value :=
      wireValue_of_isAware zone (Value.isAware_of_dates hvalue)
    have hitems : Value.bag (writeInto zone content key rest value).items =
        setItem (.bag content.items) path value := by
      rw [items_writeInto zone hparts, hlegacy, hwire, ite_self]
    have hkeys : OneLabel (writeInto zone content key rest value) := by
      unfold writeInto
      split_ifs
      · exact (h.turn content rfl).set hparts.one_label _
      · exact (h.turn content rfl).set hparts.one_label _
    exact ⟨_, setGlobalItem_of_turn zone hparts rfl value, hitems,
      h.of_turn (by rw [hitems]; exact hsetdates _ hdates) hkeys⟩
  | none =>
    cases master with
    | some master =>
      -- Outside: a plain call on the whole key, or a keyed turn on the path inside its value.
      have hitems := items_write zone hparts master value
      rw [stored_of_isAware zone rest (Value.isAware_of_dates hvalue)] at hitems
      refine ⟨_, setGlobalItem_of_master zone hparts rfl rfl value, hitems,
        h.of_master (by rw [hitems]; exact hsetdates _ hdates) ?_⟩
      split_ifs
      · exact (h.master master rfl).set hparts.one_label _
      · rw [items_keyedWrite]
        exact (h.master master rfl).set hparts.one_label _
    | none =>
      -- Before the worker attaches: the local Bag.
      obtain ⟨nodes, hnodes⟩ := h.local_bag
      dsimp only at hnodes
      subst hnodes
      have hset := setItem_bag hparts nodes value
      have hnew := hsetdates _ hdates
      unfold Site.setGlobalItem
      rw [hparts.split]
      dsimp only [Site.bag] at hnew ⊢
      rw [hset] at hnew
      rw [hlegacy, hset]
      exact ⟨_, rfl, rfl, Plain.of_local hnew⟩

/-- A delete at a path takes the node out of the Bag, or does nothing. -/
theorem Plain.deleteGlobalItem_eq {site : Site A} (h : site.Plain) {path : String}
    (hpath : Dotted path) :
    ∃ site', site.deleteGlobalItem zone path = .ok site' ∧
      site'.bag = delItem site.bag path ∧ site'.Plain := by
  obtain ⟨key, rest, hparts⟩ := hpath.parts
  have hdates := h.dates
  have hdeldates : ∀ bag : Value A, bag.dates = [] → (delItem bag path).dates = [] :=
    fun bag hbag => Value.hereditary_dates.remove hbag (labels path)
  obtain ⟨master, turn, bag⟩ := site
  cases turn with
  | some content =>
    -- Inside a turn: the private dictionary.
    have hitems := items_deleteFrom hparts content
    have hkeys : OneLabel (deleteFrom content key rest) := by
      unfold deleteFrom
      split_ifs
      · exact (h.turn content rfl).pop key
      · cases (content.get key).bind Value.nodes? with
        | none => exact h.turn content rfl
        | some nodes => exact (h.turn content rfl).set hparts.one_label _
    exact ⟨_, deleteGlobalItem_of_turn zone hparts rfl, hitems,
      h.of_turn (by rw [hitems]; exact hdeldates _ hdates) hkeys⟩
  | none =>
    cases master with
    | some master =>
      -- Outside: a plain call on the whole key, or a keyed turn, which a delete of nothing aborts.
      have hitems := items_delete zone hparts master
      refine ⟨_, deleteGlobalItem_of_master zone hparts rfl rfl, hitems,
        h.of_master (by rw [hitems]; exact hdeldates _ hdates) ?_⟩
      split_ifs
      · exact (h.master master rfl).pop key
      · cases hdelete : (KeyedTurn.enter zone master key).delete rest with
        | none => exact h.master master rfl
        | some keyed =>
          have hkey : keyed.key = key :=
            (KeyedTurn.key_of_delete hdelete).trans (KeyedTurn.key_enter zone master key)
          exact (h.master master rfl).set (by rw [hkey]; exact hparts.one_label) _
    | none =>
      -- Before the worker attaches: the local Bag.
      obtain ⟨nodes, hnodes⟩ := h.local_bag
      dsimp only at hnodes
      subst hnodes
      have hdel := delItem_bag hparts nodes
      have hnew := hdeldates _ hdates
      unfold Site.deleteGlobalItem
      rw [hparts.split]
      dsimp only [Site.bag] at hnew ⊢
      rw [hdel] at hnew ⊢
      exact ⟨_, rfl, rfl, Plain.of_local hnew⟩

/-- An operation answers what the Bag answers, and leaves the site on the Bag that it leaves. -/
theorem Plain.call_refines {site : Site A} (h : site.Plain) {call : Call A} (hcall : call.Plain) :
    (site.call zone call).2 = (bagCall site.bag call).2 ∧
      (site.call zone call).1.bag = (bagCall site.bag call).1 ∧ (site.call zone call).1.Plain := by
  cases call with
  | get path default =>
    cases path with
    | none => exact ⟨congrArg Answer.value h.storeBag_eq, rfl, h⟩
    | some path =>
      refine ⟨congrArg Answer.value ?_, rfl, h⟩
      by_cases hpath : path = ""
      · rw [if_pos hpath, hpath]
        exact h.storeBag_eq
      · rw [if_neg hpath]
        exact h.getGlobalItem_eq (hcall.1.resolve_left hpath) hcall.2
  | set path value =>
    obtain ⟨site', hset, hbag, hplain⟩ := h.setGlobalItem_eq zone hcall.1 hcall.2
    have hanswer : site.call zone (.set path value) = (site', .done) := by
      show site.settle (site.setGlobalItem zone path value) = _
      rw [hset]
      rfl
    rw [hanswer]
    exact ⟨rfl, hbag, hplain⟩
  | delete path =>
    obtain ⟨site', hdelete, hbag, hplain⟩ := h.deleteGlobalItem_eq zone hcall
    have hanswer : site.call zone (.delete path) = (site', .done) := by
      show site.settle (site.deleteGlobalItem zone path) = _
      rw [hdelete]
      rfl
    rw [hanswer]
    exact ⟨rfl, hbag, hplain⟩
  | storeBag => exact ⟨congrArg Answer.value h.storeBag_eq, rfl, h⟩

/-- The normal exit of a turn publishes the Bag that its operations worked on. -/
theorem Plain.closeTurn_refines {site : Site A} (h : site.Plain) (hturn : site.turn.isSome) :
    (site.closeTurn zone false).bag = site.bag ∧ (site.closeTurn zone false).Plain := by
  have hdates := h.dates
  obtain ⟨master, turn, bag⟩ := site
  obtain ⟨content, rfl⟩ := Option.isSome_iff_exists.1 hturn
  have hitems :
      (publish zone (content.mapVals (wireValue zone))).content.items = content.items := by
    have hwire : Listing.mapVals (wireValue zone) content.items = content.items :=
      mapVals_of_forall fun item hitem => wireValue_of_isAware zone
        (Value.isAware_of_dates ((Value.hereditary_dates _).1 hdates item hitem))
    have hcross : Listing.mapVals (wired zone) content.items = content.items :=
      mapVals_of_forall fun item hitem =>
        wired_of_dates zone ((Value.hereditary_dates _).1 hdates item hitem)
    show Listing.mapVals (wired zone) (Listing.mapVals (wireValue zone) content.items) = _
    rw [hwire, hcross]
  have hbag : Value.bag (publish zone (content.mapVals (wireValue zone))).content.items =
      Value.bag content.items := by rw [hitems]
  refine ⟨hbag, h.of_master (by rw [hbag]; exact hdates) ?_⟩
  intro item hitem
  rw [hitems] at hitem
  exact h.turn content rfl item hitem

/-- A turn opens on the Bag of the master. -/
theorem Plain.openTurn_refines {site inside : Site A} (h : site.Plain)
    (hopen : site.openTurn zone = .ok inside) : inside.bag = site.bag ∧ inside.Plain := by
  obtain ⟨master, turn, bag⟩ := site
  unfold Site.openTurn at hopen
  cases master with
  | none => cases hopen
  | some master =>
    cases turn with
    | some content => cases hopen
    | none =>
      have hinside : inside = ⟨some master, some (master.forUpdate zone), bag⟩ :=
        (Except.ok.inj hopen).symm
      rw [hinside, Master.forUpdate_eq]
      exact ⟨rfl, h.of_turn h.dates (h.master master rfl)⟩

end Site

/-! ## Sequences on any road -/

/-- What a thread does with the store: an operation, or the enter or the exit of a block. -/
inductive Act (A : Type) where
  /-- An operation. -/
  | call (call : Call A)
  /-- The enter of a block. -/
  | enter
  /-- Its exit, with whether the body raised. -/
  | exit (raised : Bool)

/-- An act of a thread, with what it answers: an enter that is refused leaves the site as it is. -/
def Site.act (zone : ℤ) (site : Site A) : Act A → Site A × List (Answer A)
  | .call c => (site.call zone c).map id fun answer => [answer]
  | .enter =>
    match site.openTurn zone with
    | .ok inside => (inside, [])
    | .error _ => (site, [])
  | .exit raised => (site.closeTurn zone raised, [])

/-- The same on one Bag, for which a block is nothing. -/
def bagAct (bag : Value A) : Act A → Value A × List (Answer A)
  | .call c => (bagCall bag c).map id fun answer => [answer]
  | .enter => (bag, [])
  | .exit _ => (bag, [])

/-- The acts whose operations are plain and whose blocks end normally. -/
def Act.Plain : Act A → Prop
  | .call c => c.Plain
  | .enter => True
  | .exit raised => raised = false

/-- An act answers what the Bag answers, and leaves the site on the Bag that it leaves. -/
theorem Site.Plain.act_refines (zone : ℤ) {site : Site A} (h : site.Plain) {act : Act A}
    (hact : act.Plain) :
    (site.act zone act).2 = (bagAct site.bag act).2 ∧
      (site.act zone act).1.bag = (bagAct site.bag act).1 ∧ (site.act zone act).1.Plain := by
  cases act with
  | call call =>
    obtain ⟨hanswer, hbag, hplain⟩ := h.call_refines zone hact
    exact ⟨congrArg (fun answer => [answer]) hanswer, hbag, hplain⟩
  | enter =>
    unfold Site.act
    cases hopen : site.openTurn zone with
    | ok inside => exact ⟨rfl, h.openTurn_refines zone hopen⟩
    | error error => exact ⟨rfl, rfl, h⟩
  | exit raised =>
    have hraised : raised = false := hact
    subst hraised
    cases hturn : site.turn with
    | none =>
      have hclose : site.closeTurn zone false = site := by
        unfold Site.closeTurn
        rw [hturn]
      refine ⟨rfl, ?_⟩
      show (site.closeTurn zone false).bag = site.bag ∧ (site.closeTurn zone false).Plain
      rw [hclose]
      exact ⟨rfl, h⟩
    | some content =>
      have hsome : site.turn.isSome := by
        rw [hturn]
        rfl
      exact ⟨rfl, h.closeTurn_refines zone hsome⟩

/-- The dictionary of Bags refines the one Bag. Whatever the operations go to at first (the local
Bag, the master, a turn) and wherever blocks are entered and left between them, every answer is that
of one Bag addressed by the full paths, and so is what is left. A stored `None` is told from an
absent key, and a delete of a path that leads nowhere creates nothing. -/
theorem dictionary_refines_bag (zone : ℤ) {site : Site A} (hsite : site.Plain) {acts : List (Act A)}
    (hacts : ∀ act ∈ acts, act.Plain) :
    (serve (Site.act zone) site acts).2 = (serve bagAct site.bag acts).2 ∧
      (serve (Site.act zone) site acts).1.bag = (serve bagAct site.bag acts).1 ∧
      (∀ path default, Dotted path → default.dates = [] →
        ((serve (Site.act zone) site acts).1.call zone (.set path .none)).1.getGlobalItem zone
            (some path) default = .none ∧
          ((serve (Site.act zone) site acts).1.call zone (.delete path)).1.getGlobalItem zone
            (some path) default = default) ∧
      ∀ path, Dotted path →
        PathTree.lookup (serve bagAct site.bag acts).1 (labels path) = none →
        ((serve (Site.act zone) site acts).1.call zone (.delete path)).1.bag =
          (serve bagAct site.bag acts).1 := by
  have hstep : ∀ (site : Site A) (bag : Value A) (act : Act A), (site.bag = bag ∧ site.Plain) →
      act.Plain → (site.act zone act).2 = (bagAct bag act).2 ∧
        (site.act zone act).1.bag = (bagAct bag act).1 ∧ (site.act zone act).1.Plain := by
    rintro site bag act ⟨rfl, hplain⟩ hact
    exact hplain.act_refines zone hact
  obtain ⟨hanswers, hbag, hplain⟩ := serve_refines hstep ⟨rfl, hsite⟩ hacts
  refine ⟨hanswers, hbag, ?_, ?_⟩
  · intro path default hpath hdefault
    have hset : (Call.set path (.none : Value A)).Plain := ⟨hpath, rfl⟩
    have hdelete : (Call.delete path : Call A).Plain := hpath
    obtain ⟨-, hsetbag, hsetplain⟩ := hplain.call_refines zone hset
    obtain ⟨-, hdelbag, hdelplain⟩ := hplain.call_refines zone hdelete
    constructor
    · rw [hsetplain.getGlobalItem_eq hpath hdefault, hsetbag]
      show (PathTree.lookup (PathTree.write _ (labels path) Value.none) (labels path)).getD _ = _
      rw [PathTree.lookup_write_self, Option.getD_some]
    · rw [hdelplain.getGlobalItem_eq hpath hdefault, hdelbag]
      show (PathTree.lookup (PathTree.remove _ (labels path)) (labels path)).getD _ = _
      rw [PathTree.lookup_remove_self _ (labels_ne_nil path), Option.getD_none]
  · intro path hpath hnone
    have hdelete : (Call.delete path : Call A).Plain := hpath
    obtain ⟨-, hdelbag, -⟩ := hplain.call_refines zone hdelete
    rw [hdelbag, hbag]
    exact PathTree.remove_of_lookup_none hnone

/-- The store of a worker that has just attached is plain. -/
theorem Site.plain_attached : (⟨some Master.empty, none, .bag []⟩ : Site A).Plain where
  dates := rfl
  local_bag := ⟨[], rfl⟩
  turn := by
    intro content hcontent
    cases hcontent
  master := by
    intro master hmaster
    rw [← Option.some.inj hmaster]
    exact fun item hitem => absurd hitem List.not_mem_nil

/-- A leaf written outside a block and a sibling written inside one, read after its exit. -/
theorem dictionary_refines_bag_published :
    (serve (Site.act 7200) (⟨some Master.empty, none, .bag []⟩ : Site ℤ)
      [.call (.set "CACHE_TS.invoices" (.scalar 3)), .enter,
        .call (.set "CACHE_TS.customers" .none), .exit false,
        .call (.get (some "CACHE_TS.invoices") .none)]).2 =
      [[.done], [], [.done], [], [.value (.scalar 3)]] :=
  have hacts : ∀ act ∈ ([.call (.set "CACHE_TS.invoices" (.scalar 3)), .enter,
      .call (.set "CACHE_TS.customers" .none), .exit false,
      .call (.get (some "CACHE_TS.invoices") .none)] : List (Act ℤ)), act.Plain := by
    simp only [List.forall_mem_cons, List.not_mem_nil, false_imp_iff, implies_true, and_true]
    exact ⟨⟨by decide, rfl⟩, trivial, ⟨by decide, rfl⟩, rfl, Or.inr (by decide), rfl⟩
  (dictionary_refines_bag 7200 Site.plain_attached hacts).1.trans rfl

end GenropyAsgi.GlobalStore
